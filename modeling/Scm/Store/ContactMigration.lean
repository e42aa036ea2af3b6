import Scm.Core.Contacts
import Scm.OrderedStore

/-!
# The migration of contacts — `core/src/store/contacts.rs`, `migrate_unprefixed_contacts`

Contacts used to be filed under the bare peer id, in a backend that other subsystems share; now
they are filed under `contact:` and the peer id. Opening the contact manager copies the old
records, removes them, and writes a marker that stops later openings from looking again.

Each of these writes can fail, and the marker is written whether or not the copies were. A record
whose copy failed is then neither copied nor looked for (`recovered_iff`).

In one opening a key is written at most once and removed at most once, so which writes fail is
said by key. `serde_json::from_slice` is a parameter. Reads do not fail, and a scan lists the
entries in any order.
-/

namespace Scm.Store

open List Collections Scm.Core OrderedStore Store Option

/-- The writes of an opening that fail. -/
structure WriteFaults where
  put : Bytes → Bool
  remove : Bytes → Bool

/-- A working backend. -/
def WriteFaults.none : WriteFaults := ⟨fun _ => false, fun _ => false⟩

/-- `put`, and whether it succeeded. -/
def WriteFaults.tryPut (faults : WriteFaults) (db : ByteStore) (key value : Bytes) :
    Bool × ByteStore :=
  if faults.put key then (false, db) else (true, db.put key value)

/-- `let _ = remove`. -/
def WriteFaults.tryRemove (faults : WriteFaults) (db : ByteStore) (key : Bytes) : ByteStore :=
  if faults.remove key then db else db.remove key

/-- `CONTACT_KEY_PREFIX`. -/
def contactPrefix : Bytes := utf8 "contact:"

/-- The key of the marker. -/
def migratedMarker : Bytes := utf8 "metadata_contacts_migrated"

/-- The new key of a contact. -/
def prefixedKey (peerId : String) : Bytes := utf8 (contactKey peerId)

section
variable (D : Bytes → Option ContactRecord)

/-- The tests of the migration loop: the record of an entry that is to be migrated. -/
def legacyContact (entry : Bytes × Bytes) : Option ContactRecord :=
  if contactPrefix.isPrefixOf entry.1 then none
  else
    match D entry.2 with
    | none => none
    | some contact => if utf8 contact.peerId ≠ entry.1 then none else some contact

/-- One entry of the migration loop. -/
def migrateEntry (faults : WriteFaults) (db : ByteStore) (entry : Bytes × Bytes) :
    ByteStore :=
  match legacyContact D entry with
  | none => db
  | some contact =>
    let prefixed := prefixedKey contact.peerId
    if (db.get prefixed).isSome then faults.tryRemove db entry.1
    else
      let (written, db) := faults.tryPut db prefixed entry.2
      if written then faults.tryRemove db entry.1 else db

/-- `ContactManager::new`, which is `migrate_unprefixed_contacts`. -/
def openContacts (order : Reordering (Bytes × Bytes)) (faults : WriteFaults)
    (db : ByteStore) : ByteStore :=
  if (db.get migratedMarker).isSome then db
  else
    let db := (order.order (db.scanPrefix [])).foldl (migrateEntry D faults) db
    (faults.tryPut db migratedMarker (utf8 "true")).2

/-- A stored record, as `get` and `list` read it. -/
def readContact (data : Bytes) : Except IronCoreError ContactRecord :=
  match D data with
  | some contact => .ok contact
  | none => .error .internal

/-- `ContactManager::get`. -/
def getContact (db : ByteStore) (peerId : String) : Except IronCoreError (Option ContactRecord) :=
  match db.get (prefixedKey peerId) with
  | some data => (readContact D data).map some
  | none => .ok none

/-- `ContactManager::list`: one record that cannot be read fails the whole list. -/
def listContacts (order : Reordering (Bytes × Bytes)) (db : ByteStore) :
    Except IronCoreError (List ContactRecord) :=
  ((order.order (db.scanPrefix contactPrefix)).mapM fun entry => readContact D entry.2).map
    fun contacts => contacts.mergeSort fun a b => decide (a.displayName ≤ b.displayName)

variable {D}

/-! ## What an opening does to one key

A migrated entry is copied to `contact:` and its old key, whatever it holds. -/

theorem prefixedKey_eq (peerId : String) : prefixedKey peerId = contactPrefix ++ utf8 peerId :=
  utf8_append _ _

theorem legacyContact_eq_some_iff {key value : Bytes} {contact : ContactRecord} :
    legacyContact D (key, value) = some contact ↔
      ¬ contactPrefix <+: key ∧ D value = some contact ∧ utf8 contact.peerId = key := by
  rw [← isPrefixOf_iff_prefix]
  unfold legacyContact
  grind

/-- The copy that the loop makes of an entry whose new key is free. -/
def copied (D : Bytes → Option ContactRecord) (faults : WriteFaults)
    (entry : Bytes × Bytes) : Option Bytes :=
  if (legacyContact D entry).isSome ∧ faults.put (contactPrefix ++ entry.1) = false then
    some entry.2
  else none

section
variable {faults : WriteFaults} {db : ByteStore} {entry : Bytes × Bytes}
  {key rest : Bytes}

theorem get_tryRemove (other : Bytes) : (faults.tryRemove db key).get other
    = if other = key ∧ faults.remove key = false then none else db.get other := by
  unfold WriteFaults.tryRemove
  grind [Store.get_remove]

theorem prefixed_ne (hkey : ¬ contactPrefix <+: key) : contactPrefix ++ rest ≠ key :=
  fun h => hkey ⟨rest, h⟩

/-- The loop on an entry it migrates, with the new key in terms of the old one. -/
theorem migrateEntry_of_legacy {contact : ContactRecord}
    (h : legacyContact D entry = some contact) :
    migrateEntry D faults db entry =
      if (db.get (contactPrefix ++ entry.1)).isSome then faults.tryRemove db entry.1
      else if faults.put (contactPrefix ++ entry.1) then db
      else faults.tryRemove (db.put (contactPrefix ++ entry.1) entry.2) entry.1 := by
  have hkey : prefixedKey contact.peerId = contactPrefix ++ entry.1 := by
    rw [prefixedKey_eq, (legacyContact_eq_some_iff.mp h).2.2]
  simp only [migrateEntry, h, hkey, WriteFaults.tryPut]
  grind

/-- A new key keeps its value, or gets the one copied to it. -/
theorem get_migrateEntry_prefixed :
    (migrateEntry D faults db entry).get (contactPrefix ++ rest)
      = (db.get (contactPrefix ++ rest)).or
          (if entry.1 = rest then copied D faults entry else none) := by
  cases h : legacyContact D entry with
  | none => simp [migrateEntry, copied, h]
  | some contact =>
    have hbare : contactPrefix ++ rest ≠ entry.1 := prefixed_ne (legacyContact_eq_some_iff.mp h).1
    rw [migrateEntry_of_legacy h, copied]
    by_cases heq : entry.1 = rest
    · subst heq
      cases hold : db.get (contactPrefix ++ entry.1) <;> grind [get_tryRemove, get_put]
    · have hother : contactPrefix ++ rest ≠ contactPrefix ++ entry.1 := by simpa using Ne.symm heq
      grind [get_tryRemove, get_put]

/-- An old key stays as it is as long as its new key is free. -/
theorem get_migrateEntry_bare (hkey : ¬ contactPrefix <+: key)
    (hfree : key = entry.1 → (migrateEntry D faults db entry).get (contactPrefix ++ key) = none) :
    (migrateEntry D faults db entry).get key = db.get key := by
  cases h : legacyContact D entry with
  | none => simp [migrateEntry, h]
  | some contact =>
    have hother : key ≠ contactPrefix ++ entry.1 := (prefixed_ne hkey).symm
    rw [get_migrateEntry_prefixed] at hfree
    rw [migrateEntry_of_legacy h]
    grind [get_tryRemove, get_put, copied]

/-- The whole loop, at a new key. -/
theorem get_foldl_prefixed (entries : List (Bytes × Bytes)) :
    ∀ db : ByteStore, (entries.foldl (migrateEntry D faults) db).get (contactPrefix ++ rest)
      = (db.get (contactPrefix ++ rest)).or
          (entries.findSome? fun entry =>
            if entry.1 = rest then copied D faults entry else none) := by
  induction entries with
  | nil => exact fun db => (or_none).symm
  | cons entry entries ih =>
    intro db
    rw [foldl_cons, ih, get_migrateEntry_prefixed, Option.or_assoc, List.findSome?_cons]
    refine congrArg _ ?_
    cases (if entry.1 = rest then copied D faults entry else none) <;> rfl

/-- The whole loop, at an old key. -/
theorem get_foldl_bare (hkey : ¬ contactPrefix <+: key) (entries : List (Bytes × Bytes)) :
    ∀ db : ByteStore, (key ∈ entries.map Prod.fst →
        (entries.foldl (migrateEntry D faults) db).get (contactPrefix ++ key) = none) →
      (entries.foldl (migrateEntry D faults) db).get key = db.get key := by
  induction entries with
  | nil => exact fun db _ => rfl
  | cons entry entries ih =>
    intro db hfree
    rw [foldl_cons] at *
    rw [ih _ fun hmem => hfree (mem_cons_of_mem _ hmem)]
    refine get_migrateEntry_bare hkey fun heq => ?_
    have hnone := hfree (heq ▸ mem_cons_self)
    rw [get_foldl_prefixed, or_eq_none_iff] at hnone
    exact hnone.1

end

/-! ## What an opening does -/

section
variable {order : Reordering (Bytes × Bytes)} {faults : WriteFaults} {db : ByteStore}
  {key rest : Bytes}

theorem mem_listing {entry : Bytes × Bytes} {start : Bytes} :
    entry ∈ order.order (db.scanPrefix start) ↔
      db.get entry.1 = some entry.2 ∧ start <+: entry.1 := by
  rw [order.mem_order, get_eq_some_iff, ByteStore.scanPrefix, mem_filter,
    isPrefixOf_iff_prefix]

theorem findSome?_listing (order : Reordering (Bytes × Bytes)) {f : Bytes × Bytes → Option Bytes} :
    ((order.order (db.scanPrefix [])).findSome? fun entry =>
      if entry.1 = rest then f entry else none)
      = (db.get rest).bind fun value => f (rest, value) := by
  cases hfind : (order.order (db.scanPrefix [])).findSome? fun entry =>
    if entry.1 = rest then f entry else none with
  | none =>
    rw [List.findSome?_eq_none_iff] at hfind
    refine (bind_eq_none_iff.mpr fun value hvalue => ?_).symm
    have hnone := hfind (rest, value) (mem_listing.mpr ⟨hvalue, nil_prefix⟩)
    rwa [if_pos rfl] at hnone
  | some other =>
    obtain ⟨entry, hentry, hother⟩ := List.exists_of_findSome?_eq_some hfind
    obtain ⟨rfl, hcopy⟩ := ite_none_right_eq_some.mp hother
    rw [(mem_listing.mp hentry).1]
    exact hcopy.symm

theorem marker_bare : ¬ contactPrefix <+: migratedMarker := by decide +kernel

/-- What an opening leaves at a new key. -/
theorem get_openContacts_prefixed :
    (openContacts D order faults db).get (contactPrefix ++ rest)
      = (db.get (contactPrefix ++ rest)).or (if (db.get migratedMarker).isSome then none
          else (db.get rest).bind fun value => copied D faults (rest, value)) := by
  have hne : contactPrefix ++ rest ≠ migratedMarker := prefixed_ne marker_bare
  rw [← findSome?_listing order]
  unfold openContacts WriteFaults.tryPut
  split
  next => rw [or_none]
  rw [← get_foldl_prefixed]
  grind [get_put]

/-- What an opening leaves at another key, as long as the new key that goes with it is free. -/
theorem get_openContacts_bare (hkey : ¬ contactPrefix <+: key)
    (hfree : (db.get key).isSome → (openContacts D order faults db).get (contactPrefix ++ key)
      = none) :
    (openContacts D order faults db).get key = if key = migratedMarker ∧ db.get key = none ∧
      faults.put migratedMarker = false then some (utf8 "true") else db.get key := by
  have hne : contactPrefix ++ key ≠ migratedMarker := prefixed_ne marker_bare
  unfold openContacts WriteFaults.tryPut at *
  split
  next hmarker => grind
  next hmarker =>
    rw [if_neg hmarker] at hfree
    rw [not_isSome_iff_eq_none] at hmarker
    have hloop : ((order.order (db.scanPrefix [])).foldl (migrateEntry D faults) db).get key
        = db.get key := get_foldl_bare hkey _ _ fun hmem => ?_
    · dsimp only
      split <;> simp only [get_put, hloop] <;> grind
    · obtain ⟨entry, hentry, rfl⟩ := mem_map.mp hmem
      have hthere := (mem_listing.mp hentry).1
      grind [get_put]

/-- An opening writes the marker unless that fails. -/
theorem isSome_marker_iff :
    ((openContacts D order faults db).get migratedMarker).isSome ↔
      (db.get migratedMarker).isSome ∨ faults.put migratedMarker = false := by
  cases hmarker : db.get migratedMarker with
  | some _ => simp [openContacts, hmarker]
  | none =>
    rw [get_openContacts_bare marker_bare (by simp [hmarker])]
    grind

end

/-! ## Reading contacts -/

/-- All records of contacts can be read. -/
def Readable (D : Bytes → Option ContactRecord) (db : ByteStore) : Prop :=
  ∀ rest value, db.get (contactPrefix ++ rest) = some value → (D value).isSome

section
variable {order : Reordering (Bytes × Bytes)} {faults : WriteFaults} {db : ByteStore}

/-- An opening adds no record that cannot be read. -/
theorem readable_openContacts_iff :
    Readable D (openContacts D order faults db) ↔ Readable D db := by
  have hcopied : ∀ entry value, copied D faults entry = some value → (D value).isSome := by
    intro entry value h
    obtain ⟨⟨hlegacy, -⟩, hvalue⟩ := ite_none_right_eq_some.mp h
    obtain ⟨contact, hcontact⟩ := isSome_iff_exists.mp hlegacy
    rw [← Option.some.inj hvalue, (legacyContact_eq_some_iff.mp hcontact).2.1]
    rfl
  refine forall_congr' fun rest => forall_congr' fun value => ?_
  rw [get_openContacts_prefixed, or_eq_some_iff]
  refine ⟨fun h hvalue => h (.inl hvalue), fun h hvalue => hvalue.elim h fun hnew => ?_⟩
  obtain ⟨-, hnew⟩ := ite_none_left_eq_some.mp hnew.2
  obtain ⟨old, -, hold⟩ := bind_eq_some_iff.mp hnew
  exact hcopied _ _ hold

theorem readContact_eq_ok_iff {data : Bytes} {contact : ContactRecord} :
    readContact D data = .ok contact ↔ D data = some contact := by
  unfold readContact
  split <;> simp_all

theorem getContact_eq_some_iff {peerId : String} {contact : ContactRecord} :
    getContact D db peerId = .ok (some contact) ↔
      (db.get (prefixedKey peerId)).bind D = some contact := by
  unfold getContact
  split
  next data hdata =>
    rw [hdata, bind_some, ← readContact_eq_ok_iff]
    cases readContact D data <;> simp [Except.map]
  next hnone => simp [hnone]

/-- A list that can be made has every contact that can be read, in whatever order. -/
theorem exists_listContacts_iff {contact : ContactRecord} {peerId : String}
    (hread : (db.get (prefixedKey peerId)).bind D = some contact) :
    (∃ listed, listContacts D order db = .ok listed ∧ contact ∈ listed) ↔ Readable D db := by
  have hlist : ∀ listed, listContacts D order db = .ok listed ↔
      ∃ contacts : List ContactRecord, ((order.order (db.scanPrefix contactPrefix)).map fun entry =>
        readContact D entry.2) = contacts.map .ok ∧
        (contacts.mergeSort fun a b => decide (a.displayName ≤ b.displayName)) = listed := by
    intro listed
    simp only [← mapM_eq_ok_iff, listContacts]
    cases (order.order (db.scanPrefix contactPrefix)).mapM fun entry => readContact D entry.2 <;>
      simp [Except.map]
  constructor
  · rintro ⟨listed, hlisted, -⟩ rest value hget
    obtain ⟨contacts, hcontacts, -⟩ := (hlist listed).mp hlisted
    have hentry : (contactPrefix ++ rest, value) ∈ order.order (db.scanPrefix contactPrefix) :=
      mem_listing.mpr ⟨hget, prefix_append _ _⟩
    have hmem := mem_map_of_mem (f := fun entry => readContact D entry.2) hentry
    rw [hcontacts] at hmem
    obtain ⟨found, -, hfound⟩ := mem_map.mp hmem
    rw [readContact_eq_ok_iff.mp hfound.symm]
    rfl
  · intro hreadable
    obtain ⟨value, hvalue, hread⟩ := bind_eq_some_iff.mp hread
    refine ⟨_, (hlist _).mpr ⟨(order.order (db.scanPrefix contactPrefix)).map fun entry =>
      (D entry.2).getD contact, ?_, rfl⟩, ?_⟩
    · rw [List.map_map]
      refine map_congr_left fun entry hentry => readContact_eq_ok_iff.mpr ?_
      obtain ⟨hget, rest, hrest⟩ := mem_listing.mp hentry
      obtain ⟨found, hfound⟩ :=
        isSome_iff_exists.mp (hreadable rest entry.2 (by rw [hrest, hget]))
      simp [hfound]
    · rw [mem_mergeSort]
      refine mem_map.mpr ⟨(prefixedKey peerId, value), mem_listing.mpr ⟨hvalue, ?_⟩, ?_⟩
      · exact ⟨utf8 peerId, (prefixedKey_eq peerId).symm⟩
      · rw [hread, getD_some]

end

/-! ## Two openings -/

/-- A contact that is filed under its bare peer id. -/
def IsLegacy (D : Bytes → Option ContactRecord) (db : ByteStore) (contact : ContactRecord) :
    Prop :=
  (db.get (utf8 contact.peerId)).bind D = some contact

/-- The contact is found by its peer id and stands in every list. -/
def Visible (D : Bytes → Option ContactRecord) (db : ByteStore) (peerId : String)
    (contact : ContactRecord) : Prop :=
  getContact D db peerId = .ok (some contact) ∧
    ∀ order, ∃ listed, listContacts D order db = .ok listed ∧ contact ∈ listed

/-- What a migration is for: every legacy contact is visible, as it was unless its peer had a
prefixed record already, and the prefixed records are kept. -/
def Recovered (D : Bytes → Option ContactRecord) (before after : ByteStore) : Prop :=
  (∀ contact, IsLegacy D before contact → ∃ found, Visible D after contact.peerId found ∧
    ((before.get (prefixedKey contact.peerId)).isNone → found = contact)) ∧
  ∀ key value, contactPrefix <+: key → before.get key = some value → after.get key = some value

/-- The record of a peer comes to its new key, now or with the next opening: the marker is not
there yet, and the copy does not fail or the marker is not written either. -/
def WriteFaults.Copies (faults : WriteFaults) (before : ByteStore) (peerId : String) : Prop :=
  ¬ contactPrefix <+: utf8 peerId ∧ ¬ (before.get migratedMarker).isSome ∧
    (faults.put (prefixedKey peerId) = false ∨ faults.put migratedMarker = true)

theorem visible_iff {db : ByteStore} {peerId : String} {contact : ContactRecord} :
    Visible D db peerId contact ↔
      (db.get (prefixedKey peerId)).bind D = some contact ∧ Readable D db := by
  rw [Visible, getContact_eq_some_iff]
  exact and_congr_right fun h => ⟨fun hall => (exists_listContacts_iff h).mp (hall .same),
    fun hreadable order => (exists_listContacts_iff h).mpr hreadable⟩

section
variable {first later : Reordering (Bytes × Bytes)} {faults : WriteFaults}
  {before : ByteStore} {contact : ContactRecord} {value : Bytes}

theorem copied_of_prefixed {key : Bytes} (h : contactPrefix <+: key) :
    copied D faults (key, value) = none := by
  simp [copied, legacyContact, isPrefixOf_iff_prefix.mpr h]

theorem copied_eq (hread : D value = some contact) :
    copied D faults (utf8 contact.peerId, value)
      = if ¬ contactPrefix <+: utf8 contact.peerId ∧ faults.put (prefixedKey contact.peerId) = false
        then some value else none := by
  have hlegacy : (legacyContact D (utf8 contact.peerId, value)).isSome ↔
      ¬ contactPrefix <+: utf8 contact.peerId := by
    rw [isSome_iff_exists]
    simp only [legacyContact_eq_some_iff, hread, Option.some.injEq]
    exact ⟨fun ⟨_, h⟩ => h.1, fun h => ⟨contact, h, rfl, rfl⟩⟩
  simp only [copied, hlegacy, prefixedKey_eq]

/-- The record of a legacy contact after the second opening. -/
theorem get_twice (hvalue : before.get (utf8 contact.peerId) = some value)
    (hread : D value = some contact) {data : Bytes} :
    (openContacts D later .none (openContacts D first faults before)).get
        (prefixedKey contact.peerId) = some data ↔
      before.get (prefixedKey contact.peerId) = some data ∨
        before.get (prefixedKey contact.peerId) = none ∧
          faults.Copies before contact.peerId ∧ value = data := by
  have hfirst : (openContacts D first faults before).get (prefixedKey contact.peerId)
      = (before.get (prefixedKey contact.peerId)).or
        (if (before.get migratedMarker).isSome then none
          else copied D faults (utf8 contact.peerId, value)) := by
    rw [prefixedKey_eq, get_openContacts_prefixed, hvalue, bind_some]
  rw [copied_eq hread] at hfirst
  unfold WriteFaults.Copies
  rw [prefixedKey_eq, get_openContacts_prefixed, ← prefixedKey_eq]
  cases hbefore : before.get (prefixedKey contact.peerId) with
  | some other => simp [hfirst, hbefore]
  | none =>
    rw [hbefore] at hfirst
    by_cases hbare : contactPrefix <+: utf8 contact.peerId
    · simp [hfirst, copied_of_prefixed hbare, hbare]
    · cases hafter : (openContacts D first faults before).get (prefixedKey contact.peerId) with
      | some other => simp_all
      | none =>
        -- the copy was not made, so the old record is still there
        have hold : (openContacts D first faults before).get (utf8 contact.peerId) = _ :=
          get_openContacts_bare hbare fun _ => by rw [← prefixedKey_eq, hafter]
        have hcopied : copied D .none (utf8 contact.peerId, value) = some value :=
          (copied_eq hread).trans (if_pos ⟨hbare, rfl⟩)
        rw [hvalue, if_neg (by simp)] at hold
        simp only [hold, bind_some, hcopied, isSome_marker_iff, none_or]
        rw [hfirst] at hafter
        by_cases hmarker : (before.get migratedMarker).isSome <;>
          cases hput : faults.put migratedMarker <;> simp_all

end

/-- **A legacy contact is lost sight of exactly when** a record of a contact cannot be read, the
marker was there already, or its copy failed and the marker was written nevertheless. -/
theorem recovered_iff (D : Bytes → Option ContactRecord) (first later : Reordering (Bytes × Bytes))
    (faults : WriteFaults) (before : ByteStore) :
    Recovered D before (openContacts D later .none (openContacts D first faults before)) ↔
      ∀ contact, IsLegacy D before contact → Readable D before ∧
        ((before.get (prefixedKey contact.peerId)).isSome ∨
          faults.Copies before contact.peerId) := by
  have hkept : ∀ key value, contactPrefix <+: key → before.get key = some value →
      (openContacts D later .none (openContacts D first faults before)).get key = some value := by
    rintro key value ⟨rest, rfl⟩ hvalue
    simp only [get_openContacts_prefixed, hvalue, some_or]
  rw [Recovered, and_iff_left hkept]
  refine forall_congr' fun contact => forall_congr' fun hlegacy => ?_
  obtain ⟨value, hvalue, hread⟩ := bind_eq_some_iff.mp hlegacy
  simp only [visible_iff, readable_openContacts_iff, bind_eq_some_iff,
    get_twice hvalue hread]
  constructor
  · grind
  · rintro ⟨hreadable, hthere⟩
    cases hold : before.get (prefixedKey contact.peerId) with
    | some data =>
      obtain ⟨found, hfound⟩ := isSome_iff_exists.mp
        (hreadable (utf8 contact.peerId) data (by rw [← prefixedKey_eq, hold]))
      exact ⟨found, ⟨⟨data, .inl rfl, hfound⟩, hreadable⟩, nofun⟩
    | none => simp_all

/-- Alice, as a contact of an old install. -/
def legacyAlice : ContactRecord where
  peerId := "alice"
  nickname := none
  localNickname := none
  publicKey := "key"
  addedAt := 0
  lastSeen := none
  notes := none
  lastKnownDeviceId := none

/-- The copy of a contact fails, the marker is written, and the next opening does not look. -/
theorem failed_copy_not_retried :
    let D := fun data => if data = [1] then some legacyAlice else none
    let before := Store.empty.put (utf8 "alice") [1]
    let faults : WriteFaults := ⟨fun key => key = prefixedKey "alice", fun _ => false⟩
    ¬ Recovered D before (openContacts D .same .none (openContacts D .same faults before)) := by
  intro D before faults h
  have hlegacy : (before.get (utf8 legacyAlice.peerId)).bind D = some legacyAlice := by
    decide +kernel
  obtain ⟨found, ⟨hget, -⟩, -⟩ := h.1 legacyAlice hlegacy
  have hnone :
      getContact D (openContacts D .same .none (openContacts D .same faults before)) "alice"
      = .ok none := by
    decide +kernel
  cases hget.symm.trans hnone

end

end Scm.Store
