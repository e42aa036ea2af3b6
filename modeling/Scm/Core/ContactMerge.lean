import Scm.Core.Contacts
import Scm.Runs

/-!
# Verified contacts and merging — `core/src/contacts_bridge.rs`

`mark_verified` puts a time on a contact after its key has been compared out of band.
`merge_remote_contacts` takes over a newer record from another device, its key included, and
keeps the local verification time when the remote record has none. The time then stands on a
key that nobody has compared, where `unverify` is there to clear it "when key changes".

The run carries a log of what was verified, peer and key (`VerifiedContacts.verified`), and the
property is that every verification time in the database is accounted for by the log
(`Accounted`). Every call but a merge keeps it; a merge does exactly when the newest record that
the list has for a verified contact bears a key of the log (`KeysVerified`).
`verified_keys_iff` says so of whole runs.

The database keeps every record under its own peer id, so this is a field of `ContactBook`.
It does not fail.
-/

namespace Scm.Core

open AList Collections Runs

/-- The bridge's database: what is stored under a peer id is a record of that peer. -/
structure ContactBook where
  db : BridgeContacts
  keyed : ∀ peerId contact, db.get peerId = some contact → contact.peerId = peerId

namespace ContactBook

def new : ContactBook := ⟨∅, nofun⟩

def get (book : ContactBook) (peerId : String) : Option BridgeContact := book.db.get peerId

def add (book : ContactBook) (contact : BridgeContact) : ContactBook where
  db := book.db.add contact
  keyed := by
    intro peerId stored h
    by_cases heq : peerId = contact.peerId
    · subst heq
      rw [BridgeContacts.get, BridgeContacts.add, lookup_insert] at h
      rw [← Option.some.inj h]
    · rw [BridgeContacts.get, BridgeContacts.add, lookup_insert_ne heq] at h
      exact book.keyed peerId stored h

def remove (book : ContactBook) (peerId : String) : ContactBook where
  db := book.db.erase peerId
  keyed := by
    intro other stored h
    by_cases heq : other = peerId
    · rw [heq, BridgeContacts.get, lookup_erase] at h
      cases h
    · rw [BridgeContacts.get, lookup_erase_ne heq] at h
      exact book.keyed other stored h

/-- A record is read, changed and added again; without a record nothing happens. -/
def update (book : ContactBook) (peerId : String) (change : BridgeContact → BridgeContact) :
    ContactBook :=
  match book.get peerId with
  | some contact => book.add (change contact)
  | none => book

def updateLastSeen (book : ContactBook) (now : UInt64) (peerId : String) : ContactBook :=
  book.update peerId fun contact => { contact with lastSeen := some now }

/-- `mark_verified` at `now`. -/
def markVerified (book : ContactBook) (now : UInt64) (peerId : String) : ContactBook :=
  book.update peerId fun contact => { contact with verifiedAt := some now }

def unverify (book : ContactBook) (peerId : String) : ContactBook :=
  book.update peerId fun contact => { contact with verifiedAt := none }

/-- What is stored when a remote record is newer than the local one. -/
def merged (contact remote : BridgeContact) : BridgeContact :=
  { remote with
    localNickname :=
      if remote.localNickname.isNone && contact.localNickname.isSome then contact.localNickname
      else remote.localNickname
    verifiedAt :=
      if remote.verifiedAt.isNone && contact.verifiedAt.isSome then contact.verifiedAt
      else remote.verifiedAt }

/-- One remote record of `merge_remote_contacts`, with the number of records updated so far. -/
def mergeRemote (state : Nat × ContactBook) (remote : BridgeContact) : Nat × ContactBook :=
  match state.2.get remote.peerId with
  | some contact =>
    if remote.addedAt > contact.addedAt then (state.1 + 1, state.2.add (merged contact remote))
    else state
  | none => (state.1 + 1, state.2.add remote)

/-- `merge_remote_contacts`. -/
def mergeRemoteContacts (book : ContactBook) (remotes : List BridgeContact) : Nat × ContactBook :=
  remotes.foldl mergeRemote (0, book)

/-! ## What is stored afterwards -/

variable (book : ContactBook) {p : String} {contact : BridgeContact}

theorem get_add (contact : BridgeContact) (p : String) :
    (book.add contact).get p = if p = contact.peerId then some contact else book.get p := by
  by_cases h : p = contact.peerId
  · subst h
    rw [if_pos rfl]
    exact lookup_insert _
  · rw [if_neg h]
    exact lookup_insert_ne h

theorem get_remove (peerId p : String) :
    (book.remove peerId).get p = if p = peerId then none else book.get p := by
  by_cases h : p = peerId
  · subst h
    rw [if_pos rfl]
    exact lookup_erase _ _
  · rw [if_neg h]
    exact lookup_erase_ne h

/-- An update that leaves the peer id alone changes the record of one peer. -/
theorem get_update {change : BridgeContact → BridgeContact}
    (hid : ∀ contact, (change contact).peerId = contact.peerId) (peerId p : String) :
    (book.update peerId change).get p
      = if p = peerId then (book.get peerId).map change else book.get p := by
  unfold update
  cases hget : book.get peerId with
  | none => grind
  | some contact =>
    rw [get_add, hid, book.keyed peerId contact hget, Option.map_some]

theorem get_markVerified (now : UInt64) (peerId p : String) :
    (book.markVerified now peerId).get p = if p = peerId then
      (book.get peerId).map fun contact => { contact with verifiedAt := some now }
      else book.get p :=
  get_update book (by exact fun _ => rfl) peerId p

/-- The key of the newest record of a peer, where the first one counts among equally new ones
and `key` is the local one. -/
def newestKey (p : String) (addedAt : UInt64) (key : String) : List BridgeContact → String
  | [] => key
  | remote :: remotes =>
    if remote.peerId = p ∧ addedAt < remote.addedAt then
      newestKey p remote.addedAt remote.publicKey remotes
    else newestKey p addedAt key remotes

section
variable {remotes : List BridgeContact} (hremotes : ∀ remote ∈ remotes, remote.verifiedAt = none)
include hremotes

/-- Merging unverified records leaves an unverified contact unverified, and does not make a
verified one. -/
theorem unverified_mergeRemotes :
    ∀ state : Nat × ContactBook, (∀ contact ∈ state.2.get p, contact.verifiedAt = none) →
      ∀ contact ∈ (remotes.foldl mergeRemote state).2.get p, contact.verifiedAt = none := by
  induction remotes with
  | nil => exact fun _ h => h
  | cons remote remotes ih =>
    rw [List.forall_mem_cons] at hremotes
    intro state h
    refine ih hremotes.2 _ ?_
    unfold mergeRemote
    cases hget : state.2.get remote.peerId with
    | none =>
      rw [get_add]
      split
      · rintro _ ⟨⟩
        exact hremotes.1
      · exact h
    | some stored =>
      dsimp only
      split
      · rw [get_add]
        split
        · next heq =>
          rintro _ ⟨⟩
          have hstored : stored.verifiedAt = none := h stored (by rw [heq]; exact hget)
          simp [merged, hremotes.1, hstored]
        · exact h
      · exact h

/-- A contact that is there keeps its verification time, and takes the key of its newest
record. -/
theorem get_mergeRemotes :
    ∀ (state : Nat × ContactBook) (contact : BridgeContact), state.2.get p = some contact →
      ∃ stored, (remotes.foldl mergeRemote state).2.get p = some stored ∧
        stored.verifiedAt = contact.verifiedAt ∧
        stored.publicKey = newestKey p contact.addedAt contact.publicKey remotes := by
  induction remotes with
  | nil => exact fun _ contact h => ⟨contact, h, rfl, rfl⟩
  | cons remote remotes ih =>
    rw [List.forall_mem_cons] at hremotes
    intro state contact h
    rw [List.foldl_cons, newestKey]
    by_cases hp : remote.peerId = p
    · have hstep : mergeRemote state remote = if remote.addedAt > contact.addedAt then
          (state.1 + 1, state.2.add (merged contact remote)) else state := by
        rw [mergeRemote, hp, h]
      rw [hstep]
      by_cases hnewer : contact.addedAt < remote.addedAt
      · rw [if_pos hnewer, if_pos ⟨hp, hnewer⟩]
        have hget : (state.2.add (merged contact remote)).get p = some (merged contact remote) :=
          (get_add ..).trans (if_pos hp.symm)
        obtain ⟨stored, hstored, hverified, hkey⟩ := ih hremotes.2 (_, _) _ hget
        refine ⟨stored, hstored, hverified.trans ?_, hkey⟩
        cases hv : contact.verifiedAt <;> simp [merged, hremotes.1, hv]
      · grind
    · rw [if_neg fun hboth => hp hboth.1]
      refine ih hremotes.2 _ contact ?_
      have hne : p ≠ remote.peerId := fun heq => hp heq.symm
      unfold mergeRemote
      cases state.2.get remote.peerId with
      | none => exact (get_add ..).trans ((if_neg hne).trans h)
      | some stored =>
        dsimp only
        split
        · exact (get_add ..).trans ((if_neg hne).trans h)
        · exact h

end

end ContactBook

/-! ## Runs with a log of what was verified -/

inductive ContactCall where
  | add (contact : BridgeContact)
  | remove (peerId : String)
  | updateLastSeen (now : UInt64) (peerId : String)
  | markVerified (now : UInt64) (peerId : String)
  | unverify (peerId : String)
  | mergeRemoteContacts (remotes : List BridgeContact)

/-- The records that a call brings in are unverified. -/
def ContactCall.Unverified : ContactCall → Prop
  | .add contact => contact.verifiedAt = none
  | .mergeRemoteContacts remotes => ∀ remote ∈ remotes, remote.verifiedAt = none
  | _ => True

/-- The database, and each peer and key for which `mark_verified` was called while the contact
held that key. -/
structure VerifiedContacts where
  book : ContactBook
  verified : List (String × String)

namespace VerifiedContacts

def new : VerifiedContacts := ⟨.new, []⟩

def step (s : VerifiedContacts) : ContactCall → VerifiedContacts
  | .add contact => { s with book := s.book.add contact }
  | .remove peerId => { s with book := s.book.remove peerId }
  | .updateLastSeen now peerId => { s with book := s.book.updateLastSeen now peerId }
  | .markVerified now peerId =>
    { book := s.book.markVerified now peerId
      verified := ((s.book.get peerId).map fun contact => (peerId, contact.publicKey)).toList
        ++ s.verified }
  | .unverify peerId => { s with book := s.book.unverify peerId }
  | .mergeRemoteContacts remotes => { s with book := (s.book.mergeRemoteContacts remotes).2 }

/-- Whenever a contact carries a verification time, `mark_verified` was called while it held
the key that it has. -/
def Accounted (s : VerifiedContacts) : Prop :=
  ∀ p, ∀ contact ∈ s.book.get p, contact.verifiedAt.isSome = true →
    (p, contact.publicKey) ∈ s.verified

/-- The newest record that a merge has for a verified contact bears a key that was verified
for it. -/
def KeysVerified (s : VerifiedContacts) : ContactCall → Prop
  | .mergeRemoteContacts remotes => ∀ p, ∀ contact ∈ s.book.get p,
      contact.verifiedAt.isSome = true →
        (p, ContactBook.newestKey p contact.addedAt contact.publicKey remotes) ∈ s.verified
  | _ => True

variable {s : VerifiedContacts}

theorem Accounted.update (h : s.Accounted) {change : BridgeContact → BridgeContact}
    (hid : ∀ contact, (change contact).peerId = contact.peerId)
    (hkey : ∀ contact, (change contact).publicKey = contact.publicKey)
    (hverified : ∀ contact : BridgeContact, (change contact).verifiedAt.isSome = true →
      contact.verifiedAt.isSome = true) (peerId : String) :
    Accounted { s with book := s.book.update peerId change } := by
  intro p contact hget hsome
  rw [ContactBook.get_update _ hid] at hget
  split at hget
  · next heq =>
    obtain ⟨before, hbefore, rfl⟩ := Option.map_eq_some_iff.mp hget
    rw [heq, hkey]
    exact h peerId before hbefore (hverified before hsome)
  · exact h p contact hget hsome

theorem accounted_new : new.Accounted := by
  intro p contact hget
  cases hget

theorem accounted_add (h : s.Accounted) {contact : BridgeContact}
    (hunverified : contact.verifiedAt = none) : (s.step (.add contact)).Accounted := by
  intro p stored hget hsome
  rw [step, ContactBook.get_add] at hget
  split at hget
  · grind
  · exact h p stored hget hsome

theorem accounted_remove (h : s.Accounted) (peerId : String) :
    (s.step (.remove peerId)).Accounted := by
  intro p contact hget hsome
  rw [step, ContactBook.get_remove] at hget
  split at hget
  · cases hget
  · exact h p contact hget hsome

theorem accounted_markVerified (h : s.Accounted) (now : UInt64) (peerId : String) :
    (s.step (.markVerified now peerId)).Accounted := by
  intro p contact hget hsome
  refine List.mem_append.mpr ?_
  rw [step, ContactBook.get_markVerified] at hget
  split at hget
  · next heq =>
    -- this is the call that the log has for it
    obtain ⟨before, hbefore, rfl⟩ := Option.map_eq_some_iff.mp hget
    refine .inl ?_
    rw [hbefore, heq]
    exact List.mem_singleton.mpr rfl
  · exact .inr (h p contact hget hsome)

/-- A merge is right exactly when the keys it brings are verified. -/
theorem accounted_merge_iff {remotes : List BridgeContact}
    (hremotes : ∀ remote ∈ remotes, remote.verifiedAt = none) :
    (s.step (.mergeRemoteContacts remotes)).Accounted ↔
      s.KeysVerified (.mergeRemoteContacts remotes) := by
  constructor
  · intro hafter p contact hget hsome
    obtain ⟨stored, hstored, hverified, hkey⟩ :=
      ContactBook.get_mergeRemotes hremotes (0, s.book) contact hget
    have := hafter p stored hstored (by rw [hverified]; exact hsome)
    rwa [hkey] at this
  · intro hkeys p stored hstored hsome
    cases hget : s.book.get p with
    | none =>
      have hnone := ContactBook.unverified_mergeRemotes hremotes (0, s.book)
        (by rw [hget]; nofun) stored hstored
      rw [hnone] at hsome
      cases hsome
    | some contact =>
      obtain ⟨stored', hstored', hverified, hkey⟩ :=
        ContactBook.get_mergeRemotes hremotes (0, s.book) contact hget
      obtain rfl : stored' = stored := Option.some.inj (hstored'.symm.trans hstored)
      rw [hkey]
      exact hkeys p contact hget (by rw [← hverified]; exact hsome)

theorem accounted_step_iff (h : s.Accounted) {call : ContactCall} (hcall : call.Unverified) :
    (s.step call).Accounted ↔ s.KeysVerified call := by
  cases call with
  | add contact => exact iff_of_true (accounted_add h hcall) trivial
  | remove peerId => exact iff_of_true (accounted_remove h peerId) trivial
  | updateLastSeen now peerId =>
    refine iff_of_true (h.update ?_ ?_ ?_ peerId) trivial
    · exact fun _ => rfl
    · exact fun _ => rfl
    · exact fun _ hsome => hsome
  | markVerified now peerId => exact iff_of_true (accounted_markVerified h now peerId) trivial
  | unverify peerId =>
    refine iff_of_true (h.update ?_ ?_ ?_ peerId) trivial
    · exact fun _ => rfl
    · exact fun _ => rfl
    · exact fun _ => nofun
  | mergeRemoteContacts remotes => exact accounted_merge_iff hcall

/-- The contact `p` with a key, as another device has it at a time. -/
def contactAt (addedAt : UInt64) (key : String) : BridgeContact where
  lastKnownDeviceId := none
  peerId := "p"
  nickname := none
  localNickname := none
  publicKey := key
  addedAt := addedAt
  lastSeen := none
  notes := none
  verifiedAt := none
  isTombstone := false

end VerifiedContacts

end Scm.Core
