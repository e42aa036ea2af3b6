import Scm.Core.Receive
import Mathlib.Data.List.Infix

/-!
# The message history — `core/src/store/history.rs`

Records are filed under `msg_` and their id. The queries an application shows (`recent`,
`conversation`, `search`) leave out the records whose `hidden` flag is set; two bulk
operations set and clear the flag for all records of a peer.

`visible_iff` says what all queries together can show: the records that are not hidden,
and no other. `lookup_setHidden` says what the bulk operations do, record by record.

`limit` is a natural number here, and so is the count a bulk operation returns.
`to_lowercase` is a parameter. Backends do not fail; the order of the map's entries is the
order of `scan_prefix`.
-/

namespace Scm.Core

open List AList Collections

abbrev HistoryManager := AList fun _ : String => MessageRecord

/-- `adjust_legacy_timestamps`. -/
def MessageRecord.adjustLegacyTimestamps (record : MessageRecord) : MessageRecord :=
  if record.senderTimestamp = 0 then { record with senderTimestamp := record.timestamp }
  else record

/-- `str::eq_ignore_ascii_case`. -/
def eqIgnoreAsciiCase (a b : String) : Bool :=
  a.toList.map Char.toLower = b.toList.map Char.toLower

theorem eqIgnoreAsciiCase_self (a : String) : eqIgnoreAsciiCase a a = true := decide_eq_true rfl

namespace HistoryManager

/-! ## Queries -/

/-- The end of a query: newest first, and no more than `limit`. -/
def newestFirst (records : List MessageRecord) (limit : Nat) : List MessageRecord :=
  (records.mergeSort fun a b => decide (b.timestamp ≤ a.timestamp)).take limit

/-- `recent_internal`. -/
def recentInternal (h : HistoryManager) (peerFilter : Option String) (limit : Nat)
    (includeHidden : Bool) : List MessageRecord :=
  newestFirst
    ((h.entries.map fun entry => entry.2.adjustLegacyTimestamps).filter fun record =>
      (!record.hidden || includeHidden) &&
        match peerFilter with
        | some peer => eqIgnoreAsciiCase record.peerId peer
        | none => true)
    limit

/-- `HistoryManager::recent`. -/
def recent (h : HistoryManager) (peerFilter : Option String) (limit : Nat) : List MessageRecord :=
  h.recentInternal peerFilter limit false

/-- `HistoryManager::conversation`. -/
def conversation (h : HistoryManager) (peerId : String) (limit : Nat) : List MessageRecord :=
  h.recent (some peerId) limit

/-- `HistoryManager::search`. -/
def search (lower : String → String) (h : HistoryManager) (query : String) (limit : Nat) :
    List MessageRecord :=
  newestFirst
    ((h.entries.map fun entry => entry.2.adjustLegacyTimestamps).filter fun record =>
      !record.hidden && decide ((lower query).toList <:+: (lower record.content).toList))
    limit

/-- Some query an application shows returns the record. -/
inductive Visible (lower : String → String) (h : HistoryManager) (record : MessageRecord) : Prop
  | recent (peerFilter : Option String) (limit : Nat) : record ∈ h.recent peerFilter limit →
      Visible lower h record
  | conversation (peerId : String) (limit : Nat) : record ∈ h.conversation peerId limit →
      Visible lower h record
  | search (query : String) (limit : Nat) : record ∈ search lower h query limit →
      Visible lower h record

section
variable {records : List MessageRecord} {limit : Nat} {record : MessageRecord}

theorem mem_of_mem_newestFirst (h : record ∈ newestFirst records limit) : record ∈ records :=
  mem_mergeSort.mp (mem_of_mem_take h)

theorem mem_newestFirst (hlimit : records.length ≤ limit) (h : record ∈ records) :
    record ∈ newestFirst records limit := by
  unfold newestFirst
  rw [take_of_length_le (by rw [length_mergeSort]; exact hlimit)]
  exact mem_mergeSort.mpr h

end

section
variable (record : MessageRecord)

@[simp] theorem hidden_adjust : record.adjustLegacyTimestamps.hidden = record.hidden := by
  unfold MessageRecord.adjustLegacyTimestamps
  split <;> rfl

@[simp] theorem peerId_adjust : record.adjustLegacyTimestamps.peerId = record.peerId := by
  unfold MessageRecord.adjustLegacyTimestamps
  split <;> rfl

@[simp] theorem content_adjust : record.adjustLegacyTimestamps.content = record.content := by
  unfold MessageRecord.adjustLegacyTimestamps
  split <;> rfl

end

section
variable {h : HistoryManager} {record : MessageRecord} {limit : Nat}

theorem mem_recent {peerFilter : Option String} (hmem : record ∈ h.recent peerFilter limit) :
    ∃ entry ∈ h.entries, entry.2.hidden = false ∧ record = entry.2.adjustLegacyTimestamps := by
  obtain ⟨hscan, hkeep⟩ := mem_filter.mp (mem_of_mem_newestFirst hmem)
  obtain ⟨entry, hentry, rfl⟩ := mem_map.mp hscan
  rw [hidden_adjust, Bool.or_false, Bool.and_eq_true, Bool.not_eq_true'] at hkeep
  exact ⟨entry, hentry, hkeep.1, rfl⟩

variable {lower : String → String} {query : String}

theorem mem_search (hmem : record ∈ search lower h query limit) :
    ∃ entry ∈ h.entries, entry.2.hidden = false ∧ record = entry.2.adjustLegacyTimestamps := by
  obtain ⟨hscan, hkeep⟩ := mem_filter.mp (mem_of_mem_newestFirst hmem)
  obtain ⟨entry, hentry, rfl⟩ := mem_map.mp hscan
  rw [hidden_adjust, Bool.and_eq_true, Bool.not_eq_true'] at hkeep
  exact ⟨entry, hentry, hkeep.1, rfl⟩

variable {key : String}

section
variable (hlookup : h.lookup key = some record) (hshown : record.hidden = false)
  {peerFilter : Option String}
include hlookup hshown

/-- A record that is not hidden is found by every query whose filter it meets, if the limit
leaves room. -/
theorem mem_recent_of_lookup (hpeer : ∀ peer ∈ peerFilter, eqIgnoreAsciiCase record.peerId peer)
    (hlimit : len h ≤ limit) : record.adjustLegacyTimestamps ∈ h.recent peerFilter limit := by
  refine mem_newestFirst (Nat.le_trans (length_filter_le _ _) ?_) (mem_filter.mpr ⟨?_, ?_⟩)
  · rw [length_map]
    exact hlimit
  · exact mem_map.mpr ⟨_, mem_lookup_iff.mp hlookup, rfl⟩
  · rw [hidden_adjust, hshown, peerId_adjust]
    cases peerFilter with
    | none => rfl
    | some peer => exact hpeer peer rfl

theorem mem_search_of_lookup (hmatch : (lower query).toList <:+: (lower record.content).toList)
    (hlimit : len h ≤ limit) : record.adjustLegacyTimestamps ∈ search lower h query limit := by
  refine mem_newestFirst (Nat.le_trans (length_filter_le _ _) ?_) (mem_filter.mpr ⟨?_, ?_⟩)
  · rw [length_map]
    exact hlimit
  · exact mem_map.mpr ⟨_, mem_lookup_iff.mp hlookup, rfl⟩
  · simp_all

end

theorem visible_iff {lower : String → String} :
    Visible lower h record ↔ ∃ key stored, h.lookup key = some stored ∧ stored.hidden = false ∧
      record = stored.adjustLegacyTimestamps := by
  have hentry : (∃ entry ∈ h.entries, entry.2.hidden = false ∧
      record = entry.2.adjustLegacyTimestamps) → ∃ key stored, h.lookup key = some stored ∧
        stored.hidden = false ∧ record = stored.adjustLegacyTimestamps :=
    fun ⟨entry, hmem, hrest⟩ => ⟨entry.1, entry.2, mem_lookup_iff.mpr hmem, hrest⟩
  constructor
  · intro hvisible
    cases hvisible with
    | recent peerFilter limit hmem => exact hentry (mem_recent hmem)
    | conversation peerId limit hmem => exact hentry (mem_recent hmem)
    | search query limit hmem => exact hentry (mem_search hmem)
  · rintro ⟨key, stored, hlookup, hshown, rfl⟩
    exact .recent none (len h) (mem_recent_of_lookup hlookup hshown nofun (Nat.le_refl _))

end

/-! ## Hiding and showing a peer -/

/-- One round of the bulk operations: a record of the peer whose flag is not as wanted is
put back, under its own id, with the flag set. -/
def flagStep (flag : Bool) (peerId : String) (acc : Nat × HistoryManager)
    (entry : Sigma fun _ : String => MessageRecord) : Nat × HistoryManager :=
  if entry.2.hidden = !flag ∧ eqIgnoreAsciiCase entry.2.peerId peerId then
    (acc.1 + 1, acc.2.insert (historyKey entry.2.id) { entry.2 with hidden := flag })
  else acc

/-- The loop of the bulk operations, over what the scan returned. -/
def setHidden (flag : Bool) (h : HistoryManager) (peerId : String) : Nat × HistoryManager :=
  h.entries.foldl (flagStep flag peerId) (0, h)

/-- `unhide_messages_for_peer`. -/
def unhideMessagesForPeer (h : HistoryManager) (peerId : String) : Nat × HistoryManager :=
  h.setHidden false peerId

/-- Every record is filed under its own id. -/
def Keyed (h : HistoryManager) : Prop :=
  ∀ entry ∈ h.entries, entry.1 = historyKey entry.2.id

/-- One record, after the flag was set for a peer. -/
def withFlag (flag : Bool) (peerId : String) (record : MessageRecord) : MessageRecord :=
  if eqIgnoreAsciiCase record.peerId peerId then { record with hidden := flag } else record

section
variable {flag : Bool} {peerId : String} {acc : Nat × HistoryManager}
  {entry : Sigma fun _ : String => MessageRecord}

theorem lookup_flagStep_self (hkey : entry.1 = historyKey entry.2.id)
    (hold : acc.2.lookup entry.1 = some entry.2) :
    (flagStep flag peerId acc entry).2.lookup entry.1 = some (withFlag flag peerId entry.2) := by
  unfold flagStep withFlag
  by_cases hpeer : eqIgnoreAsciiCase entry.2.peerId peerId = true
  · rw [if_pos hpeer]
    split
    next => rw [hkey, lookup_insert]
    next hflag =>
      -- the flag is as wanted already
      have hhidden : entry.2.hidden = flag := by
        cases hh : entry.2.hidden <;> cases flag <;> simp_all
      rw [hold, ← hhidden]
  · simp_all

theorem lookup_flagStep_ne {key : String} (hkey : entry.1 = historyKey entry.2.id)
    (hne : key ≠ entry.1) : (flagStep flag peerId acc entry).2.lookup key = acc.2.lookup key := by
  unfold flagStep
  split
  next => exact lookup_insert_ne (hkey ▸ hne)
  next => rfl

theorem lookup_flagLoop {key : String} (entries : List (Sigma fun _ : String => MessageRecord)) :
    ∀ acc : Nat × HistoryManager, entries.NodupKeys →
      (∀ entry ∈ entries, entry.1 = historyKey entry.2.id) →
      (∀ entry ∈ entries, acc.2.lookup entry.1 = some entry.2) →
      (entries.foldl (flagStep flag peerId) acc).2.lookup key
        = if key ∈ entries.keys then (acc.2.lookup key).map (withFlag flag peerId)
          else acc.2.lookup key := by
  induction entries with
  | nil => exact fun _ _ _ _ => rfl
  | cons entry entries ih =>
    intro acc hnodup hkeyed hstored
    obtain ⟨hnew, hrest⟩ := nodupKeys_cons.mp hnodup
    obtain ⟨hkey, hkeys⟩ := forall_mem_cons.mp hkeyed
    obtain ⟨hself, hothers⟩ := forall_mem_cons.mp hstored
    have hstored' : ∀ other ∈ entries,
        (flagStep flag peerId acc entry).2.lookup other.1 = some other.2 := by
      intro other hother
      rw [lookup_flagStep_ne hkey fun heq => hnew (heq ▸ mem_keys_of_mem hother)]
      exact hothers other hother
    rw [foldl_cons, ih _ hrest hkeys hstored', keys_cons]
    by_cases heq : key = entry.1
    · grind [lookup_flagStep_self]
    · simp_all [lookup_flagStep_ne]

end

section
variable {h : HistoryManager} (hkeyed : h.Keyed) (flag : Bool) (peerId key : String)
include hkeyed

theorem lookup_setHidden :
    (h.setHidden flag peerId).2.lookup key = (h.lookup key).map (withFlag flag peerId) := by
  unfold setHidden
  rw [lookup_flagLoop h.entries (0, h) h.nodupKeys hkeyed
    fun entry hentry => mem_lookup_iff.mpr hentry]
  split
  next => rfl
  next hnot =>
    have hnone : h.lookup key = none := lookup_eq_none.mpr hnot
    show h.lookup key = _
    rw [hnone]
    rfl

theorem keyed_insert (record : MessageRecord) : Keyed (h.insert (historyKey record.id) record) := by
  intro entry hentry
  rcases lookup_insert_cases (mem_lookup_iff.mpr hentry) with ⟨hkey, hrecord⟩ | ⟨-, hold⟩
  · rw [hkey, hrecord]
  · exact hkeyed entry (mem_lookup_iff.mp hold)

theorem keyed_setHidden : Keyed (h.setHidden flag peerId).2 := by
  intro entry hentry
  have hlookup := mem_lookup_iff.mpr hentry
  rw [lookup_setHidden hkeyed] at hlookup
  obtain ⟨record, hrecord, hflag⟩ := Option.map_eq_some_iff.mp hlookup
  have hid : entry.2.id = record.id := by grind [withFlag]
  rw [hid]
  exact hkeyed ⟨entry.1, record⟩ (mem_lookup_iff.mp hrecord)

end

end HistoryManager

end Scm.Core
