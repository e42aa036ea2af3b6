import Scm.Core.ContactMerge

/-!
# Two devices that exchange their contacts — `core/src/contacts_bridge.rs`

`merge_remote_contacts` is documented to have "LWW-register CRDT semantics": the record with the
higher `added_at` wins, and two devices that have merged each other's lists should agree. The
list of a device has one record for a peer, so a merge decides peer by peer (`resolved`), and
between records of different times both devices decide alike. Between records of the same time
each keeps its own, and the calls that edit a contact do not move `added_at`: this is the only
way to disagree (`exchange_iff`).
-/

namespace Scm.Core

open List Collections BridgeContact

/-- What two devices should agree on: not the local nickname and the verification time. -/
def BridgeContact.shared (contact : BridgeContact) : BridgeContact :=
  { contact with localNickname := none, verifiedAt := none }

namespace ContactBook

/-- `ContactManager::list` of the bridge. -/
def list (book : ContactBook) : List BridgeContact :=
  (book.db.entries.map Sigma.snd).mergeSort fun a b => decide (a.displayName ≤ b.displayName)

/-- Last writer wins, and the local record does in a tie. -/
def resolved : Option BridgeContact → Option BridgeContact → Option BridgeContact
  | some contact, some remote =>
    some (if remote.addedAt > contact.addedAt then merged contact remote else contact)
  | none, remote => remote
  | contact, none => contact

section
variable {book : ContactBook} {p : String} {remote : BridgeContact}

/-! ## The list of a device -/

theorem mem_list : remote ∈ book.list ↔ book.get remote.peerId = some remote := by
  rw [list, mem_mergeSort, mem_map]
  constructor
  · rintro ⟨⟨q, contact⟩, hentry, rfl⟩
    have hget : book.get q = some contact := AList.mem_lookup_iff.mpr hentry
    rwa [book.keyed q contact hget]
  · exact fun h => ⟨⟨remote.peerId, remote⟩, AList.mem_lookup_iff.mp h, rfl⟩

variable (book : ContactBook)

theorem nodup_list : (book.list.map (·.peerId)).Nodup := by
  refine ((mergeSort_perm _ _).map _).nodup_iff.mpr ?_
  have hkeys : (book.db.entries.map Sigma.snd).map (·.peerId) = book.db.keys := by
    rw [map_map]
    exact map_congr_left fun entry hentry =>
      book.keyed entry.1 entry.2 (AList.mem_lookup_iff.mpr hentry)
  rw [hkeys]
  exact book.db.keys_nodup

theorem find?_list (p : String) : book.list.find? (·.peerId = p) = book.get p := by
  cases hfind : book.list.find? (·.peerId = p) with
  | some contact =>
    obtain rfl : contact.peerId = p := by simpa using List.find?_some hfind
    exact (mem_list.mp (List.mem_of_find?_eq_some hfind)).symm
  | none =>
    cases hget : book.get p with
    | none => rfl
    | some contact =>
      have hid := book.keyed p contact hget
      have hmem : contact ∈ book.list := mem_list.mpr (hid.symm ▸ hget)
      simpa [hid] using List.find?_eq_none.mp hfind contact hmem

/-! ## A merge, peer by peer -/

theorem get_mergeRemote (state : Nat × ContactBook) :
    (mergeRemote state remote).2.get p = if remote.peerId = p
      then resolved (state.2.get p) (some remote) else state.2.get p := by
  unfold mergeRemote
  split
  next contact hget =>
    have hid := state.2.keyed _ contact hget
    have hpeer : (merged contact remote).peerId = remote.peerId := rfl
    grind [get_add, resolved]
  next hget => grind [get_add, resolved]

theorem get_foldl_mergeRemote {remotes : List BridgeContact} :
    ∀ state : Nat × ContactBook, (remotes.map (·.peerId)).Nodup →
      (remotes.foldl mergeRemote state).2.get p
        = resolved (state.2.get p) (remotes.find? (·.peerId = p)) := by
  induction remotes with
  | nil =>
    intro state _
    rw [foldl_nil]
    cases state.2.get p <;> rfl
  | cons remote remotes ih =>
    intro state hnodup
    rw [map_cons, nodup_cons] at hnodup
    rw [foldl_cons, ih _ hnodup.2, get_mergeRemote, List.find?_cons]
    by_cases hp : remote.peerId = p
    · -- the rest of the list has no record of this peer
      have hrest : remotes.find? (·.peerId = p) = none := by grind
      rw [if_pos hp, hrest, decide_eq_true hp]
      cases resolved (state.2.get p) (some remote) <;> rfl
    · rw [if_neg hp, decide_eq_false hp]

theorem get_mergeRemoteContacts (other : ContactBook) (p : String) :
    (book.mergeRemoteContacts other.list).2.get p = resolved (book.get p) (other.get p) := by
  rw [← find?_list other, mergeRemoteContacts, get_foldl_mergeRemote _ other.nodup_list]

/-- A merge of records that are no newer does nothing. -/
theorem foldl_mergeRemote_of_le {remotes : List BridgeContact} {state : Nat × ContactBook}
    (h : ∀ remote ∈ remotes, ∃ contact, state.2.get remote.peerId = some contact ∧
      remote.addedAt ≤ contact.addedAt) : remotes.foldl mergeRemote state = state := by
  induction remotes with
  | nil => rfl
  | cons remote remotes ih =>
    obtain ⟨⟨contact, hget, hle⟩, hrest⟩ := forall_mem_cons.mp h
    have hfirst : mergeRemote state remote = state := by
      simp [mergeRemote, hget, UInt64.not_lt.mpr hle]
    rw [foldl_cons, hfirst, ih hrest]

/-- **Merging the same list again updates nothing.** -/
theorem mergeRemoteContacts_again (other : ContactBook) :
    (book.mergeRemoteContacts other.list).2.mergeRemoteContacts other.list
      = (0, (book.mergeRemoteContacts other.list).2) := by
  refine foldl_mergeRemote_of_le fun remote hremote => ?_
  rw [get_mergeRemoteContacts, mem_list.mp hremote]
  cases book.get remote.peerId with
  | none => exact ⟨remote, rfl, UInt64.le_refl _⟩
  | some contact =>
    refine ⟨_, rfl, ?_⟩
    split
    next => exact UInt64.le_refl _
    next hle => exact UInt64.not_lt.mp hle

end

/-! ## An exchange -/

theorem shared_merged (contact remote : BridgeContact) :
    (merged contact remote).shared = remote.shared := rfl

/-- Both ways of resolving agree, but for records of the same time. -/
theorem resolved_comm_iff (x y : Option BridgeContact) :
    (resolved x y).map shared = (resolved y x).map shared ↔
      ∀ a ∈ x, ∀ b ∈ y, a.addedAt = b.addedAt → a.shared = b.shared := by
  cases x with
  | none => cases y <;> simp [resolved]
  | some a =>
    cases y with
    | none => simp [resolved]
    | some b =>
      simp only [resolved, Option.map_some, Option.some.injEq, Option.mem_some_iff, forall_eq']
      by_cases h : a.addedAt < b.addedAt
      · simp [h, UInt64.lt_asymm h, UInt64.ne_of_lt h, shared_merged]
      by_cases h' : b.addedAt < a.addedAt
      · simp [h, h', (UInt64.ne_of_lt h').symm, shared_merged]
      · simp [UInt64.le_antisymm (UInt64.not_lt.mp h') (UInt64.not_lt.mp h)]

/-- **An exchange ends in agreement exactly when** no two records of one peer have the same time
and different contents; merging the lists again changes nothing in any case. -/
theorem exchange_iff (here there : ContactBook) :
    ((∀ p, ((here.mergeRemoteContacts there.list).2.get p).map shared
        = ((there.mergeRemoteContacts here.list).2.get p).map shared) ∧
      (here.mergeRemoteContacts there.list).2.mergeRemoteContacts there.list
        = (0, (here.mergeRemoteContacts there.list).2) ∧
      (there.mergeRemoteContacts here.list).2.mergeRemoteContacts here.list
        = (0, (there.mergeRemoteContacts here.list).2)) ↔
      ∀ p, ∀ a ∈ here.get p, ∀ b ∈ there.get p, a.addedAt = b.addedAt → a.shared = b.shared := by
  rw [and_iff_left ⟨mergeRemoteContacts_again here there, mergeRemoteContacts_again there here⟩]
  simp only [get_mergeRemoteContacts, resolved_comm_iff]

/-- A contact that both devices got at the same time, under the nickname given to it. -/
def carolNamed (nickname : String) : BridgeContact where
  peerId := "carol"
  nickname := some nickname
  localNickname := none
  publicKey := "key"
  addedAt := 1
  lastSeen := none
  notes := none
  lastKnownDeviceId := none
  verifiedAt := none
  isTombstone := false

/-- The nickname was edited on one device: the exchange leaves both as they are. -/
theorem edited_nickname_not_merged :
    let here := new.add (carolNamed "Carol")
    let there := new.add (carolNamed "Caroline")
    ((here.mergeRemoteContacts there.list).2.get "carol").map shared
      ≠ ((there.mergeRemoteContacts here.list).2.get "carol").map shared := by
  decide +kernel

end ContactBook

end Scm.Core
