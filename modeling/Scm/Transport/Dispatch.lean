import Scm.Store.CustodyBound
import Scm.Store.CustodyIsolation
import Scm.Transport.Swarm
import Mathlib.Algebra.Order.BigOperators.Group.List

/-!
# When a pull sends something

`dispatch_pending_custody_for_peer` takes the 64 oldest records from the queue of a
destination and tries `mark_dispatching` on each. A record that has used up its 12
attempts is refused there; it is neither removed nor moved to the back. So

* `dispatch_sends_iff` — a pull sends something when one of those 64 passes the check;
* `exhausted_records_block_queue` — 64 records that were refused twelve times each
  stand before every later one, which is then never sent.

The store of the second is built by 64 times 25 calls and not computed: the records
are known exactly after every round (`Jammed`).
-/

namespace Scm.Store

open List Collections

namespace RelayCustodyStore

/-! ## The check of `mark_dispatching` -/

/-- What `mark_dispatching` finds under this id is there and, if it waits, has
attempts left. -/
def MayDispatch (s : RelayCustodyStore) (destination custodyId : String) : Prop :=
  ∃ record, s.getMessage destination custodyId = some record ∧
    (record.state = .accepted → record.deliveryAttempts < maxDeliveryAttempts)

/-- The check fails without a trace, and only for want of a record or attempts. -/
theorem markDispatching_cases (s : RelayCustodyStore) (env : Reading)
    (destination custodyId reason : String) :
    (s.MayDispatch destination custodyId ∧
      (s.markDispatching env destination custodyId reason).1 = .ok ()) ∨
    (¬ s.MayDispatch destination custodyId ∧
      ∃ e, s.markDispatching env destination custodyId reason = (.error e, s)) := by
  unfold markDispatching requireRecord
  cases hget : s.getMessage destination custodyId with
  | none =>
    refine .inr ⟨?_, _, rfl⟩
    rintro ⟨record, hrecord, _⟩
    cases hget.symm.trans hrecord
  | some record =>
    dsimp only
    by_cases hmoved : record.state = .dispatching ∨ record.state = .delivered
    · rw [if_pos hmoved]
      refine .inl ⟨⟨record, hget, fun haccepted => ?_⟩, rfl⟩
      rw [haccepted] at hmoved
      rcases hmoved with h | h
      all_goals cases h
    · rw [if_neg hmoved]
      by_cases hspent : record.deliveryAttempts ≥ maxDeliveryAttempts
      · rw [if_pos hspent]
        refine .inr ⟨?_, _, rfl⟩
        rintro ⟨found, hfound, hleft⟩
        cases hget.symm.trans hfound
        have haccepted : record.state = .accepted := by
          cases hstate : record.state with
          | accepted => rfl
          | dispatching => exact absurd (.inl hstate) hmoved
          | delivered => exact absurd (.inr hstate) hmoved
        exact absurd (hleft haccepted) (Nat.not_lt.mpr hspent)
      · rw [if_neg hspent]
        exact .inl ⟨⟨record, hget, fun _ => Nat.lt_of_not_le hspent⟩, rfl⟩

variable {s : RelayCustodyStore} {destination : String}

section
variable (env : Reading) {custodyId : String} (reason : String) {record : CustodyMessage}
  (hget : s.getMessage destination custodyId = some record)
include hget

theorem messages_markDispatching
    (hstate : record.state = .accepted) (hleft : record.deliveryAttempts < maxDeliveryAttempts) :
    let next := (s.markDispatching env destination custodyId reason).2
    next.messages = s.messages.insert record.key { record with
        state := .dispatching, updatedAtMs := env.now
        deliveryAttempts := record.deliveryAttempts + 1 } ∧
      next.registry.sequence = s.registry.sequence + 1 := by
  have hwaiting : ¬ (record.state = .dispatching ∨ record.state = .delivered) := by
    rw [hstate]
    exact nofun
  rw [markDispatching, requireRecord, hget]
  dsimp only
  rw [if_neg hwaiting, if_neg (Nat.not_le.mpr hleft)]
  exact ⟨rfl, rfl⟩

theorem messages_markDispatchFailed (hstate : record.state = .dispatching) :
    let next := (s.markDispatchFailed env destination custodyId reason).2
    next.messages = s.messages.insert record.key { record with
        state := .accepted, updatedAtMs := env.now } ∧
      next.registry.sequence = s.registry.sequence + 1 := by
  have hsent : ¬ (record.state = .accepted ∨ record.state = .delivered) := by
    rw [hstate]
    exact nofun
  rw [markDispatchFailed, requireRecord, hget]
  dsimp only
  rw [if_neg hsent]
  exact ⟨rfl, rfl⟩

end

/-- What a shortened queue leaves out comes after everything it shows. -/
theorem pendingLe_of_notMem_pending {limit : Nat} {shown r : CustodyMessage}
    (hshown : shown ∈ s.pendingForDestination destination limit)
    (hr : r ∈ s.scanPrefix (destinationPrefix destination)) (hstate : r.state = .accepted)
    (hnot : r ∉ s.pendingForDestination destination limit) : pendingLe shown r := by
  have htotal := pendingLe_total
  have htrans := pendingLe_trans
  unfold pendingForDestination at hshown hnot
  have hsorted := pairwise_insertionSort pendingLe
    ((s.scanPrefix (destinationPrefix destination)).filter fun record => record.state = .accepted)
  have hmem : r ∈ ((s.scanPrefix (destinationPrefix destination)).filter fun record =>
      record.state = .accepted).insertionSort pendingLe :=
    (mem_insertionSort pendingLe).mpr (mem_filter.mpr ⟨hr, decide_eq_true hstate⟩)
  rw [← take_append_drop limit (List.insertionSort _ _)] at hsorted hmem
  rcases mem_append.mp hmem with hfront | hback
  · exact absurd hfront hnot
  · exact (pairwise_append.mp hsorted).2.2 shown hshown r hback

theorem values_perm_of_insert {s' : RelayCustodyStore} {key : String} {r r' : CustodyMessage}
    (hstored : s.messages.lookup key = some r) (hinsert : s'.messages = s.messages.insert key r') :
    ∃ rest, s.values.Perm (r :: rest) ∧ s'.values = r' :: rest := by
  refine ⟨(s.messages.erase key).entries.map Sigma.snd, ?_, ?_⟩
  · exact (entries_perm_erase hstored).map fun entry : Sigma fun _ : String => CustodyMessage =>
      entry.2
  · rw [values, hinsert, AList.entries_insert]
    rfl

end RelayCustodyStore

end Scm.Store

namespace Scm.Transport

open List Bytes Collections Runs Store RelayCustodyStore

namespace RelayNode

variable {Peer : Type} (ids : PeerIds Peer) (crc : Bytes → UInt32)

theorem dispatchLoop_sends_iff (env : Reading) (peer : Peer) (reason : String)
    (records : List CustodyMessage) :
    ∀ n : RelayNode Peer, len n.pendingCustodyDispatches < relayMaxInflightDispatches →
      ((dispatchLoop ids crc env peer reason records n).2 ≠ [] ↔
        ∃ r ∈ records, n.custody.MayDispatch (ids.toText peer) r.custodyId) := by
  induction records with
  | nil =>
    intro n _
    refine iff_of_false (fun h => h rfl) ?_
    rintro ⟨r, hr, _⟩
    cases hr
  | cons record records ih =>
    intro n hroom
    unfold dispatchLoop
    rw [if_neg (Nat.not_le.mpr hroom)]
    rcases n.custody.markDispatching_cases env (ids.toText peer) record.custodyId reason with
      ⟨hmay, hok⟩ | ⟨hmay, e, hout⟩
    · -- the first record that passes is sent
      refine iff_of_true ?_ ⟨record, mem_cons_self, hmay⟩
      rcases hmark : n.custody.markDispatching env (ids.toText peer) record.custodyId reason with
        ⟨result, custody⟩
      rw [hmark] at hok
      rw [show result = .ok () from hok]
      exact cons_ne_nil _ _
    · -- a refused record changes nothing
      rw [hout]
      dsimp only
      refine (ih n hroom).trans ⟨?_, ?_⟩
      · grind
      · rintro ⟨r, hr, hr_may⟩
        rcases mem_cons.mp hr with rfl | hr
        · exact absurd hr_may hmay
        · exact ⟨r, hr, hr_may⟩

/-- A record of this peer waits and has attempts left. -/
def HasAttemptsLeft (n : RelayNode Peer) (peer : Peer) : Prop :=
  ∃ r ∈ n.custody.values, r.destinationPeerId = ids.toText peer ∧ r.state = .accepted ∧
    r.deliveryAttempts < maxDeliveryAttempts

/-- One of the 64 records a pull looks at passes the check. -/
def FrontMayDispatch (n : RelayNode Peer) (peer : Peer) : Prop :=
  ∃ r ∈ n.custody.pendingForDestination (ids.toText peer) 64,
    n.custody.MayDispatch (ids.toText peer) r.custodyId

/-- **When a pull keeps its promise.** With the peer connected and room in flight, a
waiting record with attempts left gets something sent exactly when one of the 64
oldest in the queue passes the check. -/
theorem dispatch_sends_iff [DecidableEq Peer] (env : Reading) (peer : Peer) (reason : String)
    (n : RelayNode Peer) (hconnected : peer ∈ n.connected)
    (hroom : len n.pendingCustodyDispatches < relayMaxInflightDispatches) :
    (HasAttemptsLeft ids n peer →
      (dispatchPendingCustodyForPeer ids crc env peer reason n).2 ≠ []) ↔
    (HasAttemptsLeft ids n peer → FrontMayDispatch ids n peer) := by
  have hsends : (dispatchPendingCustodyForPeer ids crc env peer reason n).2 ≠ [] ↔
      FrontMayDispatch ids n peer := by
    unfold dispatchPendingCustodyForPeer
    rw [if_neg (not_not_intro hconnected), if_neg (Nat.not_le.mpr hroom)]
    exact dispatchLoop_sends_iff ids crc env peer reason _ n hroom
  exact imp_congr_right fun _ => hsends

/-- A node with this store that has Bob as a peer and nothing in flight. -/
def nodeWithBob (custody : RelayCustodyStore) : RelayNode String :=
  { started custody with connected := ["bob"] }

/-- Peers that are their own text. -/
def textPeers : PeerIds String where
  toBytes peer := peer.toUTF8.data.toList
  fromBytes _ := none
  toText peer := peer

/-- With one message waiting, for a checksum that is always zero. -/
theorem dispatch_sends_oneMessage :
    let n := nodeWithBob (Runs.run (after plainPlatform) (empty none 0) firstAcceptance)
    ("bob" ∈ n.connected ∧ len n.pendingCustodyDispatches < relayMaxInflightDispatches) ∧
      ((HasAttemptsLeft textPeers n "bob" → (dispatchPendingCustodyForPeer textPeers (fun _ => 0)
          (idleReading 1) "bob" "peer_reconnect" n).2 ≠ []) ↔
        (HasAttemptsLeft textPeers n "bob" → FrontMayDispatch textPeers n "bob")) := by
  intro n
  have hconnected : "bob" ∈ n.connected := mem_cons_self
  have hroom : len n.pendingCustodyDispatches < relayMaxInflightDispatches := Nat.zero_lt_succ _
  exact ⟨⟨hconnected, hroom⟩, dispatch_sends_iff textPeers (fun _ => 0) (idleReading 1) "bob"
    "peer_reconnect" n hconnected hroom⟩

/-! ## A queue that is jammed -/

/-- Message `i`, accepted at time `i`, after so many attempts. -/
def jamRecord (i attempts : Nat) : CustodyMessage :=
  { acceptedMessage i (26 * i) "alice" "bob" (toString i) [] none none with
    deliveryAttempts := attempts }

/-- A message that is accepted. -/
def jamAccept (i : Nat) : CustodyCall :=
  .acceptCustody (idleReading i) "alice" "bob" (toString i) [] none none

/-- An attempt that fails. -/
def jamAttempt (i : Nat) : List CustodyCall :=
  [.markDispatching (idleReading i) "bob" (jamRecord i 0).custodyId "peer_reconnect",
    .markDispatchFailed (idleReading i) "bob" (jamRecord i 0).custodyId "peer_disconnected"]

/-- Acceptance and twelve failed attempts for each of the first `n` messages. -/
def jamCalls (n : Nat) : List CustodyCall :=
  (List.range n).flatMap fun i => jamAccept i :: (List.replicate 12 (jamAttempt i)).flatten

/-- The first `n` messages have used up their attempts. -/
structure Jammed (n : Nat) (s : RelayCustodyStore) : Prop where
  keyed : Keyed s
  sequence : s.registry.sequence = 26 * n
  values : s.values.Perm ((List.range n).map (jamRecord · 12))

/-- And message `n` has been tried so many times. -/
structure Jamming (n attempts : Nat) (s : RelayCustodyStore) : Prop where
  keyed : Keyed s
  sequence : s.registry.sequence = 26 * n + 2 + 2 * attempts
  values : s.values.Perm (jamRecord n attempts :: (List.range n).map (jamRecord · 12))

variable {n : Nat} {s : RelayCustodyStore}

theorem Jammed.exists_of_mem (h : Jammed n s) {r : CustodyMessage} (hr : r ∈ s.values) :
    ∃ i < n, r = jamRecord i 12 := by
  obtain ⟨i, hi, rfl⟩ := mem_map.mp (h.values.subset hr)
  exact ⟨i, mem_range.mp hi, rfl⟩

theorem serializedRecordBytes_jamRecord_le {i attempts : Nat} (hi : i ≤ 64) :
    serializedRecordBytes (jamRecord i attempts) ≤ 1000 :=
  serializedRecordBytes_number_le (by omega) (by omega) (by omega)

theorem Jammed.accept (h : Jammed n s) (hn : n ≤ 64) (P : Platform) :
    Jamming n 0 (s.call P (jamAccept n)) := by
  have hsequence := h.sequence
  have hbytes : s.currentScmStorageBytes ≤ 1000000000 := by
    rw [currentScmStorageBytes, (h.values.map serializedRecordBytes).sum_nat, map_map]
    have hsum := sum_le_card_nsmul ((List.range n).map
      (serializedRecordBytes ∘ (jamRecord · 12))) 1000 fun size hsize => by
        obtain ⟨i, hi, rfl⟩ := mem_map.mp hsize
        exact serializedRecordBytes_jamRecord_le (Nat.le_of_lt ((mem_range.mp hi).trans_le hn))
    rw [length_map, length_range] at hsum
    exact hsum.trans (show n * 1000 ≤ _ by omega)
  have hroom : (s.values.countP fun r => r.state = .accepted) < maxPendingPerDestination := by
    refine countP_le_length.trans_lt ?_
    rw [h.values.length_eq, length_map, length_range]
    exact hn.trans_lt (by decide)
  have hnumbered : ∀ r ∈ s.values, ∃ k < s.registry.sequence, Numbered r.custodyId k := by
    intro r hr
    obtain ⟨i, hi, rfl⟩ := h.exists_of_mem hr
    exact ⟨26 * i, by omega, toString i, i, rfl⟩
  have hnew : ∀ r ∈ s.values, r.relayMessageId ≠ toString n := by
    intro r hr hid
    obtain ⟨i, hi, rfl⟩ := h.exists_of_mem hr
    have heq : i = n := toString_inj hid
    omega
  obtain ⟨hkeyed, hnext, hvalues⟩ := acceptNew_idle P n h.keyed hbytes hroom hnumbered hnew
  rw [hsequence] at hnext hvalues
  refine ⟨hkeyed, hnext, ?_⟩
  rw [jamAccept, hvalues]
  exact h.values.cons _

theorem Jamming.attempt {attempts : Nat} (h : Jamming n attempts s) (hleft : attempts < 12)
    (P : Platform) :
    Jamming n (attempts + 1) (Runs.run (call P) s (jamAttempt n)) := by
  have hsequence := h.sequence
  have hstored : s.messages.lookup (jamRecord n attempts).key = some (jamRecord n attempts) :=
    h.keyed.lookup (h.values.symm.subset mem_cons_self)
  have hget : s.getMessage "bob" (jamRecord n 0).custodyId = some (jamRecord n attempts) := hstored
  -- the attempt puts the record back as it was, with one attempt more
  obtain ⟨hsent, hsequence₁⟩ :=
    messages_markDispatching (idleReading n) "peer_reconnect" hget rfl hleft
  generalize hnext : (s.markDispatching (idleReading n) "bob" (jamRecord n 0).custodyId
    "peer_reconnect").2 = next at hsent hsequence₁
  have hget' : next.getMessage "bob" (jamRecord n 0).custodyId
      = some { jamRecord n (attempts + 1) with state := .dispatching } := by
    rw [getMessage, hsent]
    exact AList.lookup_insert _
  obtain ⟨hback, hsequence₂⟩ :=
    messages_markDispatchFailed (idleReading n) "peer_disconnected" hget'
    rfl
  have hrun : Runs.run (call P) s (jamAttempt n) = (next.markDispatchFailed (idleReading n) "bob"
      (jamRecord n 0).custodyId "peer_disconnected").2 := by
    rw [← hnext]
    rfl
  have hmessages : (Runs.run (call P) s (jamAttempt n)).messages
      = s.messages.insert (jamRecord n attempts).key (jamRecord n (attempts + 1)) := by
    rw [hrun, hback, hsent]
    exact AList.insert_insert _
  obtain ⟨rest, hbefore, hafter⟩ := values_perm_of_insert hstored hmessages
  have hkeyed : ∀ s c, Keyed s → Keyed (s.call P c) := fun _ c hs => keyed_call P hs c
  refine ⟨run_invariant_always hkeyed (jamAttempt n) s h.keyed, ?_, ?_⟩
  · rw [hrun, hsequence₂]
    omega
  · rw [hafter]
    exact (hbefore.symm.trans h.values).cons_inv.cons _

theorem Jamming.attempts (h : Jamming n 0 s) (P : Platform) (k : Nat) (hk : k ≤ 12) :
    Jamming n k (Runs.run (call P) s (List.replicate k (jamAttempt n)).flatten) := by
  induction k with
  | zero => exact h
  | succ k ih =>
    rw [List.replicate_succ', flatten_append, flatten_singleton, run_append]
    exact (ih (Nat.le_of_succ_le hk)).attempt hk P

theorem jammed (P : Platform) (n : Nat) (hn : n ≤ 64) :
    Jammed n (Runs.run (call P) (empty none 0) (jamCalls n)) := by
  induction n with
  | zero => exact ⟨(regular_empty none 0).keyed, rfl, .nil⟩
  | succ n ih =>
    have hcalls : jamCalls (n + 1)
        = jamCalls n ++ jamAccept n :: (List.replicate 12 (jamAttempt n)).flatten := by
      rw [jamCalls, range_succ, flatMap_append, flatMap_singleton]
      rfl
    have hjamming := ((ih (Nat.le_of_succ_le hn)).accept (Nat.le_of_succ_le hn) P).attempts P 12
      (Nat.le_refl _)
    rw [hcalls, run_append, run_cons]
    refine ⟨hjamming.keyed, ?_, ?_⟩
    · rw [hjamming.sequence]
      omega
    · rw [range_succ, map_append]
      exact hjamming.values.trans (perm_append_singleton _ _).symm

/-- A jammed queue, and behind it one message more. -/
def jammedStore : RelayCustodyStore :=
  Runs.run (call plainPlatform) (empty none 0) (jamCalls 64 ++ [jamAccept 64])

theorem jamming_jammedStore : Jamming 64 0 jammedStore := by
  unfold jammedStore
  rw [run_append, run_cons, run_nil]
  exact (jammed plainPlatform 64 (Nat.le_refl _)).accept (Nat.le_refl _) plainPlatform

/-- The `n` oldest have no attempts left: the new message was accepted last, and there
is no room for it among the first `n`. -/
theorem Jamming.spent_of_mem_pending (h : Jamming n 0 s) {r : CustodyMessage}
    (hr : r ∈ s.pendingForDestination "bob" n) :
    ∃ i < n, r = jamRecord i 12 := by
  rcases mem_cons.mp (h.values.subset (mem_values_of_mem_pending hr)) with rfl | hold
  · -- then one of the `n` others is behind it
    have hnodup : (jamRecord n 0 :: (List.range n).map (jamRecord · 12)).Nodup :=
      h.values.nodup_iff.mp (List.Nodup.of_map CustodyMessage.key h.keyed.stocked.nodup)
    have hshort : (s.pendingForDestination "bob" n).length ≤ n := length_take_le _ _
    have hmissing : ∃ i < n, jamRecord i 12 ∉ s.pendingForDestination "bob" n := by
      by_contra hall
      have hsub : (jamRecord n 0 :: (List.range n).map (jamRecord · 12))
          ⊆ s.pendingForDestination "bob" n := by grind
      have hlength := (hnodup.subperm hsub).length_le
      rw [length_cons, length_map, length_range] at hlength
      omega
    obtain ⟨i, hi, hnot⟩ := hmissing
    have hstored : jamRecord i 12 ∈ s.values := h.values.symm.subset
      (mem_cons_of_mem _ (mem_map_of_mem (mem_range.mpr hi)))
    have hscan := h.keyed.mem_scanPrefix hstored
    rw [show (jamRecord i 12).destinationPeerId = "bob" from rfl] at hscan
    have hbehind := pendingLe_of_notMem_pending hr hscan rfl hnot
    have hlater : n ≤ i := hbehind.elim (fun hlt => Nat.le_of_lt hlt) fun heq => Nat.le_of_eq heq.1
    omega
  · grind

theorem Jamming.not_frontMayDispatch (h : Jamming 64 0 s) :
    ¬ FrontMayDispatch textPeers (nodeWithBob s) "bob" := by
  rintro ⟨r, hr, found, hfound, hleft⟩
  obtain ⟨i, _, rfl⟩ := h.spent_of_mem_pending hr
  -- what is found under the id is the spent record itself
  have hown : s.messages.lookup (jamRecord i 12).key = some (jamRecord i 12) :=
    h.keyed.lookup (mem_values_of_mem_pending hr)
  cases hown.symm.trans hfound
  exact absurd (hleft rfl) (Nat.lt_irrefl 12)

/-- Bob is there, a message waits that was never tried, and nothing is sent. -/
theorem exhausted_records_block_queue :
    "bob" ∈ (nodeWithBob jammedStore).connected ∧
      len (nodeWithBob jammedStore).pendingCustodyDispatches < relayMaxInflightDispatches ∧
      HasAttemptsLeft textPeers (nodeWithBob jammedStore) "bob" ∧
      ∀ crc env reason, (dispatchPendingCustodyForPeer textPeers crc env "bob" reason
        (nodeWithBob jammedStore)).2 = [] := by
  have h := jamming_jammedStore
  generalize jammedStore = s at h
  have hconnected : "bob" ∈ (nodeWithBob s).connected := mem_cons_self
  have hroom : len (nodeWithBob s).pendingCustodyDispatches < relayMaxInflightDispatches :=
    Nat.zero_lt_succ _
  refine ⟨hconnected, hroom, ⟨jamRecord 64 0, h.values.symm.subset mem_cons_self, rfl, rfl,
    Nat.zero_lt_succ _⟩, fun crc env reason => ?_⟩
  by_contra hsent
  unfold dispatchPendingCustodyForPeer at hsent
  rw [if_neg (not_not_intro hconnected), if_neg (Nat.not_le.mpr hroom)] at hsent
  exact h.not_frontMayDispatch
    ((dispatchLoop_sends_iff textPeers crc env "bob" reason _ (nodeWithBob s) hroom).mp hsent)

end RelayNode

end Scm.Transport
