import Scm.Store.CustodyPressure
import Mathlib.Data.Nat.Digits.Defs

/-!
# The size of a custody queue

`accept_custody` refuses a message when its destination has 10,000 records waiting.
The records it counts are the `Accepted` ones of `pending_for_destination`, and a
record that is being dispatched is not among them (`undelivered_le_of_run`,
`queue_over_bound`).
-/

namespace Scm.Store

open List Collections Runs

namespace RelayCustodyStore

/-! ## The size of a queue -/

/-- The undelivered records of a destination, `Accepted` or `Dispatching`. -/
def undeliveredFor (s : RelayCustodyStore) (destination : String) : Nat :=
  (s.values.filter fun r => r.destinationPeerId = destination ∧ r.state ≠ .delivered).length

theorem undeliveredFor_eq (s : RelayCustodyStore) (destination : String) :
    s.undeliveredFor destination = countValues s.messages fun r =>
      r.destinationPeerId = destination ∧ r.state ≠ .delivered := by
  rw [undeliveredFor, ← countP_eq_length_filter, values, countP_map]
  rfl

theorem Within.undeliveredFor_le {s s' : RelayCustodyStore} (h : Within s s') (hs : Regular s)
    (destination : String) : s'.undeliveredFor destination ≤ s.undeliveredFor destination := by
  rw [undeliveredFor_eq, undeliveredFor_eq]
  refine countValues_le fun key r' hr' htest => ?_
  obtain ⟨r, hr, hsame, _⟩ := h.origin key r' hr'
  have hdest : r'.destinationPeerId = destination := (of_decide_eq_true htest).1
  exact ⟨r, hr, decide_eq_true ⟨hsame.destinationPeerId.symm.trans hdest,
    hs.undelivered r (mem_values_of_lookup hr)⟩⟩

theorem undeliveredFor_enter_le (t : RelayCustodyStore) (now : Nat) (message : CustodyMessage)
    (reason destination : String) :
    (t.enter now message reason).undeliveredFor destination
      ≤ t.undeliveredFor destination
        + if message.destinationPeerId = destination then 1 else 0 := by
  rw [undeliveredFor_eq, undeliveredFor_eq]
  refine (countValues_insert_le t.messages message.key message _).trans ?_
  refine Nat.add_le_add_left ?_ _
  by_cases hdest : message.destinationPeerId = destination
  · grind
  · rw [if_neg hdest, if_neg fun htest => hdest (of_decide_eq_true htest).1]

/-- When a message is new, nothing else refuses it and the check of `accept_custody` finds room
in the queue, then the destination really has fewer than 10,000 undelivered records. -/
def RoomIsReal (P : Platform) (s : RelayCustodyStore) : Event → Prop
  | .call (.acceptCustody env source destination relayMessageId data identityId deviceId) =>
    s.findExisting destination relayMessageId = none →
    (∃ message, (s.acceptCustody P env source destination relayMessageId data identityId
      deviceId).1 = .ok message) →
    (s.pendingForDestination destination usizeMax).length < maxPendingPerDestination →
      s.undeliveredFor destination < maxPendingPerDestination
  | _ => True

structure Bounded (s : RelayCustodyStore) : Prop where
  regular : Regular s
  le : ∀ destination, s.undeliveredFor destination ≤ maxPendingPerDestination

theorem Bounded.after {s : RelayCustodyStore} (h : Bounded s) (P : Platform) (e : Event)
    (hroom : RoomIsReal P s e) : Bounded (s.after P e) := by
  refine ⟨h.regular.after P e, fun destination => ?_⟩
  rcases after_cases P h.regular.keyed e with hwithin | ⟨env, source, dest, relayMessageId, data,
    identityId, deviceId, sequence, t, reason, rfl, hnone, hok, hpending, hwithin, hafter⟩
  · exact (hwithin.undeliveredFor_le h.regular destination).trans (h.le destination)
  · rw [hafter]
    refine (undeliveredFor_enter_le t _ _ _ _).trans ?_
    have hless := hwithin.undeliveredFor_le h.regular destination
    by_cases hdest : dest = destination
    · have hreal : s.undeliveredFor dest < maxPendingPerDestination := hroom hnone hok hpending
      rw [if_pos (show (s.candidate P env sequence source dest relayMessageId data identityId
        deviceId).destinationPeerId = destination from hdest)]
      rw [hdest] at hreal
      omega
    · rw [if_neg (show ¬ (s.candidate P env sequence source dest relayMessageId data identityId
        deviceId).destinationPeerId = destination from hdest)]
      exact hless.trans (h.le destination)

/-- **The bound on a queue.** In every history from an empty store whose acceptances
all find real room, no destination ever has more than 10,000 undelivered records. -/
theorem undelivered_le_of_run (P : Platform) (localIdentity : Option String) (sequence : Nat)
    (events : List Event)
    (hroom : Along (after P) (RoomIsReal P) (empty localIdentity sequence) events)
    (destination : String) :
    (run (after P) (empty localIdentity sequence) events).undeliveredFor destination
      ≤ maxPendingPerDestination := by
  have hstart : Bounded (empty localIdentity sequence) :=
    ⟨regular_empty localIdentity sequence, fun _ => Nat.zero_le _⟩
  have hbounded : Bounded (run (after P) (empty localIdentity sequence) events) :=
    run_invariant (fun _ e hs hok => hs.after P e hok) events _ hstart hroom
  exact hbounded.le destination

/-- The first acceptance of a store. -/
def firstAcceptance : List Event :=
  [.call (.acceptCustody (idleReading 0) "alice" "bob" "m" [1] none none)]

/-- It finds real room, and stays within the bound. -/
theorem undelivered_le_first :
    Along (after plainPlatform) (RoomIsReal plainPlatform) (empty none 0) firstAcceptance ∧
      (run (after plainPlatform) (empty none 0) firstAcceptance).undeliveredFor "bob"
        ≤ maxPendingPerDestination := by
  have hroom : Along (after plainPlatform) (RoomIsReal plainPlatform) (empty none 0)
      firstAcceptance := ⟨fun _ _ _ => show 0 < 10000 by omega, trivial⟩
  exact ⟨hroom, undelivered_le_of_run plainPlatform none 0 firstAcceptance hroom "bob"⟩

/-! ## A queue over its bound

One record is sent on and stays `Dispatching`; ten thousand more are accepted behind
it. -/

theorem utf8ByteSize_ofList_le (cs : List Char) :
    (String.ofList cs).utf8ByteSize ≤ 4 * cs.length := by
  induction cs with
  | nil => exact Nat.le_refl _
  | cons c cs ih =>
    rw [String.utf8ByteSize_ofList] at ih ⊢
    have hc : c.utf8Size ≤ 4 := c.utf8Size_le_four
    rw [String.utf8Len_cons, length_cons]
    omega

theorem utf8ByteSize_toString_le {n digits : Nat} (hdigits : 0 < digits) (hn : n < 10 ^ digits) :
    (toString n).utf8ByteSize ≤ 4 * digits := by
  have hlength : (Nat.toDigits 10 n).length ≤ digits := Nat.toDigits_length 10 n digits hdigits hn
  have hsize := utf8ByteSize_ofList_le (Nat.toDigits 10 n)
  rw [Nat.toString_eq_repr, Nat.repr]
  omega

/-- The call that accepts message number `i` for Bob. -/
def acceptNumber (i : Nat) : Event :=
  .call (.acceptCustody (idleReading 0) "alice" "bob" (toString i) [] none none)

/-- Message 0 is accepted and sent on, then come the others. -/
def floodEvents (n : Nat) : List Event :=
  acceptNumber 0 :: .call (.markDispatching (idleReading 0) "bob" "0-0-0" "peer_reconnect") ::
    (List.range n).map fun i => acceptNumber (i + 1)

/-- After the first `n` of the others. -/
structure Flooded (n : Nat) (s : RelayCustodyStore) : Prop where
  keyed : Keyed s
  sequence : s.registry.sequence = 2 * n + 3
  length : s.values.length = n + 1
  pending : (s.values.countP fun r => r.state = .accepted) ≤ n
  bytes : s.currentScmStorageBytes ≤ 1000 * (n + 1)
  bob : ∀ r ∈ s.values, r.destinationPeerId = "bob" ∧ r.state ≠ .delivered
  known : ∀ r ∈ s.values, ∃ i ≤ n, r.relayMessageId = toString i
  numbered : ∀ r ∈ s.values, ∃ k < s.registry.sequence, Numbered r.custodyId k

theorem flooded_zero :
    Flooded 0 (run (after plainPlatform) (empty none 0) (floodEvents 0)) where
  keyed := (regular_run plainPlatform (regular_empty none 0) _).keyed
  sequence := by decide +kernel
  length := by decide +kernel
  pending := by decide +kernel
  bytes := by decide +kernel
  bob := by decide +kernel
  known := fun r hr => ⟨0, Nat.le_refl 0, by
    revert r hr
    decide +kernel⟩
  numbered := fun r hr => ⟨0, by decide +kernel, "0", 0, by
    revert r hr
    decide +kernel⟩

/-- A message with a new id that comes to a store with room is put beside the others. -/
theorem acceptNew_idle (P : Platform) {s : RelayCustodyStore} {id : String} (now : Nat)
    (hkeyed : Keyed s) (hbytes : s.currentScmStorageBytes ≤ 1000000000)
    (hroom : (s.values.countP fun r => r.state = .accepted) < maxPendingPerDestination)
    (hnumbered : ∀ r ∈ s.values, ∃ k < s.registry.sequence, Numbered r.custodyId k)
    (hnew : ∀ r ∈ s.values, r.relayMessageId ≠ id) :
    let next := s.call P (.acceptCustody (idleReading now) "alice" "bob" id [] none none)
    Keyed next ∧ next.registry.sequence = s.registry.sequence + 2 ∧ next.values
      = acceptedMessage now s.registry.sequence "alice" "bob" id [] none none :: s.values := by
  have hnone : s.findExisting "bob" id = none := by
    refine List.find?_eq_none.mpr fun r hr hid => ?_
    obtain ⟨key, hkey, _⟩ := mem_scanPrefix.mp hr
    exact hnew r (mem_values_of_lookup hkey) (of_decide_eq_true hid)
  have hout := acceptCustody_idle P hbytes now "alice" [] hnone
    ((length_pending_le s "bob" usizeMax).trans_lt hroom)
  generalize hmessage : acceptedMessage now s.registry.sequence "alice" "bob" id [] none none
    = message at hout
  have hafter : s.call P (.acceptCustody (idleReading now) "alice" "bob" id [] none none)
      = s.drawSequence.enter now message "custody_accepted" := congrArg Prod.snd hout
  -- the number in the id is new
  have hfresh : s.messages.lookup message.key = none := by
    by_contra hsome
    obtain ⟨r, hr⟩ := Option.ne_none_iff_exists'.mp hsome
    obtain ⟨k, hk, hrk⟩ := hnumbered r (mem_values_of_lookup hr)
    have hid : Numbered message.custodyId s.registry.sequence := ⟨id, now, by rw [← hmessage]; rfl⟩
    have heq : s.registry.sequence = k := hid.of_messageKey_eq hrk (hkeyed _ r hr)
    omega
  have hinsert : (s.drawSequence.enter now message "custody_accepted").messages
      = s.messages.insert message.key message := rfl
  have hdrawn : Keyed s.drawSequence := hkeyed
  rw [hafter]
  refine ⟨hdrawn.enter now message _, rfl, ?_⟩
  rw [values, hinsert, AList.entries_insert_of_notMem (AList.lookup_eq_none.mp hfresh)]
  rfl

theorem serializedRecordBytes_number_le {i now sequence : Nat} (hi : i < 100000)
    (hnow : now < 100000) (hsequence : sequence < 100000) :
    serializedRecordBytes (acceptedMessage now sequence "alice" "bob" (toString i) [] none none)
      ≤ 1000 := by
  have hi' := utf8ByteSize_toString_le (n := i) (show 0 < 5 by omega) (by omega)
  have hnow' := utf8ByteSize_toString_le (n := now) (show 0 < 5 by omega) (by omega)
  have hsequence' := utf8ByteSize_toString_le (n := sequence) (show 0 < 5 by omega) (by omega)
  have hdash : "-".utf8ByteSize = 1 := by decide
  have halice : "alice".utf8ByteSize = 5 := by decide
  have hbob : "bob".utf8ByteSize = 3 := by decide
  simp only [serializedRecordBytes, acceptedMessage, formatCustodyId, stringBytes,
    optionStringBytes, String.utf8ByteSize_append, length_nil]
  omega

theorem Flooded.acceptNumber {n : Nat} {s : RelayCustodyStore} (h : Flooded n s)
    (hn : n < maxPendingPerDestination) :
    Flooded (n + 1) (s.after plainPlatform (acceptNumber (n + 1))) := by
  have hsequence := h.sequence
  have hlimit : maxPendingPerDestination = 10000 := rfl
  have hbytes := h.bytes
  have hnew : ∀ r ∈ s.values, r.relayMessageId ≠ toString (n + 1) := by
    intro r hr hid
    obtain ⟨i, hi, hri⟩ := h.known r hr
    have heq : i = n + 1 := toString_inj (hri.symm.trans hid)
    omega
  obtain ⟨hkeyed, hnext, hvalues⟩ := acceptNew_idle plainPlatform 0 h.keyed (by omega)
    (h.pending.trans_lt hn) h.numbered hnew
  have hsize : serializedRecordBytes (acceptedMessage 0 s.registry.sequence "alice" "bob"
      (toString (n + 1)) [] none none) ≤ 1000 :=
    serializedRecordBytes_number_le (by omega) (by omega) (by omega)
  generalize hmessage : acceptedMessage 0 s.registry.sequence "alice" "bob" (toString (n + 1)) []
    none none = message at hvalues hsize
  show Flooded (n + 1) (s.call plainPlatform (.acceptCustody (idleReading 0) "alice" "bob"
    (toString (n + 1)) [] none none))
  refine ⟨hkeyed, by omega, ?_, ?_, ?_, ?_, ?_, ?_⟩
  · rw [hvalues, length_cons, h.length]
  · rw [hvalues, countP_cons]
    have hpending := h.pending
    split
    all_goals omega
  · grind [currentScmStorageBytes]
  all_goals
    rw [hvalues]
    intro r hr
    rcases mem_cons.mp hr with rfl | hr
  · rw [← hmessage]
    exact ⟨rfl, fun hnone => by cases hnone⟩
  · exact h.bob r hr
  · exact ⟨n + 1, Nat.le_refl _, by rw [← hmessage]; rfl⟩
  · obtain ⟨i, hi, hri⟩ := h.known r hr
    exact ⟨i, by omega, hri⟩
  · exact ⟨s.registry.sequence, by omega, toString (n + 1), 0, by rw [← hmessage]; rfl⟩
  · obtain ⟨k, hk, hrk⟩ := h.numbered r hr
    exact ⟨k, by omega, hrk⟩

theorem flooded (n : Nat) (hn : n ≤ maxPendingPerDestination) :
    Flooded n (run (after plainPlatform) (empty none 0) (floodEvents n)) := by
  induction n with
  | zero => exact flooded_zero
  | succ n ih =>
    have hevents : floodEvents (n + 1) = floodEvents n ++ [acceptNumber (n + 1)] := by
      simp only [floodEvents, range_succ, map_append, map_cons, map_nil, cons_append]
    rw [hevents, run_append, run_cons, run_nil]
    exact (ih (Nat.le_of_succ_le hn)).acceptNumber hn

/-- Behind the record that is being dispatched the queue grows to its full length: 10,001
undelivered records for one destination. -/
theorem queue_over_bound :
    (run (after plainPlatform) (empty none 0) (floodEvents 10000)).undeliveredFor "bob"
      = maxPendingPerDestination + 1 := by
  have h := flooded 10000 (Nat.le_refl _)
  unfold undeliveredFor
  rw [filter_eq_self.mpr fun r hr => decide_eq_true (h.bob r hr), h.length]
  rfl

end RelayCustodyStore

end Scm.Store
