import Scm.Store.CustodyPressure

/-!
# Destinations do not share records

A destination's records are found by the text their keys start with,
`relay_custody_msg_{destination}_`. Two destinations are kept apart by that text as
long as neither `d_` is the beginning of `e_` nor the other way round (`Apart`):
then no key of the one starts with the text of the other, whatever custody ids look
like (`Apart.not_prefix`). Peer ids, which contain no `_`, are always apart; the
store does not ask for that.

What a call that names `d` does, it does under keys that start with `d`'s text
(`SameOutside`), with one exception by design: an acceptance may purge records of
any destination to make room.
-/

namespace Scm.Store

open List Collections Runs

/-- Neither destination's text is the beginning of the other's. -/
structure Apart (d e : String) : Prop where
  left : ¬ (d ++ "_").toList <+: (e ++ "_").toList
  right : ¬ (e ++ "_").toList <+: (d ++ "_").toList

theorem toList_destinationPrefix (d : String) :
    (destinationPrefix d).toList = "relay_custody_msg_".toList ++ (d ++ "_").toList := by
  unfold destinationPrefix
  rw [String.append_assoc, String.toList_append]

theorem Apart.not_prefix {d e : String} (h : Apart d e) (custodyId : String) :
    ¬ (destinationPrefix d).toList <+: (messageKey e custodyId).toList := by
  intro hd
  have he : (destinationPrefix e).toList <+: (messageKey e custodyId).toList := by
    simp_all [messageKey]
  rw [toList_destinationPrefix] at hd he
  -- of two beginnings of one text the shorter is a beginning of the longer
  rcases prefix_or_prefix_of_prefix hd he with hde | hed
  · exact h.left ((prefix_append_right_inj _).mp hde)
  · exact h.right ((prefix_append_right_inj _).mp hed)

-- What happens otherwise: the scan for `a` finds the records of `a_b`.
example : (destinationPrefix "a").toList <+: (messageKey "a_b" "m-0-0").toList := by decide

theorem Apart.ne {d e : String} (h : Apart d e) : d ≠ e := by
  rintro rfl
  exact h.left (prefix_refl _)

namespace CustodyCall

/-- The destination a call names. -/
def destination : CustodyCall → Option String
  | acceptCustody _ _ d _ _ _ _ | markDispatching _ d _ _ | markDispatchFailed _ d _ _
  | markDelivered _ d _ _ | convergeDeliveredForMessage _ d _ _ => some d
  | _ => none

end CustodyCall

namespace RelayCustodyStore

/-! ## Calls that name a destination -/

/-- From `s` to `s'` nothing happened under keys without `d`'s text. -/
def SameOutside (d : String) (s s' : RelayCustodyStore) : Prop :=
  ∀ key, ¬ (destinationPrefix d).toList <+: key.toList →
    s'.messages.lookup key = s.messages.lookup key

theorem SameOutside.refl (d : String) (s : RelayCustodyStore) : SameOutside d s s :=
  fun _ _ => rfl

theorem ne_messageKey_of_not_starts {d key : String}
    (h : ¬ (destinationPrefix d).toList <+: key.toList) (custodyId : String) :
    key ≠ messageKey d custodyId := by
  rintro rfl
  exact h (prefix_messageKey d custodyId)

theorem sameOutside_remove (d custodyId : String) (s : RelayCustodyStore) (now : Nat)
    (r : CustodyMessage) (fromState : Option CustodyState) (toState : CustodyState)
    (reason : String) :
    SameOutside d s
      ((s.recordTransition now r fromState toState reason).removeMessage d custodyId) := by
  intro key hkey
  exact AList.lookup_erase_ne (ne_messageKey_of_not_starts hkey custodyId)

/-- A record that was looked up for `d` is rewritten under a key of `d`. -/
theorem sameOutside_put {s : RelayCustodyStore} (hkeyed : Keyed s) {d custodyId : String}
    {record moved : CustodyMessage} (hrecord : s.requireRecord d custodyId = .ok record)
    (hmoved : moved.key = record.key) (now : Nat) (fromState : Option CustodyState)
    (toState : CustodyState) (reason : String) :
    SameOutside d s ((s.putMessage moved).recordTransition now moved fromState toState reason) := by
  intro key hkey
  have hown : record.key = messageKey d custodyId :=
    (hkeyed _ _ (lookup_of_requireRecord hrecord)).symm
  rw [messages_recordTransition, messages_putMessage]
  refine AList.lookup_insert_ne ?_
  rw [hmoved, hown]
  exact ne_messageKey_of_not_starts hkey custodyId

section
variable (P : Platform) {s : RelayCustodyStore}

/-- Dispatches, deliveries and convergences stay under the keys of their destination. -/
theorem sameOutside_call (hkeyed : Keyed s) {c : CustodyCall} {d : String}
    (hd : c.destination = some d) (haccept : ¬ c.IsAcceptance) : SameOutside d s (s.call P c) := by
  cases c with
  | acceptCustody => exact absurd trivial haccept
  | markDispatching env destination custodyId reason =>
    cases hd
    show SameOutside d s (s.markDispatching env d custodyId reason).2
    unfold markDispatching
    split
    next => exact .refl d s
    next record hrecord =>
      repeat' split
      · exact .refl d s
      · exact .refl d s
      · exact sameOutside_put hkeyed hrecord (by rfl) _ _ _ reason
  | markDispatchFailed env destination custodyId reason =>
    cases hd
    show SameOutside d s (s.markDispatchFailed env d custodyId reason).2
    unfold markDispatchFailed
    split
    next => exact .refl d s
    next record hrecord =>
      split
      next => exact .refl d s
      exact sameOutside_put hkeyed hrecord (by rfl) _ _ _ reason
  | markDelivered env destination custodyId reason =>
    cases hd
    show SameOutside d s (s.markDelivered env d custodyId reason).2
    unfold markDelivered
    split
    next => exact .refl d s
    next record hrecord =>
      split
      next => exact .refl d s
      next => exact sameOutside_remove d custodyId s _ _ _ _ reason
  | convergeDeliveredForMessage env destination relayMessageId reason =>
    cases hd
    exact fun key hkey => lookup_convergeLoop env.now d reason _
      (fun _ _ => ne_messageKey_of_not_starts hkey _) 0 s
  | _ => cases hd

/-! ## Records of another destination -/

/-- The records of `e` are the same in `s` and `s'`. -/
def SameFor (e : String) (s s' : RelayCustodyStore) : Prop :=
  ∀ r, r.destinationPeerId = e → (r ∈ s'.values ↔ r ∈ s.values)

section
variable {d e : String} (hapart : Apart d e) {s s' : RelayCustodyStore}
include hapart

theorem SameOutside.sameFor (h : SameOutside d s s') (hs : Keyed s) (hs' : Keyed s') :
    SameFor e s s' := by
  intro r hr
  have hlookup : s'.messages.lookup r.key = s.messages.lookup r.key := by
    refine h r.key ?_
    rw [CustodyMessage.key, hr]
    exact hapart.not_prefix r.custodyId
  constructor
  · intro hmem
    have hown := hs'.lookup hmem
    rw [hlookup] at hown
    exact mem_values_of_lookup hown
  · intro hmem
    have hown := hs.lookup hmem
    rw [← hlookup] at hown
    exact mem_values_of_lookup hown

theorem ne_of_mem_scanPrefix (hkeyed : Keyed s) {r : CustodyMessage}
    (hr : r ∈ s.scanPrefix (destinationPrefix d)) : r.destinationPeerId ≠ e := by
  intro hdest
  obtain ⟨key, hkey, hstarts⟩ := mem_scanPrefix.mp hr
  rw [hkeyed key r hkey, CustodyMessage.key, hdest] at hstarts
  exact hapart.not_prefix r.custodyId hstarts

end

theorem mem_scanPrefix_of_mem_pending {d : String} {limit : Nat} {r : CustodyMessage}
    (h : r ∈ s.pendingForDestination d limit) : r ∈ s.scanPrefix (destinationPrefix d) := by
  have hsorted := mem_of_mem_take h
  rw [mem_insertionSort] at hsorted
  exact (mem_filter.mp hsorted).1

theorem keyed_call (h : Keyed s) (c : CustodyCall) : Keyed (s.call P c) := by
  rcases after_cases P h (.call c) with hwithin | ⟨env, source, destination, relayMessageId, data,
    identityId, deviceId, sequence, t, reason, _, _, _, _, hwithin, hafter⟩
  · exact hwithin.keyed h
  · show Keyed (s.after P (.call c))
    rw [hafter]
    exact (hwithin.keyed h).enter env.now _ reason

end

/-- An acceptance for `d`: what it returns is not of `e`; a record of `e` that is there
afterwards was there before, and one that is gone was purged. -/
theorem acceptCustody_isolated {d e : String} (hapart : Apart d e) (P : Platform)
    {s : RelayCustodyStore} (hkeyed : Keyed s) (env : Reading) (source relayMessageId : String)
    (data : Bytes) (identityId deviceId : Option String) :
    let out := s.acceptCustody P env source d relayMessageId data identityId deviceId
    (∀ r, out.1 = .ok r → r.destinationPeerId ≠ e) ∧
      (∀ r ∈ out.2.values, r.destinationPeerId = e → r ∈ s.values) ∧
      ∀ r ∈ s.values, r.destinationPeerId = e →
        r ∈ out.2.values ∨ ∃ t ∈ out.2.transitionsForCustody r.custodyId, IsPurgeOf r t := by
  intro out
  rcases acceptCustody_cases P env source d relayMessageId data identityId deviceId hkeyed with
    ⟨existing, hfound, hout⟩ | ⟨_, error, t, hshrinks, hout⟩ |
      ⟨_, _, sequence, t, reason, hshrinks, _, _, hout⟩
  · rw [show out = (.ok existing, s) from hout]
    refine ⟨?_, fun r hr _ => hr, fun r hr _ => .inl hr⟩
    intro r hr
    cases hr
    exact ne_of_mem_scanPrefix hapart hkeyed (List.mem_of_find?_eq_some hfound)
  · rw [show out = (.error error, t) from hout]
    refine ⟨nofun, fun r hr _ => ?_, fun r hr _ => ?_⟩
    · exact mem_values_of_lookup
        (hshrinks.lookup_of_lookup ((hshrinks.within.keyed hkeyed).lookup hr))
    · exact (hshrinks.kept_or_noted (hkeyed.lookup hr)).imp mem_values_of_lookup
        Noted.mem_transitions_of_isPurgeOf
  · generalize hmessage :
      s.candidate P env sequence source d relayMessageId data identityId deviceId
      = message at hout
    have hdest : message.destinationPeerId = d := by
      rw [← hmessage]
      rfl
    rw [show out = (.ok message, t.enter env.now message reason) from hout]
    have ht := hshrinks.within.keyed hkeyed
    refine ⟨?_, fun r hr hre => ?_, fun r hr hre => ?_⟩
    · intro r hr
      cases hr
      exact hdest ▸ hapart.ne
    · rcases mem_values_enter hr with rfl | hold
      · exact absurd (hdest.symm.trans hre) hapart.ne
      · exact mem_values_of_lookup (hshrinks.lookup_of_lookup (ht.lookup hold))
    · rcases hshrinks.kept_or_noted (hkeyed.lookup hr) with hkept | hnoted
      · -- the new record lies under a key of `d`
        have hkey : r.key ≠ messageKey message.destinationPeerId message.custodyId := by
          rw [hdest]
          refine ne_messageKey_of_not_starts ?_ message.custodyId
          rw [CustodyMessage.key, hre]
          exact hapart.not_prefix r.custodyId
        have hlookup : (t.messages.insert (messageKey message.destinationPeerId message.custodyId)
            message).lookup r.key = some r := (AList.lookup_insert_ne hkey).trans hkept
        exact .inl (mem_values_of_lookup hlookup)
      · have hput : Noted (IsPurgeOf r) (t.putMessage message) :=
          hnoted.of_transitions_eq rfl (Nat.le_refl _)
        exact .inr (Noted.mem_transitions_of_isPurgeOf (hput.recordTransition ..))

/-- **Isolation.** In every history from an empty store no destination has two records
for one relay message; and for destinations that are apart, calls that name one of
them leave the other's records alone, except that an acceptance may purge some, and
notes it, and return none of them. -/
theorem custody_isolation (P : Platform) (localIdentity : Option String) (sequence : Nat)
    (events : List Event) {d e : String} (hapart : Apart d e) :
    let s := run (after P) (empty localIdentity sequence) events
    (∀ r ∈ s.values, ∀ r' ∈ s.values, r.destinationPeerId = r'.destinationPeerId →
      r.relayMessageId = r'.relayMessageId → r = r') ∧
    (∀ limit, ∀ r ∈ s.pendingForDestination d limit, r.destinationPeerId ≠ e) ∧
    (∀ c : CustodyCall, c.destination = some d → ¬ c.IsAcceptance → SameFor e s (s.call P c)) ∧
    ∀ env source relayMessageId data identityId deviceId,
      let out := s.acceptCustody P env source d relayMessageId data identityId deviceId
      (∀ r, out.1 = .ok r → r.destinationPeerId ≠ e) ∧
        (∀ r ∈ out.2.values, r.destinationPeerId = e → r ∈ s.values) ∧
        ∀ r ∈ s.values, r.destinationPeerId = e →
          r ∈ out.2.values ∨ ∃ t ∈ out.2.transitionsForCustody r.custodyId, IsPurgeOf r t := by
  intro s
  have hregular : Regular s := regular_run P (regular_empty localIdentity sequence) events
  refine ⟨hregular.unique, ?_, ?_, ?_⟩
  · intro limit r hr
    exact ne_of_mem_scanPrefix hapart hregular.keyed (mem_scanPrefix_of_mem_pending hr)
  · intro c hd haccept
    exact (sameOutside_call P hregular.keyed hd haccept).sameFor hapart hregular.keyed
      (keyed_call P hregular.keyed c)
  · intro env source relayMessageId data identityId deviceId
    exact acceptCustody_isolated hapart P hregular.keyed env source relayMessageId data identityId
      deviceId

/-- A store that holds one message, for Carol. -/
def carolsMessage : List Event :=
  [.call (.acceptCustody (idleReading 1000) "alice" "carol" "m1" [1] none none)]

/-- Bob and Carol are apart, and Carol's message is not in Bob's queue. -/
theorem custody_isolation_bob_carol :
    Apart "bob" "carol" ∧
      ∀ limit, ∀ r ∈ (run (after plainPlatform) (empty none 0) carolsMessage).pendingForDestination
        "bob" limit, r.destinationPeerId ≠ "carol" := by
  have hapart : Apart "bob" "carol" := ⟨by decide, by decide⟩
  exact ⟨hapart, (custody_isolation plainPlatform none 0 carolsMessage hapart).2.1⟩

/-- An acceptance for Bob on a disk of 300 bytes makes room by purging Carol's message. -/
theorem acceptance_purges_other_destination :
    let s := run (after plainPlatform) (empty none 0) carolsMessage
    let out := s.acceptCustody plainPlatform (diskReading 2000 300 88) "alice" "bob" "m2" [2] none
      none
    s.values.map (fun r => (r.destinationPeerId, r.custodyId)) = [("carol", "m1-1000-0")] ∧
      out.1.map CustodyMessage.custodyId = .ok "m2-2000-2" ∧
      out.2.values.map (fun r => (r.destinationPeerId, r.custodyId)) = [("bob", "m2-2000-2")] := by
  decide +kernel

end RelayCustodyStore

end Scm.Store
