import Scm.Store.CustodyCalls

/-!
# What a custody call can do to the store

The calls differ in how they choose records, and agree in what they do to one: a
record is rewritten under its own key (`Moves`), purged, or delivered and removed,
each time with one entry in the audit log. `Shrink` and `Change` are those steps and
`acceptCustody_cases`, `changes_call` say that every call is a chain of them, with at
most one new record at the end. Whatever holds of the store in every history is
proved from these two, one step at a time.

One step does not follow the pattern. `converge_delivered_for_message` removes a
record under the destination the *call* names, which need not be the record's own
(see `CustodyIsolation`); that is `Change.cut`, and a chain says by its `Slack` how
much of that it admits.
-/

namespace Scm.Store

open List AList

/-- The key a record belongs under. -/
def CustodyMessage.key (r : CustodyMessage) : String := messageKey r.destinationPeerId r.custodyId

namespace RelayCustodyStore

section
variable (s : RelayCustodyStore) (now : Nat) (r : CustodyMessage) (fromState : Option CustodyState)

@[simp] theorem messages_recordTransition (toState : CustodyState) (reason : String) :
    (s.recordTransition now r fromState toState reason).messages = s.messages := rfl

@[simp] theorem messages_putMessage : (s.putMessage r).messages = s.messages.insert r.key r := rfl

@[simp] theorem messages_removeMessage (destination custodyId : String) :
    (s.removeMessage destination custodyId).messages
      = s.messages.erase (messageKey destination custodyId) := rfl

end

/-- Every record lies under its own key. -/
def Keyed (s : RelayCustodyStore) : Prop :=
  ∀ key r, s.messages.lookup key = some r → key = r.key

variable {r r' : CustodyMessage} {records : List CustodyMessage} {now : Nat}
  {s s' t : RelayCustodyStore} {slack : Slack}

theorem mem_values_iff_lookup :
    r ∈ s.values ↔ ∃ key, s.messages.lookup key = some r := by
  rw [mem_values]
  exact exists_congr fun key => mem_lookup_iff.symm

theorem Keyed.lookup (h : Keyed s) (hr : r ∈ s.values) : s.messages.lookup r.key = some r := by
  obtain ⟨key, hkey⟩ := mem_values_iff_lookup.mp hr
  rw [← h key r hkey]
  exact hkey

theorem Keyed.eq_of_key_eq {r' : CustodyMessage} (h : Keyed s) (hr : r ∈ s.values)
    (hr' : r' ∈ s.values) (hkey : r.key = r'.key) : r = r' := by
  have hlookup := h.lookup hr
  rw [hkey, h.lookup hr'] at hlookup
  exact (Option.some.inj hlookup).symm

theorem mem_values_of_lookup {key : String} (h : s.messages.lookup key = some r) : r ∈ s.values :=
  mem_values_iff_lookup.mpr ⟨key, h⟩

theorem lookup_of_requireRecord {destination custodyId : String}
    (h : s.requireRecord destination custodyId = .ok r) :
    s.messages.lookup (messageKey destination custodyId) = some r := by
  unfold requireRecord at h
  split at h
  next hget =>
    cases h
    exact hget
  next => cases h

/-! ## Lists of stored records -/

/-- Distinct stored records, each found under its own key. -/
structure Stocked (s : RelayCustodyStore) (records : List CustodyMessage) : Prop where
  lookup : ∀ r ∈ records, s.messages.lookup r.key = some r
  nodup : (records.map CustodyMessage.key).Nodup

theorem Keyed.stocked (h : Keyed s) : Stocked s s.values := by
  refine ⟨fun r hr => h.lookup hr, ?_⟩
  have hkeys : s.values.map CustodyMessage.key = s.messages.entries.map Sigma.fst := by
    rw [values, map_map]
    refine map_congr_left fun entry hentry => ?_
    exact (h entry.1 entry.2 (mem_lookup_iff.mpr hentry)).symm
  rw [hkeys]
  exact s.messages.nodupKeys

theorem Stocked.sublist {fewer : List CustodyMessage} (h : Stocked s records)
    (hsub : fewer.Sublist records) : Stocked s fewer :=
  ⟨fun r hr => h.lookup r (hsub.subset hr), h.nodup.sublist (hsub.map _)⟩

theorem Stocked.perm {others : List CustodyMessage} (h : Stocked s records)
    (hperm : others.Perm records) : Stocked s others :=
  ⟨fun r hr => h.lookup r (hperm.subset hr), (hperm.map _).nodup_iff.mpr h.nodup⟩

/-- The rest of the list is not touched by what happens under the first key. -/
theorem Stocked.tail (h : Stocked s (r :: records))
    (hframe : ∀ key, key ≠ r.key → s'.messages.lookup key = s.messages.lookup key) :
    Stocked s' records := by
  obtain ⟨hfirst, hrest⟩ := nodup_cons.mp h.nodup
  refine ⟨fun other hother => ?_, hrest⟩
  rw [hframe other.key fun heq => hfirst (heq ▸ mem_map_of_mem hother)]
  exact h.lookup other (mem_cons_of_mem r hother)

/-! ## The steps -/

/-- A record rewritten under its own key. -/
inductive Moves (now : Nat) (r : CustodyMessage) : CustodyMessage → Prop where
  | dispatch (hstate : r.state = .accepted) (hleft : r.deliveryAttempts < maxDeliveryAttempts) :
      Moves now r { r with
        state := .dispatching, updatedAtMs := now, deliveryAttempts := r.deliveryAttempts + 1 }
  | fail (hstate : r.state = .dispatching) :
      Moves now r { r with state := .accepted, updatedAtMs := now }
  | migrate (hstate : r.state ≠ .delivered) (device : String) :
      Moves now r { r with intendedDeviceId := some device, updatedAtMs := now }

/-- Nothing happens to the records and their log, or a record is purged. -/
inductive Shrink (now : Nat) (s : RelayCustodyStore) : RelayCustodyStore → Prop where
  | quiet {s' : RelayCustodyStore} (hmessages : s'.messages = s.messages)
      (htransitions : s'.transitions = s.transitions)
      (hsequence : s.registry.sequence ≤ s'.registry.sequence) : Shrink now s s'
  | purge {r : CustodyMessage} (reason : String) (hstored : s.messages.lookup r.key = some r) :
      Shrink now s ((s.recordTransition now r (some r.state) r.state
        (reason ++ "_purged")).removeMessage r.destinationPeerId r.custodyId)

/-- Whether a chain may contain steps that note a delivery and remove nothing under
the record's own key: none, only such as remove nothing at all, or any. -/
inductive Slack where
  | strict
  | tidy
  | loose

/-- `found` is what lies under the key that the step removes. -/
def Slack.Permits (s : RelayCustodyStore) (r : CustodyMessage) (found : Option CustodyMessage) :
    Slack → Prop
  | .strict => False
  | .tidy => found = none ∧ r ∈ s.values
  | .loose => True

/-- What a call does to a store, apart from admitting a record. -/
inductive Change (now : Nat) (slack : Slack) (s : RelayCustodyStore) :
    RelayCustodyStore → Prop where
  | shrink {s' : RelayCustodyStore} (h : Shrink now s s') : Change now slack s s'
  | move {r r' : CustodyMessage} (reason : String) (hstored : s.messages.lookup r.key = some r)
      (hmoves : Moves now r r') :
      Change now slack s
        ((s.putMessage r').recordTransition now r' (some r.state) r'.state reason)
  | deliver {r : CustodyMessage} (destination custodyId reason : String)
      (hstored : s.messages.lookup (messageKey destination custodyId) = some r)
      (hstate : r.state ≠ .delivered) :
      Change now slack s
        ((s.recordTransition now { r with state := .delivered, updatedAtMs := now } (some r.state)
          .delivered reason).removeMessage destination custodyId)
  | cut {r : CustodyMessage} (destination reason : String)
      (hslack : slack.Permits s r (s.messages.lookup (messageKey destination r.custodyId))) :
      Change now slack s
        ((s.recordTransition now { r with state := .delivered, updatedAtMs := now } (some r.state)
          .delivered reason).removeMessage destination r.custodyId)

/-- Chains of steps within one call. -/
abbrev Shrinks (now : Nat) : RelayCustodyStore → RelayCustodyStore → Prop :=
  Relation.ReflTransGen (Shrink now)

abbrev Changes (now : Nat) (slack : Slack) :
    RelayCustodyStore → RelayCustodyStore → Prop :=
  Relation.ReflTransGen (Change now slack)

theorem Shrinks.changes (h : Shrinks now s s') : Changes now slack s s' :=
  Relation.ReflTransGen.mono (fun _ _ => .shrink) _ _ h

theorem Shrinks.quiet (hmessages : s'.messages = s.messages)
    (htransitions : s'.transitions = s.transitions)
    (hsequence : s.registry.sequence ≤ s'.registry.sequence) : Shrinks now s s' :=
  .single (.quiet hmessages htransitions hsequence)

/-- What a move never touches. -/
structure Same (r r' : CustodyMessage) : Prop where
  custodyId : r'.custodyId = r.custodyId
  relayMessageId : r'.relayMessageId = r.relayMessageId
  destinationPeerId : r'.destinationPeerId = r.destinationPeerId
  envelopeData : r'.envelopeData = r.envelopeData

theorem Same.refl (r : CustodyMessage) : Same r r := ⟨rfl, rfl, rfl, rfl⟩

theorem Same.trans {a b c : CustodyMessage} (hab : Same a b) (hbc : Same b c) : Same a c :=
  ⟨hbc.custodyId.trans hab.custodyId, hbc.relayMessageId.trans hab.relayMessageId,
    hbc.destinationPeerId.trans hab.destinationPeerId, hbc.envelopeData.trans hab.envelopeData⟩

theorem Same.key (h : Same r r') : r'.key = r.key := by
  rw [CustodyMessage.key, CustodyMessage.key, h.custodyId, h.destinationPeerId]

theorem Moves.same (h : Moves now r r') : Same r r' := by
  cases h
  all_goals exact ⟨rfl, rfl, rfl, rfl⟩

theorem Moves.not_delivered (h : Moves now r r') :
    r.state ≠ .delivered ∧ r'.state ≠ .delivered := by
  cases h with
  | dispatch hstate => exact ⟨by rw [hstate]; exact nofun, nofun⟩
  | fail hstate => exact ⟨by rw [hstate]; exact nofun, nofun⟩
  | migrate hstate => exact ⟨hstate, hstate⟩

/-- From `s` to `s'` no key was added, and what a key holds is still the same
message, not turned into a delivered one. -/
structure Within (s s' : RelayCustodyStore) : Prop where
  origin : ∀ key r', s'.messages.lookup key = some r' →
    ∃ r, s.messages.lookup key = some r ∧ Same r r' ∧ (r'.state = .delivered → r.state = .delivered)

theorem Within.refl (s : RelayCustodyStore) : Within s s :=
  ⟨fun _ r hr => ⟨r, hr, .refl r, id⟩⟩

theorem Within.trans {u : RelayCustodyStore} (hst : Within s t) (htu : Within t u) :
    Within s u := by
  refine ⟨fun key r hr => ?_⟩
  obtain ⟨r₁, hr₁, hsame₁, hstate₁⟩ := htu.origin key r hr
  obtain ⟨r₀, hr₀, hsame₀, hstate₀⟩ := hst.origin key r₁ hr₁
  exact ⟨r₀, hr₀, hsame₀.trans hsame₁, hstate₀ ∘ hstate₁⟩

theorem Within.keyed (h : Within s s') (hs : Keyed s) : Keyed s' := by
  intro key r' hr'
  obtain ⟨r, hr, hsame, _⟩ := h.origin key r' hr'
  rw [hsame.key]
  exact hs key r hr

theorem Within.of_erase {key : String} (h : s'.messages = s.messages.erase key) : Within s s' := by
  refine ⟨fun other r hr => ?_⟩
  rw [h] at hr
  by_cases hkey : other = key
  · rw [hkey, lookup_erase] at hr
    cases hr
  · rw [lookup_erase_ne hkey] at hr
    exact ⟨r, hr, .refl r, id⟩

theorem Within.of_messages_eq (h : s'.messages = s.messages) :
    Within s s' := by
  refine ⟨fun key r hr => ⟨r, ?_, .refl r, id⟩⟩
  rwa [h] at hr

theorem Shrink.within (h : Shrink now s s') :
    Within s s' := by
  cases h with
  | quiet hmessages => exact .of_messages_eq hmessages
  | purge => exact .of_erase rfl

theorem Change.within (h : Change now slack s s') : Within s s' := by
  cases h with
  | shrink h => exact h.within
  | @move r r' reason hstored hmoves =>
    have hstep : ∀ key, (s.messages.insert r'.key r').lookup key
        = if key = r.key then some r' else s.messages.lookup key := by
      intro key
      rw [hmoves.same.key]
      split
      next heq => rw [heq, lookup_insert]
      next hne => rw [lookup_insert_ne hne]
    refine ⟨fun key m hm => ?_⟩
    rw [messages_recordTransition, messages_putMessage, hstep] at hm
    split at hm
    next heq =>
      cases hm
      exact ⟨r, heq ▸ hstored, hmoves.same, fun h => absurd h hmoves.not_delivered.2⟩
    next => exact ⟨m, hm, .refl m, id⟩
  | deliver => exact .of_erase rfl
  | cut => exact .of_erase rfl

theorem Changes.within (h : Changes now slack s s') : Within s s' := by
  induction h with
  | refl => exact .refl s
  | tail _ hstep ih => exact ih.trans hstep.within

theorem Shrinks.within (h : Shrinks now s s') :
    Within s s' := by
  have hchanges : Changes now .strict s s' := h.changes
  exact hchanges.within

/-! ## Purges -/

theorem shrinks_purgeLoop (now : Nat) (reason : String) (candidates : List StoredCustodyRecord) :
    ∀ (required records bytes : Nat) (s : RelayCustodyStore),
      Stocked s (candidates.map StoredCustodyRecord.record) →
      Shrinks now s (purgeLoop now reason candidates required records bytes s).2 := by
  induction candidates with
  | nil => exact fun _ _ _ _ _ => .refl
  | cons candidate candidates ih =>
    intro required records bytes s hstocked
    unfold purgeLoop
    split
    next => exact .refl
    refine .head (.purge reason (hstocked.lookup _ mem_cons_self)) (ih _ _ _ _ ?_)
    exact hstocked.tail fun key hkey => lookup_erase_ne hkey

theorem Keyed.stocked_candidates (h : Keyed s) :
    Stocked s ((s.loadStoredRecords.insertionSort s.purgeLe).map StoredCustodyRecord.record) := by
  refine h.stocked.perm ?_
  have hload : s.loadStoredRecords.map StoredCustodyRecord.record = s.values := by
    rw [loadStoredRecords, map_map]
    exact map_id _
  exact hload ▸ (perm_insertionSort s.purgeLe s.loadStoredRecords).map _

theorem shrinks_purgeOldestByPolicy (h : Keyed s) (now required : Nat) (reason : String) :
    Shrinks now s (s.purgeOldestByPolicy now required reason).2 := by
  unfold purgeOldestByPolicy
  split
  next => exact .refl
  next => exact shrinks_purgeLoop now reason _ _ _ _ s h.stocked_candidates

theorem Shrinks.purge (hs : Keyed s) (h : Shrinks now s t) (required : Nat) (reason : String) :
    Shrinks now s (t.purgeOldestByPolicy now required reason).2 :=
  h.trans (shrinks_purgeOldestByPolicy (h.within.keyed hs) now required reason)

theorem shrinks_enforceStoragePressureInternal (h : Keyed s) (env : Reading)
    (incoming : Option CustodyMessage) :
    Shrinks env.now s (s.enforceStoragePressureInternal env incoming).2 :=
  enforceStoragePressureInternal_keeps (fun _ _ _ ht => ht.purge h _ _) .refl incoming

theorem shrinks_enforceStoragePressureForWrite (h : Keyed s) (env : Reading)
    (incoming : CustodyMessage) :
    Shrinks env.now s (s.enforceStoragePressureForWrite env incoming).2 :=
  enforceStoragePressureForWrite_keeps (fun _ _ _ ht => ht.purge h _ _) .refl incoming

theorem Shrinks.sequence_le (h : Shrinks now s s') :
    s.registry.sequence ≤ s'.registry.sequence := by
  induction h with
  | refl => exact Nat.le_refl _
  | tail _ hstep ih =>
    refine Nat.le_trans ih ?_
    cases hstep with
    | quiet _ _ hsequence => exact hsequence
    | purge => exact Nat.le_succ _

/-! ## The calls -/

theorem shrinks_of_registry {registry : RelayRegistry} (h : s.registry.sequence ≤ registry.sequence)
    : Shrinks now s { s with registry } :=
  .quiet rfl rfl h

theorem shrinks_checkDevice (P : Platform) (s : RelayCustodyStore) (now : Nat)
    (identityId deviceId : Option String) :
    Shrinks now s (s.checkDevice P now identityId deviceId).2 := by
  unfold checkDevice
  split
  next => exact .refl
  next identityId deviceId =>
    have hsequence := s.registry.sequence_le_enforceCustody P now identityId deviceId
    split
    next heq =>
      rw [heq] at hsequence
      exact .quiet rfl rfl hsequence
    next heq =>
      rw [heq] at hsequence
      exact .quiet rfl rfl hsequence
  next => exact .quiet rfl rfl (Nat.le_refl _)

theorem messages_of_checkDevice {P : Platform} {identityId deviceId : Option String}
    {result : Except String String} (h : s.checkDevice P now identityId deviceId = (result, t)) :
    t.messages = s.messages := by
  unfold checkDevice at h
  repeat' split at h
  all_goals
    cases h
    rfl

/-- The record `accept_custody` would write for these arguments, under the number
`sequence`. -/
def candidate (P : Platform) (s : RelayCustodyStore) (env : Reading) (sequence : Nat)
    (source destination relayMessageId : String) (envelopeData : Bytes)
    (identityId deviceId : Option String) : CustodyMessage :=
  acceptedMessage env.now sequence source destination relayMessageId envelopeData
    (identityId.bind (s.registry.normalizeLookupIdentity P))
    ((deviceId.map P.trim).filter fun value => !value.isEmpty)

/-- A new record and its first audit entry. -/
def enter (t : RelayCustodyStore) (now : Nat) (message : CustodyMessage) (reason : String) :
    RelayCustodyStore :=
  (t.putMessage message).recordTransition now message none .accepted reason

theorem mem_values_enter {message : CustodyMessage} {reason : String}
    (h : r ∈ (t.enter now message reason).values) : r = message ∨ r ∈ t.values :=
  mem_values_putMessage h

theorem Keyed.enter (h : Keyed t) (now : Nat) (message : CustodyMessage) (reason : String) :
    Keyed (t.enter now message reason) := by
  intro key r hr
  have hinsert : (t.messages.insert message.key message).lookup key = some r := hr
  by_cases hkey : key = message.key
  · rw [hkey, lookup_insert] at hinsert
    rw [hkey, Option.some.inj hinsert]
  · rw [lookup_insert_ne hkey] at hinsert
    exact h key r hinsert

/-- **The three outcomes of `accept_custody`.** The message is known already and
nothing happens; it is refused, perhaps after purges; or, perhaps after purges, one
new record is written, under a number drawn in this call. -/
theorem acceptCustody_cases (P : Platform) (env : Reading)
    (source destination relayMessageId : String) (envelopeData : Bytes)
    (identityId deviceId : Option String) (h : Keyed s) :
    let out := s.acceptCustody P env source destination relayMessageId envelopeData identityId
      deviceId
    (∃ existing, s.findExisting destination relayMessageId = some existing ∧
      out = (.ok existing, s)) ∨
    (s.findExisting destination relayMessageId = none ∧
      ∃ e t, Shrinks env.now s t ∧ out = (.error e, t)) ∨
    (s.findExisting destination relayMessageId = none ∧
      (s.pendingForDestination destination usizeMax).length < maxPendingPerDestination ∧
      ∃ sequence t reason, Shrinks env.now s t ∧ s.registry.sequence ≤ sequence ∧
        sequence < t.registry.sequence ∧
        let message := s.candidate P env sequence source destination relayMessageId envelopeData
          identityId deviceId
        out = (.ok message, t.enter env.now message reason)) := by
  unfold acceptCustody
  dsimp only
  split
  next existing heq => exact .inl ⟨existing, heq, rfl⟩
  next hnone =>
    refine .inr ?_
    have hcheck := shrinks_checkDevice P s env.now
      (identityId.bind (s.registry.normalizeLookupIdentity P))
      ((deviceId.map P.trim).filter fun value => !value.isEmpty)
    split
    next e t heq => grind
    next reason t heq =>
      rw [heq] at hcheck
      have hmessages : t.messages = s.messages := messages_of_checkDevice heq
      split
      next => exact .inl ⟨hnone, _, t, hcheck, rfl⟩
      next hroom =>
        have hdrawn : Shrinks env.now s t.drawSequence :=
          hcheck.trans (Shrinks.quiet rfl rfl (Nat.le_succ _))
        have hkeyed := hdrawn.within.keyed h
        have hpressure := shrinks_enforceStoragePressureForWrite hkeyed env
          (s.candidate P env t.registry.sequence source destination relayMessageId envelopeData
            identityId deviceId)
        rw [candidate] at hpressure
        split
        next e u hwrite =>
          rw [hwrite] at hpressure
          exact .inl ⟨hnone, e, u, hdrawn.trans hpressure, rfl⟩
        next u hwrite =>
          rw [hwrite] at hpressure
          refine .inr ⟨hnone, ?_, t.registry.sequence, u, reason, hdrawn.trans hpressure,
            hcheck.sequence_le, Nat.lt_of_succ_le hpressure.sequence_le, rfl⟩
          rw [pendingForDestination, scanPrefix, hmessages] at hroom
          exact Nat.lt_of_not_le hroom

section Calls

variable {slack : Slack} {s : RelayCustodyStore}

section
variable (h : Keyed s) (env : Reading) (destination custodyId reason : String)
include h

theorem changes_markDispatching :
    Changes env.now slack s (s.markDispatching env destination custodyId reason).2 := by
  unfold markDispatching
  split
  next => exact .refl
  next record hrecord =>
    have hlookup := lookup_of_requireRecord hrecord
    split
    next => exact .refl
    next hstate =>
      split
      next => exact .refl
      next hattempts =>
        have haccepted : record.state = .accepted := by
          cases hs : record.state with
          | accepted => rfl
          | dispatching => exact absurd (.inl hs) hstate
          | delivered => exact absurd (.inr hs) hstate
        exact .single (.move reason (h _ _ hlookup ▸ hlookup)
          (.dispatch haccepted (Nat.lt_of_not_le hattempts)))

theorem changes_markDispatchFailed :
    Changes env.now slack s (s.markDispatchFailed env destination custodyId reason).2 := by
  unfold markDispatchFailed
  split
  next => exact .refl
  next record hrecord =>
    have hlookup := lookup_of_requireRecord hrecord
    split
    next => exact .refl
    next hstate =>
      have hdispatching : record.state = .dispatching := by
        cases hs : record.state with
        | accepted => exact absurd (.inl hs) hstate
        | dispatching => rfl
        | delivered => exact absurd (.inr hs) hstate
      exact .single (.move reason (h _ _ hlookup ▸ hlookup) (.fail hdispatching))

end

theorem changes_markDelivered (s : RelayCustodyStore) (env : Reading)
    (destination custodyId reason : String) :
    Changes env.now slack s (s.markDelivered env destination custodyId reason).2 := by
  unfold markDelivered
  split
  next => exact .refl
  next record hrecord =>
    split
    next => exact .refl
    next hstate =>
      exact .single (.deliver destination custodyId reason (lookup_of_requireRecord hrecord) hstate)

theorem messageKey_inj {destination custodyId custodyId' : String}
    (h : messageKey destination custodyId = messageKey destination custodyId') :
    custodyId = custodyId' :=
  (String.append_right_inj _).mp h

/-- What a convergence matches. -/
def matching (s : RelayCustodyStore) (destination relayMessageId : String) : List CustodyMessage :=
  (s.scanPrefix (destinationPrefix destination)).filter fun record =>
    record.relayMessageId = relayMessageId

section
variable (now : Nat) (destination reason : String) (records : List CustodyMessage)

/-- Distinct stored matches, each of them under the key that the convergence removes.
Where there is nothing under that key the chain needs slack. -/
theorem changes_convergeLoop :
    ∀ (converged : Nat) (s : RelayCustodyStore), Keyed s →
      (records.map CustodyMessage.custodyId).Nodup →
      (∀ r ∈ records, r ∈ s.values ∧
        (s.messages.lookup (messageKey destination r.custodyId) = some r ∨
          s.messages.lookup (messageKey destination r.custodyId) = none ∧ slack ≠ .strict)) →
      Changes now slack s (convergeLoop now destination reason records converged s).2 := by
  induction records with
  | nil => exact fun _ _ _ _ _ => .refl
  | cons record records ih =>
    intro converged s hkeyed hnodup hall
    obtain ⟨hfirst, hrest⟩ := nodup_cons.mp hnodup
    obtain ⟨hstored, hfound⟩ := hall record mem_cons_self
    unfold convergeLoop
    split
    next => exact ih _ s hkeyed hrest fun r hr => hall r (mem_cons_of_mem record hr)
    next hstate =>
      refine .head ?_ (ih _ _ ((Within.of_erase rfl).keyed hkeyed) hrest fun r hr => ?_)
      · rcases hfound with hown | ⟨hnone, hslack⟩
        · exact .deliver destination record.custodyId reason hown hstate
        · refine .cut destination reason ?_
          cases slack with
          | strict => exact absurd rfl hslack
          | tidy => exact ⟨hnone, hstored⟩
          | loose => trivial
      · -- the other matches lie elsewhere, and so do the keys removed for them
        obtain ⟨hr_stored, hr_found⟩ := hall r (mem_cons_of_mem record hr)
        have hid : r.custodyId ≠ record.custodyId := fun heq =>
          hfirst (heq ▸ mem_map_of_mem hr)
        have hkey : r.key ≠ messageKey destination record.custodyId := by
          intro heq
          have hlookup := hkeyed.lookup hr_stored
          rw [heq] at hlookup
          rcases hfound with hown | ⟨hnone, _⟩
          · exact hid
              (congrArg CustodyMessage.custodyId (Option.some.inj (hlookup.symm.trans hown)))
          · grind
        constructor
        · refine mem_values_iff_lookup.mpr ⟨r.key, ?_⟩
          rw [messages_removeMessage, messages_recordTransition, lookup_erase_ne hkey]
          exact hkeyed.lookup hr_stored
        · grind [messages_removeMessage, messages_recordTransition, messageKey_inj,
            lookup_erase_ne]

/-- Where every step off the pattern is allowed nothing is asked of the matches. -/
theorem changes_convergeLoop_loose :
    ∀ (converged : Nat) (s : RelayCustodyStore),
      Changes now .loose s (convergeLoop now destination reason records converged s).2 := by
  induction records with
  | nil => exact fun _ _ => .refl
  | cons record records ih =>
    intro converged s
    unfold convergeLoop
    split
    next => exact ih _ s
    next => exact .head (.cut destination reason trivial) (ih _ _)

/-- A convergence leaves the keys alone that it would not use for any match. -/
theorem lookup_convergeLoop {key : String}
    (hkey : ∀ r ∈ records, key ≠ messageKey destination r.custodyId) :
    ∀ (converged : Nat) (s : RelayCustodyStore),
      (convergeLoop now destination reason records converged s).2.messages.lookup key
        = s.messages.lookup key := by
  induction records with
  | nil => exact fun _ _ => rfl
  | cons record records ih =>
    obtain ⟨hfirst, hrest⟩ := forall_mem_cons.mp hkey
    intro converged s
    unfold convergeLoop
    split
    next => exact ih hrest _ s
    next => exact (ih hrest _ _).trans (lookup_erase_ne hfirst)

end

theorem changes_migrateLoop (now : Nat) (toDeviceId reason : String)
    (records : List CustodyMessage) :
    ∀ s : RelayCustodyStore, Stocked s records → (∀ r ∈ records, r.state ≠ .delivered) →
      Changes now slack s (migrateLoop now toDeviceId reason records s) := by
  induction records with
  | nil => exact fun _ _ _ => .refl
  | cons record records ih =>
    intro s hstocked hstate
    refine .head (.move reason (hstocked.lookup record mem_cons_self)
      (.migrate (hstate record mem_cons_self) toDeviceId)) (ih _ ?_ fun r hr =>
        hstate r (mem_cons_of_mem record hr))
    exact hstocked.tail fun key hkey => lookup_insert_ne hkey

theorem shrinks_purgeIdentityLoop (now : Nat) (base : String) (records : List CustodyMessage) :
    ∀ s : RelayCustodyStore, Stocked s records →
      Shrinks now s (purgeIdentityLoop now (base ++ "_purged") records s) := by
  induction records with
  | nil => exact fun _ _ => .refl
  | cons record records ih =>
    intro s hstocked
    refine .head (.purge base (hstocked.lookup record mem_cons_self)) (ih _ ?_)
    exact hstocked.tail fun key hkey => lookup_erase_ne hkey

section
variable (h : Keyed s) (P : Platform)
include h

theorem changes_applyRegistrySideEffect (env : Reading) (sideEffect : RegistrySideEffect) :
    Changes env.now slack s (s.applyRegistrySideEffect P env sideEffect) := by
  cases sideEffect with
  | none => exact .refl
  | migrate identityId fromDeviceId toDeviceId =>
    show Changes env.now slack s (s.migratePendingIdentityDevice P env identityId fromDeviceId
      toDeviceId "identity_handover_queue_migrated")
    unfold migratePendingIdentityDevice
    split
    next => exact .refl
    refine changes_migrateLoop _ _ _ _ s (h.stocked.sublist filter_sublist) fun r hr => ?_
    have hkept := (mem_filter.mp hr).2
    exact (of_decide_eq_true hkept).1
  | purge identityId deviceId =>
    show Changes env.now slack s (s.purgePendingIdentityMessages P env identityId deviceId
      "identity_queue_purged")
    unfold purgePendingIdentityMessages
    split
    next => exact .refl
    exact (shrinks_purgeIdentityLoop env.now "identity_queue" _ s
      (h.stocked.sublist filter_sublist)).changes

theorem changes_afterRegistry (env : Reading)
    (result : Except String RegistrationUpdateOutcome × RelayRegistry)
    (hsequence : s.registry.sequence ≤ result.2.sequence) :
    Changes env.now slack s (s.afterRegistry P env result).2 := by
  obtain ⟨outcome, registry⟩ := result
  have hregistry : Changes env.now slack s { s with registry } :=
    (shrinks_of_registry hsequence).changes
  cases outcome with
  | error => exact hregistry
  | ok outcome =>
    exact hregistry.trans
      (changes_applyRegistrySideEffect (hregistry.within.keyed h) P env outcome.sideEffect)

/-- Every call but `accept_custody` is a chain of changes, when the convergences are. -/
theorem changes_call (c : CustodyCall) (haccept : ¬ c.IsAcceptance)
    (hconverge : ∀ env destination relayMessageId reason,
      c = .convergeDeliveredForMessage env destination relayMessageId reason →
      Changes env.now slack s
        (s.convergeDeliveredForMessage env destination relayMessageId reason).2) :
    Changes c.now slack s (s.call P c) := by
  cases c with
  | acceptCustody => exact absurd trivial haccept
  | markDispatching env destination custodyId reason =>
    exact changes_markDispatching h env destination custodyId reason
  | markDispatchFailed env destination custodyId reason =>
    exact changes_markDispatchFailed h env destination custodyId reason
  | markDelivered env destination custodyId reason =>
    exact changes_markDelivered s env destination custodyId reason
  | convergeDeliveredForMessage env destination relayMessageId reason =>
    exact hconverge env destination relayMessageId reason rfl
  | enforceStoragePressure env =>
    exact (shrinks_enforceStoragePressureInternal h env none).changes
  | registerIdentity env identityId deviceId seniorityTimestamp =>
    exact changes_afterRegistry h P env _
      (s.registry.sequence_le_register P env.now identityId deviceId seniorityTimestamp)
  | deregisterIdentity env identityId fromDeviceId targetDeviceId =>
    exact changes_afterRegistry h P env _
      (s.registry.sequence_le_deregister P env.now identityId fromDeviceId targetDeviceId)
  | enforceCustody env identityId deviceId =>
    exact (shrinks_of_registry
      (s.registry.sequence_le_enforceCustody P env.now identityId deviceId)).changes
  | setCompatMode env mode =>
    refine Shrinks.changes ?_
    exact Shrinks.quiet rfl rfl (Nat.le_refl _)
  | elsewhere env =>
    refine Shrinks.changes ?_
    exact Shrinks.quiet rfl rfl (Nat.le_succ _)

end

end Calls

end RelayCustodyStore

end Scm.Store
