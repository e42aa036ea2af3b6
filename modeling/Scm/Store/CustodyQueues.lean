import Scm.Store.CustodySteps

/-!
# What the custody queues hold in every history

`Regular` is what every history of calls and restarts keeps: records lie under
their own keys, none that is stored is `Delivered`, and no destination has two
records for one relay message. From it `restart_pending_iff`: a restart loses the map
of dispatches in flight, and nothing else brings a `Dispatching` record back to
`Accepted`.
-/

namespace Scm.Store

open List Collections Runs

namespace RelayCustodyStore

/-! ## Scans -/

variable {r : CustodyMessage} {s : RelayCustodyStore}

theorem mem_scanPrefix {start : String} :
    r ∈ s.scanPrefix start ↔
      ∃ key, s.messages.lookup key = some r ∧ start.toList <+: key.toList := by
  unfold scanPrefix
  constructor
  · intro hr
    obtain ⟨entry, hentry, rfl⟩ := mem_map.mp hr
    obtain ⟨hmem, hstart⟩ := mem_filter.mp hentry
    exact ⟨entry.1, AList.mem_lookup_iff.mpr hmem, isPrefixOf_iff_prefix.mp hstart⟩
  · rintro ⟨key, hkey, hstart⟩
    refine mem_map.mpr ⟨⟨key, r⟩, mem_filter.mpr ⟨AList.mem_lookup_iff.mp hkey, ?_⟩, rfl⟩
    exact isPrefixOf_iff_prefix.mpr hstart

theorem prefix_messageKey (destination custodyId : String) :
    (destinationPrefix destination).toList <+: (messageKey destination custodyId).toList := by
  rw [messageKey, String.toList_append]
  exact prefix_append _ _

theorem Keyed.mem_scanPrefix (h : Keyed s) (hr : r ∈ s.values) :
    r ∈ s.scanPrefix (destinationPrefix r.destinationPeerId) :=
  RelayCustodyStore.mem_scanPrefix.mpr ⟨r.key, h.lookup hr, prefix_messageKey _ _⟩

theorem Keyed.ne_of_findExisting_none (h : Keyed s) {destination relayMessageId : String}
    (hnone : s.findExisting destination relayMessageId = none) (hr : r ∈ s.values)
    (hdest : r.destinationPeerId = destination) :
    r.relayMessageId ≠ relayMessageId := by
  have hscan := h.mem_scanPrefix hr
  rw [hdest] at hscan
  have hno := List.find?_eq_none.mp hnone r hscan
  exact fun heq => hno (decide_eq_true heq)

theorem pendingLe_total : Std.Total pendingLe :=
  lexLe_total CustodyMessage.acceptedAtMs ⟨fun a b => le_total a.custodyId b.custodyId⟩

theorem pendingLe_trans : IsTrans CustodyMessage pendingLe :=
  lexLe_trans CustodyMessage.acceptedAtMs ⟨fun _ _ _ hab hbc => hab.trans hbc⟩

theorem length_pending_le (s : RelayCustodyStore) (destination : String) (limit : Nat) :
    (s.pendingForDestination destination limit).length
      ≤ s.values.countP fun r => r.state = .accepted := by
  unfold pendingForDestination
  refine (List.length_take_le' _ _).trans ?_
  rw [length_insertionSort, ← countP_eq_length_filter]
  exact List.Sublist.countP_le (filter_sublist.map _)

/-- With room for everything that is stored, a queue shows all of its records. -/
theorem mem_pending_iff {destination : String} {limit : Nat} (hlimit : s.values.length ≤ limit) :
    r ∈ s.pendingForDestination destination limit ↔
      r ∈ s.scanPrefix (destinationPrefix destination) ∧ r.state = .accepted := by
  have hall : s.pendingForDestination destination limit
      = ((s.scanPrefix (destinationPrefix destination)).filter fun record =>
        record.state = .accepted).insertionSort pendingLe := by
    refine take_of_length_le ?_
    rw [length_insertionSort]
    refine (length_filter_le _ _).trans ?_
    rw [scanPrefix, length_map]
    refine (length_filter_le _ _).trans ?_
    rwa [values, length_map] at hlimit
  rw [hall, mem_insertionSort, mem_filter, decide_eq_true_iff]

/-! ## What every history keeps -/

structure Regular (s : RelayCustodyStore) : Prop where
  keyed : Keyed s
  undelivered : ∀ r ∈ s.values, r.state ≠ .delivered
  unique : ∀ r ∈ s.values, ∀ r' ∈ s.values, r.destinationPeerId = r'.destinationPeerId →
    r.relayMessageId = r'.relayMessageId → r = r'

theorem regular_empty (localIdentity : Option String) (sequence : Nat) :
    Regular (empty localIdentity sequence) :=
  ⟨fun _ _ h => (Option.some_ne_none _ h.symm).elim, fun _ h => absurd h not_mem_nil,
    fun _ h => absurd h not_mem_nil⟩

variable {s' : RelayCustodyStore}

theorem Within.mem_values (h : Within s s') {r' : CustodyMessage} (hr' : r' ∈ s'.values) :
    ∃ r ∈ s.values, Same r r' ∧ (r'.state = .delivered → r.state = .delivered) := by
  obtain ⟨key, hkey⟩ := mem_values_iff_lookup.mp hr'
  obtain ⟨r, hr, hsame, hstate⟩ := h.origin key r' hkey
  exact ⟨r, mem_values_of_lookup hr, hsame, hstate⟩

theorem Within.regular (h : Within s s') (hs : Regular s) : Regular s' := by
  have hkeyed := h.keyed hs.keyed
  refine ⟨hkeyed, fun r' hr' hstate => ?_, fun r₁ h₁ r₂ h₂ hdest hid => ?_⟩
  · obtain ⟨r, hr, _, hdelivered⟩ := h.mem_values hr'
    exact hs.undelivered r hr (hdelivered hstate)
  · obtain ⟨q₁, hq₁, hsame₁, _⟩ := h.mem_values h₁
    obtain ⟨q₂, hq₂, hsame₂, _⟩ := h.mem_values h₂
    have hq : q₁ = q₂ := hs.unique q₁ hq₁ q₂ hq₂
      (hsame₁.destinationPeerId.symm.trans (hdest.trans hsame₂.destinationPeerId))
      (hsame₁.relayMessageId.symm.trans (hid.trans hsame₂.relayMessageId))
    -- both sit under the key of that one record
    exact hkeyed.eq_of_key_eq h₁ h₂ (by rw [hsame₁.key, hsame₂.key, hq])

theorem Regular.enter {t : RelayCustodyStore} (h : Regular t) (now : Nat) {message : CustodyMessage}
    (reason : String) (hstate : message.state ≠ .delivered)
    (hfresh : ∀ r ∈ t.values, r.destinationPeerId = message.destinationPeerId →
      r.relayMessageId ≠ message.relayMessageId) :
    Regular (t.enter now message reason) := by
  refine ⟨h.keyed.enter now message reason, fun r hr => ?_, fun r hr r' hr' hdest hid => ?_⟩
  · rcases mem_values_enter hr with rfl | hold
    · exact hstate
    · exact h.undelivered r hold
  · rcases mem_values_enter hr with rfl | hold
    · rcases mem_values_enter hr' with rfl | hold'
      · rfl
      · exact absurd hid.symm (hfresh r' hold' hdest.symm)
    · rcases mem_values_enter hr' with rfl | hold'
      · exact absurd hid (hfresh r hold hdest)
      · exact h.unique r hold r' hold' hdest hid

/-- A call or a restart admits nothing new, or it is an acceptance that found no
record for its destination and message and room in the queue. -/
theorem after_cases (P : Platform) (h : Keyed s) (e : Event) :
    Within s (s.after P e) ∨
    ∃ env source destination relayMessageId data identityId deviceId sequence t reason,
      e = .call (.acceptCustody env source destination relayMessageId data identityId deviceId) ∧
      s.findExisting destination relayMessageId = none ∧
      (∃ message, (s.acceptCustody P env source destination relayMessageId data identityId
        deviceId).1 = .ok message) ∧
      (s.pendingForDestination destination usizeMax).length < maxPendingPerDestination ∧
      Within s t ∧
      s.after P e = t.enter env.now (s.candidate P env sequence source destination relayMessageId
        data identityId deviceId) reason := by
  cases e with
  | restart => exact .inl (.of_messages_eq rfl)
  | call c =>
    by_cases haccept : c.IsAcceptance
    · cases c with
      | acceptCustody env source destination relayMessageId data identityId deviceId =>
        rcases acceptCustody_cases P env source destination relayMessageId data identityId deviceId
          h with ⟨existing, _, hout⟩ | ⟨_, e, t, hshrinks, hout⟩ |
            ⟨hnone, hroom, sequence, t, reason, hshrinks, _, _, hout⟩
        · refine .inl (.of_messages_eq ?_)
          show (s.acceptCustody P env source destination relayMessageId data identityId
            deviceId).2.messages = _
          rw [hout]
        · refine .inl ?_
          show Within s (s.acceptCustody P env source destination relayMessageId data identityId
            deviceId).2
          rw [hout]
          exact hshrinks.within
        · exact .inr ⟨env, source, destination, relayMessageId, data, identityId, deviceId,
            sequence, t, reason, rfl, hnone, ⟨_, congrArg Prod.fst hout⟩, hroom, hshrinks.within,
            congrArg Prod.snd hout⟩
      | _ => exact haccept.elim
    · have hchanges : Changes c.now .loose s (s.call P c) :=
        changes_call h P c haccept fun env destination relayMessageId reason _ =>
          changes_convergeLoop_loose env.now destination reason _ 0 s
      exact .inl hchanges.within

theorem Regular.after (h : Regular s) (P : Platform) (e : Event) :
    Regular (s.after P e) := by
  rcases after_cases P h.keyed e with hwithin | ⟨env, source, destination, relayMessageId, data,
    identityId, deviceId, sequence, t, reason, _, hnone, _, _, hwithin, hafter⟩
  · exact hwithin.regular h
  · rw [hafter]
    refine (hwithin.regular h).enter env.now reason nofun fun r hr hdest => ?_
    obtain ⟨q, hq, hsame, _⟩ := hwithin.mem_values hr
    rw [hsame.relayMessageId]
    exact h.keyed.ne_of_findExisting_none hnone hq (hsame.destinationPeerId.symm.trans hdest)

theorem regular_run (P : Platform) (h : Regular s) (events : List Event) :
    Regular (run (after P) s events) :=
  run_invariant_always (fun _ e hs => hs.after P e) events s h

/-! ## After a restart -/

/-- **What is in the queues after a restart.** In every history from an empty store,
all undelivered records are back in the queue of their destination exactly when none
of them was `Dispatching`. -/
theorem restart_pending_iff (P : Platform) (localIdentity : Option String) (sequence : Nat)
    (events : List Event) :
    let s := run (after P) (empty localIdentity sequence) events
    (∀ r ∈ s.restart.values, r.state ≠ .delivered →
      ∀ limit, s.restart.values.length ≤ limit →
        r ∈ s.restart.pendingForDestination r.destinationPeerId limit) ↔
    ∀ r ∈ s.values, r.state ≠ .dispatching := by
  intro s
  have hregular : Regular s.restart :=
    (regular_run P (regular_empty localIdentity sequence) events).after P .restart
  constructor
  · intro hall r hr hstate
    have hundelivered : r.state ≠ .delivered := by
      rw [hstate]
      exact nofun
    have hpending := hall r hr hundelivered _ (Nat.le_refl _)
    rw [mem_pending_iff (Nat.le_refl _), hstate] at hpending
    exact absurd hpending.2 nofun
  · intro hnone r hr hundelivered limit hlimit
    refine (mem_pending_iff hlimit).mpr ⟨hregular.keyed.mem_scanPrefix hr, ?_⟩
    cases hstate : r.state with
    | accepted => rfl
    | dispatching => exact absurd hstate (hnone r hr)
    | delivered => exact absurd hstate hundelivered

/-- A platform whose text functions leave everything as it is. -/
def plainPlatform : Platform where
  trim value := value
  toLowercase value := value
  uuidVersion _ := none
  blake3 _ := .replicate 32 0

/-- A call at `now`, on a device whose disk cannot be probed and without variables
set: the store reckons with a disk of 8 GiB that holds nothing else. -/
def idleReading (now : Nat) : Reading where
  now := now
  snapshot := none
  writeSnapshot := none
  storageTotal := none
  storageUsed := none

/-- A message is accepted and sent on; before the answer the process stops. -/
def strandingEvents : List Event :=
  [.call (.acceptCustody (idleReading 1000) "alice" "bob" "m" [1, 2, 3] none none),
    .call (.markDispatching (idleReading 2000) "bob" "m-1000-0" "peer_reconnect")]

/-- The restarted relay holds the message and has nothing in Bob's queue. -/
theorem dispatching_record_stranded :
    let s := (run (after plainPlatform) (empty none 0) strandingEvents).restart
    s.values.map (fun r => (r.custodyId, r.destinationPeerId, r.state))
        = [("m-1000-0", "bob", .dispatching)] ∧
      s.pendingForDestination "bob" usizeMax = [] := by
  decide +kernel

end RelayCustodyStore

end Scm.Store
