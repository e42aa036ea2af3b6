import Scm.Store.CustodyIsolation
import Scm.Store.RegistryRuns
import Scm.Transport.Swarm

/-!
# Queues and devices

A message can be meant for one device of an identity. The relay asks the registry
before it takes such a message, and the registry tells the queue what to do when the
devices change: move what waits for the old device, or drop it. So what waits for a
device should wait for one that can still ask for it: the identity's active device, or
the one the identity is being handed over to (`Aimed`).

There is one change of devices that the queue is not told of. A handover that was not
completed within fifteen days collapses to `abandoned` when its record is next read,
and a read has no side effect to hand on. `aimed_run` is about the runs in which no call
reads a stale handover while messages wait for the identity (`Safe`).

The steps are registrations, deregistrations, reads, and relay requests as the handler
resolves them (`resolveCustodyMetadata`, then `acceptCustody`).
-/

namespace Scm.Store

open Collections

/-- The side effect is on the queue of this identity. -/
def RegistrySideEffect.On (j : String) : RegistrySideEffect → Prop
  | .none => True
  | .migrate identityId _ _ => identityId = j
  | .purge identityId _ => identityId = j

namespace RelayCustodyStore

/-- The message waits for this identity. -/
def Waits (s : RelayCustodyStore) (identityId : String) (r : CustodyMessage) : Prop :=
  r ∈ s.values ∧ r.state ≠ .delivered ∧ r.recipientIdentityId = some identityId

/-! ## What the loops leave -/

theorem records_purgeIdentityLoop (now : Nat) (reason : String) (records : List CustodyMessage) :
    ∀ s : RelayCustodyStore,
      (purgeIdentityLoop now reason records s).registry.records = s.registry.records := by
  induction records with
  | nil => exact fun s => rfl
  | cons record records ih => exact fun s => ih _

section
variable (now : Nat) (toDeviceId reason : String)

theorem records_migrateLoop (records : List CustodyMessage) :
    ∀ s : RelayCustodyStore,
      (migrateLoop now toDeviceId reason records s).registry.records = s.registry.records := by
  induction records with
  | nil => exact fun s => rfl
  | cons record records ih => exact fun s => ih _

theorem records_purgeOldestByPolicy (s : RelayCustodyStore) (now required : Nat) (reason : String) :
    (s.purgeOldestByPolicy now required reason).2.registry.records = s.registry.records :=
  purgeOldestByPolicy_keeps (p := fun t => t.registry.records = s.registry.records)
    (fun _ _ _ ht => ht) rfl required reason

theorem records_enforceStoragePressureForWrite (s : RelayCustodyStore) (env : Reading)
    (incoming : CustodyMessage) :
    (s.enforceStoragePressureForWrite env incoming).2.registry.records = s.registry.records := by
  have hpurge : ∀ (t : RelayCustodyStore) required reason,
      t.registry.records = s.registry.records →
      (t.purgeOldestByPolicy env.now required reason).2.registry.records = s.registry.records :=
    fun t _ _ ht => (records_purgeOldestByPolicy t _ _ _).trans ht
  exact enforceStoragePressureForWrite_keeps hpurge rfl incoming

variable (records : List CustodyMessage)

theorem lookup_purgeIdentityLoop :
    ∀ s : RelayCustodyStore, Keyed s → Stocked s records → ∀ key r,
      (purgeIdentityLoop now reason records s).messages.lookup key = some r →
      s.messages.lookup key = some r ∧ r ∉ records := by
  induction records with
  | nil => exact fun s _ _ key r h => ⟨h, List.not_mem_nil⟩
  | cons record records ih =>
    intro s hkeyed hstocked key r h
    have hmessages : ((s.recordTransition now record (some record.state) record.state
        reason).removeMessage record.destinationPeerId record.custodyId).messages
        = s.messages.erase record.key := rfl
    obtain ⟨hkept, hrest⟩ := ih _ ((Within.of_erase rfl).keyed hkeyed)
      (hstocked.tail fun other hother => by rw [hmessages, AList.lookup_erase_ne hother]) key r h
    rw [hmessages] at hkept
    have hlookup := lookup_of_lookup_erase hkept
    refine ⟨hlookup, fun hmem => ?_⟩
    rcases List.mem_cons.mp hmem with rfl | hmem
    · rw [hkeyed key r hlookup, AList.lookup_erase] at hkept
      cases hkept
    · exact hrest hmem

theorem lookup_migrateLoop :
    ∀ s : RelayCustodyStore, Keyed s → Stocked s records → ∀ key r,
      (migrateLoop now toDeviceId reason records s).messages.lookup key = some r →
      s.messages.lookup key = some r ∧ r ∉ records ∨
      ∃ q ∈ records, r = { q with intendedDeviceId := some toDeviceId, updatedAtMs := now } := by
  induction records with
  | nil => exact fun s _ _ key r h => .inl ⟨h, List.not_mem_nil⟩
  | cons record records ih =>
    intro s hkeyed hstocked key r h
    unfold migrateLoop at h
    dsimp only at h
    have hkey : CustodyMessage.key
        { record with intendedDeviceId := some toDeviceId, updatedAtMs := now } = record.key := rfl
    generalize hmoved : ({ record with intendedDeviceId := some toDeviceId, updatedAtMs := now } :
      CustodyMessage) = moved at h hkey
    have hmessages : ((s.putMessage moved).recordTransition now moved (some record.state)
        record.state reason).messages = s.messages.insert moved.key moved := rfl
    have hput : Keyed ((s.putMessage moved).recordTransition now moved (some record.state)
        record.state reason) := by
      intro other q hq
      rw [hmessages] at hq
      rcases lookup_insert_cases hq with ⟨hother, hqm⟩ | ⟨_, hold⟩
      · rw [hother, hqm]
      · exact hkeyed other q hold
    rw [hkey] at hmessages
    rcases ih _ hput (hstocked.tail fun other hother => by
      rw [hmessages, AList.lookup_insert_ne hother]) key r h with ⟨hkept, hrest⟩ | ⟨q, hq, heq⟩
    · rw [hmessages] at hkept
      rcases lookup_insert_cases hkept with ⟨_, hr⟩ | ⟨hkey, hlookup⟩
      · exact .inr ⟨record, List.mem_cons_self, hr.trans hmoved.symm⟩
      · refine .inl ⟨hlookup, fun hmem => ?_⟩
        rcases List.mem_cons.mp hmem with rfl | hmem
        · exact hkey (hkeyed key r hlookup)
        · exact hrest hmem
    · exact .inr ⟨q, List.mem_cons_of_mem record hq, heq⟩

end

/-! ## What the side effects leave of a queue -/

variable {r : CustodyMessage} {s : RelayCustodyStore} {i j : String}

variable (P : Platform)

section
variable (hkeyed : Keyed s) (env : Reading) (hj : s.registry.normalizeLookupIdentity P j = some j)
include hkeyed hj

theorem waits_purge (device : Option String) (reason : String)
    (h : Waits (s.purgePendingIdentityMessages P env j device reason) i r) :
    Waits s i r ∧ (i = j → ∃ gone, device = some gone ∧ r.intendedDeviceId ≠ some gone) := by
  obtain ⟨hmem, hstate, hid⟩ := h
  unfold purgePendingIdentityMessages at hmem
  rw [hj] at hmem
  obtain ⟨key, hkey⟩ := mem_values_iff_lookup.mp hmem
  obtain ⟨hlookup, hleft⟩ := lookup_purgeIdentityLoop env.now reason _ s hkeyed
    (hkeyed.stocked.sublist List.filter_sublist) key r hkey
  have hr := mem_values_of_lookup hlookup
  refine ⟨⟨hr, hstate, hid⟩, fun hij => ?_⟩
  subst hij
  cases device with
  | none => grind
  | some gone => grind

theorem waits_migrate (fromDeviceId toDeviceId reason : String)
    (h : Waits (s.migratePendingIdentityDevice P env j fromDeviceId toDeviceId reason) i r) :
    Waits s i r ∧ (i = j → r.intendedDeviceId ≠ some fromDeviceId) ∨
      i = j ∧ r.intendedDeviceId = some toDeviceId ∧ ∃ q, Waits s j q := by
  obtain ⟨hmem, hstate, hid⟩ := h
  unfold migratePendingIdentityDevice at hmem
  rw [hj] at hmem
  obtain ⟨key, hkey⟩ := mem_values_iff_lookup.mp hmem
  rcases lookup_migrateLoop env.now toDeviceId reason _ s hkeyed
    (hkeyed.stocked.sublist List.filter_sublist) key r hkey with ⟨hlookup, hleft⟩ | ⟨q, hq, rfl⟩
  · have hr := mem_values_of_lookup hlookup
    refine .inl ⟨⟨hr, hstate, hid⟩, fun hij hdevice => ?_⟩
    subst hij
    exact hleft (List.mem_filter.mpr ⟨hr, decide_eq_true ⟨hstate, hid, hdevice⟩⟩)
  · obtain ⟨hqmem, hqprops⟩ := List.mem_filter.mp hq
    obtain ⟨hqstate, hqid, _⟩ := of_decide_eq_true hqprops
    have hij : i = j := Option.some.inj (hid.symm.trans hqid)
    exact .inr ⟨hij, rfl, q, hqmem, hqstate, hqid⟩

end

/-- What can still wait for an identity after a side effect. -/
def Remains (s : RelayCustodyStore) (i : String) (r : CustodyMessage) : RegistrySideEffect → Prop
  | .none => Waits s i r
  | .migrate j fromDeviceId toDeviceId =>
    Waits s i r ∧ (i = j → r.intendedDeviceId ≠ some fromDeviceId) ∨
      i = j ∧ r.intendedDeviceId = some toDeviceId ∧ ∃ q, Waits s j q
  | .purge j device =>
    Waits s i r ∧ (i = j → ∃ gone, device = some gone ∧ r.intendedDeviceId ≠ some gone)

theorem records_applyRegistrySideEffect (s : RelayCustodyStore) (env : Reading)
    (effect : RegistrySideEffect) :
    (s.applyRegistrySideEffect P env effect).registry.records = s.registry.records := by
  cases effect with
  | none => rfl
  | migrate identityId fromDeviceId toDeviceId =>
    unfold applyRegistrySideEffect migratePendingIdentityDevice
    dsimp only
    split
    next => rfl
    next => exact records_migrateLoop _ _ _ _ s
  | purge identityId device =>
    unfold applyRegistrySideEffect purgePendingIdentityMessages
    dsimp only
    split
    next => rfl
    next => exact records_purgeIdentityLoop _ _ _ s

theorem remains_of_waits (hkeyed : Keyed s) (env : Reading)
    (hj : s.registry.normalizeLookupIdentity P j = some j) {effect : RegistrySideEffect}
    (hon : effect.On j) (h : Waits (s.applyRegistrySideEffect P env effect) i r) :
    Remains s i r effect := by
  cases effect with
  | none => exact h
  | migrate identityId fromDeviceId toDeviceId =>
    subst hon
    exact waits_migrate P hkeyed env hj fromDeviceId toDeviceId _ h
  | purge identityId device =>
    subst hon
    exact waits_purge P hkeyed env hj device _ h

theorem Remains.waits {effect : RegistrySideEffect} (hon : effect.On j) (hij : i ≠ j)
    (h : Remains s i r effect) :
    Waits s i r := by
  cases effect with
  | none => exact h
  | migrate identityId fromDeviceId toDeviceId =>
    subst hon
    rcases h with ⟨h, _⟩ | ⟨heq, _⟩
    · exact h
    · exact absurd heq hij
  | purge identityId device => exact h.1

theorem acceptCustody_waits (hkeyed : Keyed s) (env : Reading)
    (source destination relayMessageId : String) (data : Bytes)
    (identityId deviceId : Option String) :
    let out := s.acceptCustody P env source destination relayMessageId data identityId deviceId
    let check := s.checkDevice P env.now (identityId.bind (s.registry.normalizeLookupIdentity P))
      ((deviceId.map P.trim).filter fun value => !value.isEmpty)
    out.2 = s ∨ out.2.registry.records = check.2.registry.records ∧
      ∀ r ∈ out.2.values, r ∈ s.values ∨ (∃ reason, check.1 = .ok reason) ∧
        r.recipientIdentityId = identityId.bind (s.registry.normalizeLookupIdentity P) ∧
        r.intendedDeviceId = (deviceId.map P.trim).filter fun value => !value.isEmpty := by
  have hshrunk : ∀ t : RelayCustodyStore, Shrinks env.now s t → ∀ r ∈ t.values, r ∈ s.values := by
    intro t ht r hr
    obtain ⟨key, hkey⟩ := mem_values_iff_lookup.mp hr
    exact mem_values_of_lookup (ht.lookup_of_lookup hkey)
  unfold acceptCustody
  dsimp only
  generalize identityId.bind (s.registry.normalizeLookupIdentity P) = recipient
  generalize ((deviceId.map P.trim).filter fun value => !value.isEmpty) = device
  split
  next => exact .inl rfl
  refine .inr ?_
  have hcheck := shrinks_checkDevice P s env.now recipient device
  split
  next e t heq => grind
  next reason t heq =>
    rw [heq] at hcheck ⊢
    split
    next => exact ⟨rfl, fun r hr => .inl (hshrunk t hcheck r hr)⟩
    have hdrawn : Shrinks env.now s t.drawSequence :=
      hcheck.trans (Shrinks.quiet rfl rfl (Nat.le_succ _))
    generalize hmessage : acceptedMessage env.now t.registry.sequence source destination
      relayMessageId data recipient device = message
    have hpressure := hdrawn.trans
      (shrinks_enforceStoragePressureForWrite (hdrawn.within.keyed hkeyed) env message)
    have hrecords := records_enforceStoragePressureForWrite t.drawSequence env message
    split
    next e u hwrite =>
      rw [hwrite] at hpressure hrecords
      exact ⟨hrecords, fun r hr => .inl (hshrunk u hpressure r hr)⟩
    next u hwrite =>
      rw [hwrite] at hpressure hrecords
      refine ⟨hrecords, fun r hr => ?_⟩
      have hentered : r = message ∨ r ∈ u.values := mem_values_enter hr
      rcases hentered with rfl | hold
      · subst hmessage
        exact .inr ⟨⟨reason, rfl⟩, rfl, rfl⟩
      · exact .inl (hshrunk u hpressure r hold)

end RelayCustodyStore

end Scm.Store

namespace Scm.Transport

open List Bytes Collections Runs Store RelayCustodyStore RelayRegistry

/-! ## Calls and their condition -/

/-- What can happen to the registry and the queues of a relay. -/
inductive QueueCall where
  | register (env : Reading) (identityId deviceId : String) (seniorityTimestamp : Nat)
  | deregister (env : Reading) (identityId fromDeviceId : String) (targetDeviceId : Option String)
  | readState (env : Reading) (identityId : String)
  | relayRequest (env : Reading) (source destination relayMessageId : String) (data : Bytes)
      (recipientIdentityId intendedDeviceId : Option String)

/-- When the call is made. -/
def QueueCall.now : QueueCall → Nat
  | .register env _ _ _ => env.now
  | .deregister env _ _ _ => env.now
  | .readState env _ => env.now
  | .relayRequest env _ _ _ _ _ _ => env.now

/-- The store after a call. -/
def queueStep (P : Platform) (s : RelayCustodyStore) : QueueCall → RelayCustodyStore
  | .register env identityId deviceId seniorityTimestamp =>
    (s.registerIdentity P env identityId deviceId seniorityTimestamp).2
  | .deregister env identityId fromDeviceId targetDeviceId =>
    (s.deregisterIdentity P env identityId fromDeviceId targetDeviceId).2
  | .readState env identityId => { s with registry := (s.registry.getState P env.now identityId).2 }
  | .relayRequest env source destination relayMessageId data recipientIdentityId intendedDeviceId =>
    match resolveCustodyMetadata P s env.now recipientIdentityId intendedDeviceId with
    | (.error _, s) => s
    | (.ok (identityId, deviceId), s) =>
      (s.acceptCustody P env source destination relayMessageId data identityId deviceId).2

/-- The call reads the record of this identity. -/
def QueueCall.Reads (P : Platform) (s : RelayCustodyStore) : QueueCall → String → Prop
  | .register _ identityId _ _, i => normalizeIdentityId P identityId = .ok i
  | .deregister _ identityId _ _, i => normalizeIdentityId P identityId = .ok i
  | .readState _ identityId, i => s.registry.normalizeLookupIdentity P identityId = some i
  | .relayRequest _ _ _ _ _ (some identityId) (some _), i =>
    s.registry.normalizeLookupIdentity P identityId = some i
  | .relayRequest _ _ _ _ _ _ _, _ => False

/-- The call registers the device that the identity is handed over to. -/
def QueueCall.Completes (P : Platform) (record : RegistrationRecord) : QueueCall → Prop
  | .register _ _ deviceId _ =>
    ∃ fromDeviceId start, record.state = .handover fromDeviceId (P.trim deviceId) start
  | _ => False

/-- Nothing waits for an identity whose stale handover the call reads and does not
complete. -/
def Covered (P : Platform) (s : RelayCustodyStore) (call : QueueCall) : Prop :=
  ∀ i record, call.Reads P s i → s.registry.recordOf i = some record →
    ¬ Settled call.now record → ¬ call.Completes P record → ∀ r, ¬ s.Waits i r

/-- A call that is refused before it reads a record leaves the store as it was. -/
def Safe (P : Platform) (s : RelayCustodyStore) (call : QueueCall) : Prop :=
  queueStep P s call = s ∨ Covered P s call

/-! ## The invariant -/

/-- The device is the active one, or the one the identity is handed over to. -/
def Aims (record : RegistrationRecord) (deviceId : String) : Prop :=
  (∃ seniorityTimestamp, record.state = .active deviceId seniorityTimestamp) ∨
    ∃ fromDeviceId initiatedAt, record.state = .handover fromDeviceId deviceId initiatedAt

variable {now : Nat} {record : RegistrationRecord} {effect : RegistrySideEffect}
  {d j reason : String}

theorem Aims.eq_active {active : String} {seniorityTimestamp : Nat} (h : Aims record d)
    (hstate : record.state = .active active seniorityTimestamp) : d = active := by
  rw [Aims, hstate] at h
  rcases h with ⟨_, hactive⟩ | ⟨_, _, hhandover⟩
  · cases hactive
    rfl
  · cases hhandover

theorem Aims.eq_target {f t : String} {start : Nat} (h : Aims record d)
    (hstate : record.state = .handover f t start) : d = t := by
  rw [Aims, hstate] at h
  rcases h with ⟨_, hactive⟩ | ⟨_, _, hhandover⟩
  · cases hactive
  · cases hhandover
    rfl

theorem Aims.not_abandoned {device : String} {since : Nat} (h : Aims record d) :
    record.state ≠ .abandoned device since := by
  intro hstate
  rw [Aims, hstate] at h
  rcases h with ⟨_, hactive⟩ | ⟨_, _, hhandover⟩
  · cases hactive
  · cases hhandover

/-- What waits for a device waits for one that can ask for it. -/
structure Aimed (P : Platform) (s : RelayCustodyStore) : Prop where
  keyed : Keyed s
  queue : ∀ i r d, s.Waits i r → r.intendedDeviceId = some d →
    ∃ record, s.registry.recordOf i = some record ∧ Aims record d
  trimmed : ∀ i record f t start, s.registry.recordOf i = some record →
    record.state = .handover f t start → P.trim t = t

def Abandoned (s : RelayCustodyStore) (i : String) : Prop :=
  ∃ record deviceId abandonedAt, s.registry.recordOf i = some record ∧
    record.state = .abandoned deviceId abandonedAt

/-- A step keeps the queues aimed, and nothing waits for an identity that it made
abandoned. -/
structure Orderly (P : Platform) (s s' : RelayCustodyStore) : Prop where
  aimed : Aimed P s'
  emptied : ∀ i, ¬ Abandoned s i → Abandoned s' i → ∀ r, ¬ s'.Waits i r

variable {P : Platform} {s s' : RelayCustodyStore}

section
variable (h : Aimed P s)
include h

theorem Aimed.orderly : Orderly P s s :=
  ⟨h, fun _ hbefore hafter => absurd hafter hbefore⟩

theorem Aimed.touch (hkeyed : Keyed s') (j : String)
    (hothers : ∀ i, i ≠ j → s'.registry.recordOf i = s.registry.recordOf i ∧
      ∀ r, s'.Waits i r → s.Waits i r) (hrecord : s'.registry.recordOf j = some record)
    (hqueue : ∀ r d, s'.Waits j r → r.intendedDeviceId = some d → Aims record d)
    (htrimmed : ∀ f t start, record.state = .handover f t start → P.trim t = t)
    (hemptied : ∀ d since, record.state = .abandoned d since → ¬ Abandoned s j →
      ∀ r, ¬ s'.Waits j r) :
    Orderly P s s' := by
  refine ⟨⟨hkeyed, fun i r d hr hd => ?_, fun i found f t start hfound hstate => ?_⟩,
    fun i hbefore hafter r hr => ?_⟩
  · by_cases hij : i = j
    · grind
    · obtain ⟨hsame, hwaits⟩ := hothers i hij
      obtain ⟨found, hfound, haims⟩ := h.queue i r d (hwaits r hr) hd
      exact ⟨found, hsame.trans hfound, haims⟩
  · by_cases hij : i = j
    · grind
    · exact h.trimmed i found f t start ((hothers i hij).1.symm.trans hfound) hstate
  · obtain ⟨found, d, since, hfound, hstate⟩ := hafter
    by_cases hij : i = j
    · grind
    · exact hbefore ⟨found, d, since, (hothers i hij).1.symm.trans hfound, hstate⟩

/-- Reading a record, which may be stale only if nothing waits for it. -/
theorem Aimed.read (now : Nat) (j : String)
    (hcovered : ∀ record, s.registry.recordOf j = some record → ¬ Settled now record →
      ∀ r, ¬ s.Waits j r) :
    Orderly P s { s with registry := (s.registry.getRecordByIdentityId now j).2 } := by
  have hafter := recordOf_getRecord s.registry now j
  rcases getRecord_cases s.registry now j with ⟨hsame, _⟩ | ⟨record, f, t, start, hrecord, _,
    hstale, hread⟩
  · rw [hsame]
    exact h.orderly
  · have hnone := hcovered record hrecord hstale
    rw [hread] at hafter
    refine h.touch h.keyed j (fun i hij => ⟨recordOf_getRecord_ne s.registry now hij,
      fun r hr => hr⟩) hafter (fun r d hr _ => absurd hr (hnone r)) nofun
      fun _ _ _ _ r hr => hnone r hr

/-! ## Registrations -/

/-- What waits for a device waits for one that the record aims at, as it is read. -/
theorem Aimed.queue_read
    (hcovered : ∀ record, s.registry.recordOf j = some record → ¬ Settled now record →
      ∀ r, ¬ s.Waits j r) {r : CustodyMessage} (hr : s.Waits j r)
    (hd : r.intendedDeviceId = some d) :
    ∃ record, (s.registry.getRecordByIdentityId now j).1 = some record ∧ Aims record d := by
  obtain ⟨record, hrecord, haims⟩ := h.queue j r d hr hd
  rcases getRecord_cases s.registry now j with
    ⟨hsame, _⟩ | ⟨stale, _, _, _, hstale, _, hunsettled, _⟩
  · grind
  · exact absurd hr (hcovered stale hstale hunsettled r)

end

/-- A step that writes the record of one identity and works on its queue. -/
theorem Aimed.write (hP : P.Lawful) (h : Aimed P s) {env : Reading} {identityId : String}
    (hid : normalizeIdentityId P identityId = .ok j) {fromState : Option RegistrationState}
    {state : RegistrationState} (effect : RegistrySideEffect) (hon : effect.On j)
    (hqueue : ∀ r d, Remains s j r effect → r.intendedDeviceId = some d →
      Aims ⟨j, state, env.now⟩ d)
    (htrimmed : ∀ f t start, state = .handover f t start → P.trim t = t)
    (hemptied : ∀ d since, state = .abandoned d since → ¬ Abandoned s j → ∀ r,
      ¬ Remains s j r effect) :
    Orderly P s ({ s with
      registry := (s.registry.getRecordByIdentityId env.now j).2.persistState j fromState state
        reason env.now }.applyRegistrySideEffect P env effect) := by
  have hwritten := recordOf_persistState (s.registry.getRecordByIdentityId env.now j).2 j fromState
    state reason env.now
  have hothers := fun i (hij : i ≠ j) =>
    (recordOf_persistState_ne (s.registry.getRecordByIdentityId env.now j).2
    hij fromState state reason env.now).trans (recordOf_getRecord_ne s.registry env.now hij)
  generalize (s.registry.getRecordByIdentityId env.now j).2.persistState j fromState state reason
    env.now = registry at hwritten hothers ⊢
  have hchanges : Changes env.now .strict { s with registry } _ :=
    changes_applyRegistrySideEffect (s := { s with registry }) h.keyed P env effect
  have hrecords := records_applyRegistrySideEffect P { s with registry } env effect
  have hname : registry.normalizeLookupIdentity P j = some j := by
    refine normalizeLookupIdentity_of_normalize hP hid ?_
    show (registry.recordOf j).isSome
    rw [hwritten]
    rfl
  have hremains : ∀ i r, RelayCustodyStore.Waits
      (applyRegistrySideEffect P { s with registry } env effect) i r → Remains s i r effect := by
    intro i r hr
    have hrest := remains_of_waits P (s := { s with registry }) h.keyed env hname hon hr
    cases effect with
    | none => exact hrest
    | migrate => exact hrest
    | purge => exact hrest
  have hrecordOf :
      ∀ i, (applyRegistrySideEffect P { s with registry } env effect).registry.recordOf i
      = registry.recordOf i := fun i => congrArg (AList.lookup (registrationKey i)) hrecords
  refine h.touch (hchanges.within.keyed h.keyed) j
    (fun i hij => ⟨(hrecordOf i).trans (hothers i hij), fun r hr => ?_⟩)
    ((hrecordOf j).trans hwritten) (fun r d hr => hqueue r d (hremains j r hr)) htrimmed
    fun d since hstate hbefore r hr => hemptied d since hstate hbefore r (hremains j r hr)
  exact (hremains i r hr).waits hon hij

/-- A registration that succeeds drops the queue of the device it takes over from; no
other device had a queue. -/
theorem registerDecision_cases {i : String} {current : Option RegistrationRecord}
    (h : registerDecision now i d current = .ok (effect, reason)) :
    (effect = .none ∧ ∀ record, current = some record → ∀ other, Aims record other → other = d) ∨
    ∃ record active seniorityTimestamp, current = some record ∧
      record.state = .active active seniorityTimestamp ∧ effect = .purge i (some active) := by
  unfold registerDecision at h
  split at h
  next =>
    cases h
    exact .inl ⟨rfl, nofun⟩
  next record =>
    split at h
    next active seniorityTimestamp hstate =>
      split_ifs at h with hsame hstale
      · cases h
        refine .inl ⟨rfl, fun _ heq other haims => ?_⟩
        cases heq
        exact (haims.eq_active hstate).trans hsame
      · grind
    next f t start hstate =>
      split_ifs at h with hsame
      cases h
      refine .inl ⟨rfl, fun _ heq other haims => ?_⟩
      cases heq
      exact (haims.eq_target hstate).trans hsame
    next hstate =>
      cases h
      refine .inl ⟨rfl, fun _ heq other haims => ?_⟩
      cases heq
      exact absurd hstate haims.not_abandoned

/-- A record that is read with a device to aim at is the one that is stored. -/
theorem getRecord_of_aims {r : RelayRegistry}
    (h : (r.getRecordByIdentityId now j).1 = some record) (haims : Aims record d) :
    r.getRecordByIdentityId now j = (some record, r) ∧ r.recordOf j = some record := by
  rcases getRecord_cases r now j with ⟨hsame, _⟩ | ⟨_, _, _, _, _, _, _, hread⟩
  · grind
  · rw [hread] at h
    cases h
    exact absurd rfl haims.not_abandoned

/-- A registration: it drops the queue it takes over, or completes a handover, however late. -/
theorem Aimed.register (hP : P.Lawful) (h : Aimed P s) (env : Reading)
    (identityId deviceId : String)
    (seniorityTimestamp : Nat)
    (hcovered : Covered P s (.register env identityId deviceId seniorityTimestamp)) :
    Orderly P s (s.registerIdentity P env identityId deviceId seniorityTimestamp).2 := by
  unfold registerIdentity
  rcases register_cases P s.registry env.now identityId deviceId seniorityTimestamp with
    ⟨e, hout⟩ | ⟨j, hid, ⟨e, hdecision, hout⟩ | ⟨effect, reason, hdecision, hout⟩⟩
  · rw [hout]
    exact h.orderly
  · rw [hout]
    -- a stale handover is read as abandoned, which any device may follow
    rcases getRecord_cases s.registry env.now j with ⟨hsame, _⟩ | ⟨_, _, _, _, _, _, _, hread⟩
    · rw [hsame]
      exact h.orderly
    · rw [hread] at hdecision
      cases hdecision
  · rw [hout]
    rcases registerDecision_cases hdecision with ⟨rfl, haims⟩ | ⟨record, active, seniority, hrecord,
      hstate, rfl⟩
    · refine h.write hP hid .none trivial (fun r d hr hd => ?_) nofun nofun
      obtain ⟨record, hrecord, hrecordaims⟩ := h.queue j r d hr hd
      by_cases hlate : ∃ f start, record.state = .handover f (P.trim deviceId) start
      · obtain ⟨f, start, hstate⟩ := hlate
        cases hrecordaims.eq_target hstate
        exact .inl ⟨seniorityTimestamp, rfl⟩
      · obtain ⟨found, hfound, hfoundaims⟩ := h.queue_read (fun stale hstale hunsettled => by
          cases hrecord.symm.trans hstale
          exact hcovered j record hid hrecord hunsettled hlate) hr hd
        cases haims found hfound d hfoundaims
        exact .inl ⟨seniorityTimestamp, rfl⟩
    · refine h.write hP hid (.purge j (some active)) rfl (fun r d hr hd => ?_) nofun nofun
      obtain ⟨gone, hgone, hother⟩ := hr.2 rfl
      cases hgone
      -- what waited was aimed at the device that was active, and that queue is dropped
      have hstored := (getRecord_of_aims hrecord (.inl ⟨_, hstate⟩)).2
      obtain ⟨found, hfound, hfoundaims⟩ := h.queue j r d hr.1 hd
      cases hstored.symm.trans hfound
      rw [hfoundaims.eq_active hstate] at hd
      exact absurd hd hother

/-! ## Deregistrations -/

theorem deregisterDecision_cases {i f : String} {target : Option String}
    {state state' : RegistrationState}
    (h : deregisterDecision now i f target state = .ok (state', effect, reason)) :
    (∃ seniorityTimestamp t, state = .active f seniorityTimestamp ∧ target = some t ∧
      state' = .handover f t now ∧ effect = .migrate i f t) ∨
    (state' = .abandoned f now ∧ effect = .purge i none) ∨
    (∃ currentFrom currentTo start, state = .handover currentFrom currentTo start ∧
      state' = state ∧ effect = .none) ∨
    ∃ since, state = .abandoned f since ∧ state' = .abandoned f now ∧ effect = .none := by
  unfold deregisterDecision at h
  split at h
  next device seniorityTimestamp =>
    split_ifs at h with hdevice
    subst hdevice
    split at h
    next t => grind
    next => grind
  next currentFrom currentTo start =>
    split_ifs at h
    cases h
    exact .inr (.inr (.inl ⟨currentFrom, currentTo, start, rfl, rfl, rfl⟩))
  next device since =>
    split_ifs at h with hdevice
    subst hdevice
    cases h
    exact .inr (.inr (.inr ⟨since, rfl, rfl, rfl⟩))

theorem Aimed.deregister (hP : P.Lawful) (h : Aimed P s) (env : Reading)
    (identityId fromDeviceId : String) (targetDeviceId : Option String)
    (hcovered : Covered P s (.deregister env identityId fromDeviceId targetDeviceId)) :
    Orderly P s (s.deregisterIdentity P env identityId fromDeviceId targetDeviceId).2 := by
  unfold deregisterIdentity
  rcases deregister_cases P s.registry env.now identityId fromDeviceId targetDeviceId with
    ⟨e, hout⟩ | ⟨j, hid, ⟨e, hout⟩ | ⟨record, target, state, effect, reason, hrecord, htarget,
      hdecision, hout⟩⟩
  · rw [hout]
    exact h.orderly
  · rw [hout]
    exact h.read env.now j fun record hr hu => hcovered j record hid hr hu id
  · rw [hout]
    have hread := fun {r d} => h.queue_read (r := r) (d := d) fun record hr hu =>
      hcovered j record hid hr hu id
    rcases deregisterDecision_cases hdecision with
      ⟨seniorityTimestamp, t, hstate, ht, rfl, rfl⟩ | ⟨rfl, rfl⟩ |
        ⟨currentFrom, currentTo, start, hstate, rfl, rfl⟩ | ⟨since, hstate, rfl, rfl⟩
    · refine h.write hP hid (.migrate j _ t) rfl (fun r d hr hd => ?_)
        (fun _ _ _ hhandover => ?_) nofun
      · rcases hr with ⟨hr, hother⟩ | ⟨_, hmoved, _⟩
        · obtain ⟨found, hfound, haims⟩ := hread hr hd
          cases hrecord.symm.trans hfound
          rw [haims.eq_active hstate] at hd
          exact absurd hd (hother rfl)
        · cases hd.symm.trans hmoved
          exact .inr ⟨_, _, rfl⟩
      · cases hhandover
        obtain ⟨value, rfl⟩ := htarget t ht
        exact hP.trim_trim value
    · have hgone : ∀ r, ¬ Remains s j r (.purge j none) := by
        intro r hr
        obtain ⟨gone, hgone, _⟩ := hr.2 rfl
        cases hgone
      exact h.write hP hid (.purge j none) rfl (fun r d hr _ => absurd hr (hgone r)) nofun
        fun _ _ _ _ => hgone
    · have hstored := (getRecord_of_aims hrecord (.inr ⟨_, _, hstate⟩)).2
      refine h.write hP hid .none trivial (fun r d hr hd => ?_) (fun f t start hhandover => ?_)
        fun d since habandoned => ?_
      · obtain ⟨found, hfound, haims⟩ := h.queue j r d hr hd
        cases hstored.symm.trans hfound
        exact haims
      · exact h.trimmed j record f t start hstored hhandover
      · grind
    · refine h.write hP hid .none trivial (fun r d hr hd => ?_) nofun fun _ _ _ hbefore r hr => ?_
      · obtain ⟨found, hfound, haims⟩ := hread hr hd
        cases hrecord.symm.trans hfound
        exact absurd hstate haims.not_abandoned
      · rcases getRecord_cases s.registry env.now j with ⟨hsame, _⟩ | ⟨stale, _, _, _, hstale, _,
          hunsettled, _⟩
        · rw [hsame] at hrecord
          exact hbefore ⟨record, P.trim fromDeviceId, since, hrecord, hstate⟩
        · exact hcovered j stale hid hstale hunsettled id r hr

/-! ## Relay requests -/

/-- The device check leaves the records as they are, unless it has a record to read. -/
theorem records_checkDevice (hP : P.Lawful) {recipient device : Option String}
    (h : ∀ i d, recipient = some i → device = some d →
      s.registry.normalizeLookupIdentity P i = some i ∧
      (s.registry.getRecordByIdentityId now i).2 = s.registry) :
    (s.checkDevice P now recipient device).2.registry.records = s.registry.records := by
  unfold checkDevice
  split
  next => rfl
  next i d =>
    obtain ⟨hname, hread⟩ := h i d rfl rfl
    have hregistry : (s.registry.enforceCustody P now i d).2 = s.registry := by
      rcases enforceCustody_cases hP s.registry now i d with ⟨e, hout⟩ | ⟨j, hj, hout, _⟩
      · rw [hout]
      · grind
    split
    next e registry heq => grind
    next e registry heq => grind
  next => rfl

theorem Aimed.accept (h : Aimed P s) (env : Reading) (source destination relayMessageId : String)
    (data : Bytes) (identityId deviceId : Option String)
    (hrecords : (s.checkDevice P env.now (identityId.bind (s.registry.normalizeLookupIdentity P))
      ((deviceId.map P.trim).filter fun value => !value.isEmpty)).2.registry.records
        = s.registry.records)
    (hnew : ∀ i d, identityId.bind (s.registry.normalizeLookupIdentity P) = some i →
      ((deviceId.map P.trim).filter fun value => !value.isEmpty) = some d →
      ∃ record, s.registry.recordOf i = some record ∧ Aims record d) :
    Orderly P s
      (s.acceptCustody P env source destination relayMessageId data identityId deviceId).2 := by
  have hkeyed : Keyed
      (s.acceptCustody P env source destination relayMessageId data identityId deviceId).2 :=
    keyed_call P h.keyed
      (.acceptCustody env source destination relayMessageId data identityId deviceId)
  have hcases := acceptCustody_waits P h.keyed env source destination relayMessageId data identityId
    deviceId
  dsimp only at hcases
  generalize (s.acceptCustody P env source destination relayMessageId data identityId deviceId).2
    = s' at hkeyed hcases ⊢
  rcases hcases with rfl | ⟨hafter, hvalues⟩
  · exact h.orderly
  have hrecordOf : ∀ i, s'.registry.recordOf i = s.registry.recordOf i :=
    fun i => congrArg (AList.lookup (registrationKey i)) (hafter.trans hrecords)
  refine ⟨⟨hkeyed, fun i r d hr hd => ?_, fun i record f t start hrecord => ?_⟩,
    fun i hbefore hafter => ?_⟩
  · rw [hrecordOf]
    obtain ⟨hmem, hstate, hid⟩ := hr
    rcases hvalues r hmem with hold | ⟨_, hrecipient, hdevice⟩
    · exact h.queue i r d ⟨hold, hstate, hid⟩ hd
    · exact hnew i d (hrecipient.symm.trans hid) (hdevice.symm.trans hd)
  · exact h.trimmed i record f t start ((hrecordOf i).symm.trans hrecord)
  · obtain ⟨record, d, since, hrecord, hstate⟩ := hafter
    exact absurd ⟨record, d, since, (hrecordOf i).symm.trans hrecord, hstate⟩ hbefore

/-- How a request that names an identity and a device is resolved: to the device that the
record aims at, with the store left as it was. -/
theorem resolveCustodyMetadata_cases (hP : P.Lawful) (s : RelayCustodyStore) (now : Nat)
    (identityId deviceId : String) :
    let out := resolveCustodyMetadata P s now (some identityId) (some deviceId)
    (∃ e, out = (.error e, s)) ∨
    ∃ i, s.registry.normalizeLookupIdentity P identityId = some i ∧
      ((∃ e, out = (.error e, { s with registry := (s.registry.getRecordByIdentityId now i).2 })) ∨
      ∃ record d, s.registry.getRecordByIdentityId now i = (some record, s.registry) ∧
        s.registry.recordOf i = some record ∧ Aims record d ∧
        (d = P.trim deviceId ∨ ∃ f start, record.state = .handover f d start) ∧
        out = (.ok (some i, some d), s)) := by
  intro out
  have hout : out = resolveCustodyMetadata P s now (some identityId) (some deviceId) := rfl
  clear_value out
  unfold resolveCustodyMetadata at hout
  dsimp only at hout
  have hcases := enforceCustody_cases hP s.registry now identityId deviceId
  dsimp only at hcases
  generalize s.registry.enforceCustody P now identityId deviceId = answer at hout hcases
  obtain ⟨result, registry⟩ := answer
  rcases hcases with ⟨e, hanswer⟩ | ⟨i, hi, hregistry, ⟨e, hresult⟩ | ⟨record, hrecord, hstate⟩⟩
  · cases hanswer
    exact .inl ⟨_, hout⟩
  · simp_all
  · refine .inr ⟨i, hi, .inr ?_⟩
    cases hregistry
    rcases hstate with ⟨seniority, hactive, hresult⟩ | ⟨f, t, start, hhandover, _, hresult⟩
    · have hd : Aims record (P.trim deviceId) := .inl ⟨seniority, hactive⟩
      obtain ⟨hsame, hstored⟩ := getRecord_of_aims hrecord hd
      cases hresult
      rw [hsame] at hout
      exact ⟨record, P.trim deviceId, hsame, hstored, hd, .inl rfl, hout⟩
    · have hd : Aims record t := .inr ⟨f, start, hhandover⟩
      obtain ⟨hsame, hstored⟩ := getRecord_of_aims hrecord hd
      cases hresult
      rw [hsame] at hout
      exact ⟨record, t, hsame, hstored, hd, .inr ⟨f, start, hhandover⟩, hout⟩

theorem Aimed.relayRequest (hP : P.Lawful) (h : Aimed P s) (env : Reading)
    (source destination relayMessageId : String) (data : Bytes)
    (recipientIdentityId intendedDeviceId : Option String)
    (hcovered : Covered P s (.relayRequest env source destination relayMessageId data
      recipientIdentityId intendedDeviceId)) :
    Orderly P s (queueStep P s (.relayRequest env source destination relayMessageId data
      recipientIdentityId intendedDeviceId)) := by
  unfold queueStep
  dsimp only
  cases recipientIdentityId with
  | none =>
    exact h.accept env source destination relayMessageId data none intendedDeviceId
      (records_checkDevice hP nofun) nofun
  | some identityId =>
    cases intendedDeviceId with
    | none =>
      exact h.accept env source destination relayMessageId data (some identityId) none
        (records_checkDevice hP nofun) nofun
    | some deviceId =>
      rcases resolveCustodyMetadata_cases hP s env.now identityId deviceId with
        ⟨e, hout⟩ | ⟨i, hi, ⟨e, hout⟩ | ⟨record, d, hread, hstored, haims, hd, hout⟩⟩
      · rw [hout]
        exact h.orderly
      · rw [hout]
        exact h.read env.now i fun record hr hu => hcovered i record hi hr hu id
      · rw [hout]
        have hname := normalizeLookupIdentity_idem hP hi
        have htrim : P.trim d = d := by
          rcases hd with rfl | ⟨f, start, hhandover⟩
          · exact hP.trim_trim deviceId
          · exact h.trimmed i record f d start hstored hhandover
        refine h.accept env source destination relayMessageId data (some i) (some d)
          (records_checkDevice hP fun j other hj _ => ?_) fun j other hj hother => ?_
        · grind
        · simp_all

/-! ## Runs -/

theorem Aimed.step (hP : P.Lawful) (h : Aimed P s) (call : QueueCall)
    (hsafe : Safe P s call) :
    Orderly P s (queueStep P s call) := by
  rcases hsafe with hsame | hcovered
  · rw [hsame]
    exact h.orderly
  cases call with
  | register env identityId deviceId seniorityTimestamp =>
    exact h.register hP env identityId deviceId seniorityTimestamp hcovered
  | deregister env identityId fromDeviceId targetDeviceId =>
    exact h.deregister hP env identityId fromDeviceId targetDeviceId hcovered
  | readState env identityId =>
    unfold queueStep getState
    dsimp only
    split
    next => exact h.orderly
    next i hi => exact h.read env.now i fun record hr hu => hcovered i record hi hr hu id
  | relayRequest env source destination relayMessageId data recipientIdentityId intendedDeviceId =>
    exact h.relayRequest hP env source destination relayMessageId data recipientIdentityId
      intendedDeviceId hcovered

theorem aimed_new (hmessages : s.messages = ∅) (hrecords : s.registry.records = ∅) : Aimed P s := by
  have hnone : ∀ r, r ∉ s.values := by simp_all [mem_values_iff_lookup]
  refine ⟨fun key r hr => ?_, fun i r d hr => absurd hr.1 (hnone r),
    fun i record f t start hr => ?_⟩
  · rw [hmessages] at hr
    cases hr
  · unfold recordOf at hr
    rw [hrecords] at hr
    cases hr

/-- **From a new store, while no call but the target's registration reads a stale handover
that messages wait for:
every undelivered message for an identity and a device is for the active device or for
the one the identity is handed over to, and no message waits for an identity that has
just become abandoned.** -/
theorem aimed_run (hP : P.Lawful) (hmessages : s.messages = ∅) (hrecords : s.registry.records = ∅)
    (calls : List QueueCall) (hsafe : Along (queueStep P) (Safe P) s calls) :
    (∀ i r d, (run (queueStep P) s calls).Waits i r → r.intendedDeviceId = some d →
      ∃ record, (run (queueStep P) s calls).registry.recordOf i = some record ∧
        Aims record d) ∧
    ∀ before call later, calls = before ++ call :: later → ∀ i,
      ¬ Abandoned (run (queueStep P) s before) i →
      Abandoned (run (queueStep P) s (before ++ [call])) i →
      ∀ r, ¬ (run (queueStep P) s (before ++ [call])).Waits i r := by
  have hstep := fun s call hs hok => (Aimed.step (s := s) hP hs call hok).aimed
  refine ⟨(run_invariant hstep calls s (aimed_new hmessages hrecords) hsafe).queue, ?_⟩
  rintro before call later rfl i hbefore hafter
  obtain ⟨halong, hcall, _⟩ := along_append.mp hsafe
  have haimed := run_invariant hstep before s (aimed_new hmessages hrecords) halong
  rw [run_append] at hafter ⊢
  exact (haimed.step hP call hcall).emptied i hbefore hafter

/-- The library functions on texts that need no trimming and hold no capitals. -/
def exactPlatform : Platform :=
  { plainPlatform with uuidVersion := fun value => (parseUuid value).map uuidVersionNum }

theorem exactPlatform_lawful : exactPlatform.Lawful where
  trim_trim _ := rfl
  fold_fold _ _ := rfl
  fold_hex _ := rfl

/-- A message for the tablet, which then hands the identity over to the phone. -/
def tabletLeaves : List QueueCall :=
  [.register (idleReading 1000) someIdentity tablet 1,
    .relayRequest (idleReading 2000) "alice" "bob" "m" [1] (some someIdentity) (some tablet),
    .deregister (idleReading 3000) someIdentity tablet (some phone)]

theorem safe_of_active {call : QueueCall} (hreads : ∀ i, call.Reads P s i → i = j)
    (hrecord : s.registry.recordOf j = some record) {seniorityTimestamp : Nat}
    (hstate : record.state = .active d seniorityTimestamp) :
    Safe P s call := by
  refine .inr fun i found hi hfound hunsettled => ?_
  rw [hreads i hi, hrecord] at hfound
  cases hfound
  refine absurd (fun f t start hhandover => ?_) hunsettled
  rw [hstate] at hhandover
  cases hhandover

/-- The message follows: it waits for the phone, which the identity is handed over to. -/
theorem aimed_run_tabletLeaves :
    Along (queueStep exactPlatform) (Safe exactPlatform) (empty none 0) tabletLeaves ∧
    ∃ record, (run (queueStep exactPlatform) (empty none 0) tabletLeaves).registry.recordOf
      someIdentity = some record ∧ Aims record phone := by
  have hnew : Covered exactPlatform (empty none 0)
      (.register (idleReading 1000) someIdentity tablet 1) := nofun
  let first := queueStep exactPlatform (empty none 0)
    (.register (idleReading 1000) someIdentity tablet 1)
  let second := queueStep exactPlatform first
    (.relayRequest (idleReading 2000) "alice" "bob" "m" [1] (some someIdentity) (some tablet))
  have hfirst : first.registry.recordOf someIdentity
      = some ⟨someIdentity, .active tablet 1, 1000⟩ := by decide +kernel
  have hsecond : second.registry.recordOf someIdentity
      = some ⟨someIdentity, .active tablet 1, 1000⟩ := by decide +kernel
  have hsafe : Along (queueStep exactPlatform) (Safe exactPlatform) (empty none 0)
      tabletLeaves := by
    refine ⟨.inr hnew, safe_of_active (fun i hi => ?_) hfirst rfl,
      safe_of_active (fun i hi => ?_) hsecond rfl, trivial⟩
    · have hname := normalizeLookupIdentity_of_exists (P := exactPlatform) rfl isHex64_someIdentity
        (Option.isSome_of_eq_some hfirst)
      exact Option.some.inj (Eq.trans (Eq.symm hi) hname)
    · have hname : normalizeIdentityId exactPlatform someIdentity = .ok someIdentity := by
        unfold normalizeIdentityId
        exact if_pos isHex64_someIdentity
      exact Except.ok.inj (Eq.trans (Eq.symm hi) hname)
  have hwaits : ∃ r ∈ (run (queueStep exactPlatform) (empty none 0) tabletLeaves).values,
      (r.state ≠ .delivered ∧ r.recipientIdentityId = some someIdentity) ∧
        r.intendedDeviceId = some phone := by decide +kernel
  obtain ⟨r, hr, hstate, hdevice⟩ := hwaits
  exact ⟨hsafe, (aimed_run exactPlatform_lawful rfl rfl tabletLeaves hsafe).1 someIdentity r
    phone ⟨hr, hstate⟩ hdevice⟩

/-- Nobody asks for fifteen days. -/
def handoverStale : Nat := 3001 + handoverStaleCollapseMs

/-- A read then makes the identity abandoned, and the message for the phone is still
there. -/
theorem abandoned_with_queue :
    let before := run (queueStep exactPlatform) (empty none 0) tabletLeaves
    let after :=
      queueStep exactPlatform before (.readState (idleReading handoverStale) someIdentity)
    (before.registry.recordOf someIdentity).map RegistrationRecord.state
        = some (.handover tablet phone 3000) ∧
      (after.registry.recordOf someIdentity).map RegistrationRecord.state
        = some (.abandoned tablet handoverStale) ∧
      after.values.map (fun r => (r.state, r.recipientIdentityId, r.intendedDeviceId))
        = [(.accepted, some someIdentity, some phone)] := by
  decide +kernel

end Scm.Transport
