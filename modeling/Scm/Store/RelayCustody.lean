import Scm.Collections
import Scm.Store.RelayRegistry
import Mathlib.Data.List.Sort

/-!
# The relay custody store — `core/src/store/relay_custody.rs`

What a relay keeps for peers that are away. A message is taken into custody as
`Accepted`, becomes `Dispatching` when it is sent on, falls back to `Accepted`
when that fails and is removed when the recipient acknowledges it; under storage
pressure the oldest records are purged. Records live in a key-value backend under
`relay_custody_msg_<destination>_<custody id>`, and the queues are found again by
scanning for keys that start with `relay_custody_msg_<destination>_`.

The backend is modelled by its contents: a map from keys to the values that were
put there, with bincode round trips taken as exact, in three maps because the
three key families have different fixed beginnings. It does not fail. Each call
gets one `Reading` of its surroundings (clock, disk, environment variables). The
audit pipeline that `accept_custody` also calls has no effect on the store.

**The bytes of a record never change**, and a custody id is never used again
(`NoNew`, `acceptCustody_spec`, `Holds`).
-/

namespace Scm.Store

open List

/-! ## Storage pressure -/

/-- `u64::MAX`. -/
def u64Max : Nat := 2 ^ 64 - 1

/-- `u64::saturating_add`. -/
def saturatingAdd (a b : Nat) : Nat := min (a + b) u64Max

/-- `usize::MAX`. -/
def usizeMax : Nat := 2 ^ 64 - 1

/-- `as u64`. -/
def asU64 (n : Nat) : Nat := n % 2 ^ 64

/-- `DEVICE_USAGE_CEILING_PERCENT`. -/
def deviceUsageCeilingPercent : Nat := 90

/-- `FALLBACK_STORAGE_TOTAL_BYTES`. -/
def fallbackStorageTotalBytes : Nat := 8 * 1024 * 1024 * 1024

inductive StoragePressureBand where
  | upTo20Pct
  | from20To50Pct
  | from50To70Pct
  | from70To80Pct
  | from80To90Pct
  | emergencyOver90Pct
  deriving DecidableEq, Repr

structure DeviceStorageSnapshot where
  totalBytes : Nat
  usedBytes : Nat
  deriving DecidableEq, Repr

structure StoragePressureState where
  band : StoragePressureBand
  hardCeilingBytes : Nat
  targetQuotaBytes : Nat
  scmBytes : Nat
  deriving DecidableEq, Repr

def StoragePressureState.emergencyMode (state : StoragePressureState) : Bool :=
  state.band = .emergencyOver90Pct

structure StoragePressureReport where
  emergencyMode : Bool
  hardCeilingBytes : Nat
  targetQuotaBytes : Nat
  scmBytesBefore : Nat
  scmBytesAfter : Nat
  purgedRecords : Nat
  purgedBytes : Nat
  deriving DecidableEq, Repr

structure StoragePressureContext where
  totalBytes : Nat
  nonScmUsedBytes : Nat
  deriving DecidableEq, Repr

/-- What one call reads from outside: the clock, the disk probe, which a write asks a
second time, and the variables `SCM_STORAGE_TOTAL_BYTES` and `SCM_STORAGE_USED_BYTES` where
they parse. -/
structure Reading where
  now : Nat
  snapshot : Option DeviceStorageSnapshot
  writeSnapshot : Option DeviceStorageSnapshot
  storageTotal : Option Nat
  storageUsed : Option Nat
  deriving DecidableEq, Repr

/-- `synthetic_storage_snapshot`. -/
def syntheticStorageSnapshot (env : Reading) (scmBytes : Nat) : Option DeviceStorageSnapshot :=
  let totalBytes := (env.storageTotal.filter (0 < ·)).getD fallbackStorageTotalBytes
  let usedBytes := (env.storageUsed.map (max · scmBytes)).getD scmBytes
  if totalBytes = 0 then none
  else some { totalBytes, usedBytes := min usedBytes totalBytes }

namespace StoragePressureContext

/-- `StoragePressureContext::from_snapshot`. -/
def fromSnapshot (snapshot : DeviceStorageSnapshot) (scmBytes : Nat) :
    Option StoragePressureContext :=
  if snapshot.totalBytes = 0 then none
  else
    let usedBytes := min snapshot.usedBytes snapshot.totalBytes
    some { totalBytes := snapshot.totalBytes, nonScmUsedBytes := usedBytes - scmBytes }

/-- `StoragePressureContext::state_for_scm_bytes`. -/
def stateForScmBytes (c : StoragePressureContext) (scmBytes : Nat) : StoragePressureState :=
  let usedBytes := saturatingAdd c.nonScmUsedBytes scmBytes
  let usedPercentBasisPoints := asU64 (usedBytes * 10000 / c.totalBytes)
  let freeBytes := c.totalBytes - usedBytes
  let ninetyPercentTotal := asU64 (c.totalBytes * deviceUsageCeilingPercent / 100)
  let hardCeilingBytes := ninetyPercentTotal - c.nonScmUsedBytes
  let (band, bandPercent) :=
    if usedPercentBasisPoints ≤ 2000 then (StoragePressureBand.upTo20Pct, 70)
    else if usedPercentBasisPoints ≤ 5000 then (.from20To50Pct, 45)
    else if usedPercentBasisPoints ≤ 7000 then (.from50To70Pct, 25)
    else if usedPercentBasisPoints ≤ 8000 then (.from70To80Pct, 10)
    else if usedPercentBasisPoints ≤ 9000 then (.from80To90Pct, 3)
    else (.emergencyOver90Pct, 0)
  let dynamicTarget :=
    if band = .emergencyOver90Pct then hardCeilingBytes
    else asU64 (freeBytes * bandPercent / 100)
  { band, hardCeilingBytes, targetQuotaBytes := min dynamicTarget hardCeilingBytes, scmBytes }

end StoragePressureContext

/-! ## Records and the store -/

/-- `MAX_PENDING_PER_DESTINATION`. -/
def maxPendingPerDestination : Nat := 10000

/-- `MAX_DELIVERY_ATTEMPTS`. -/
def maxDeliveryAttempts : Nat := 12

inductive CustodyState where
  | accepted
  | dispatching
  | delivered
  deriving DecidableEq, Repr

/-- `CustodyState::as_str`. -/
def CustodyState.asStr : CustodyState → String
  | .accepted => "accepted"
  | .dispatching => "dispatching"
  | .delivered => "delivered"

structure CustodyMessage where
  custodyId : String
  relayMessageId : String
  sourcePeerId : String
  destinationPeerId : String
  recipientIdentityId : Option String
  intendedDeviceId : Option String
  envelopeData : Bytes
  state : CustodyState
  acceptedAtMs : Nat
  updatedAtMs : Nat
  deliveryAttempts : Nat
  deriving DecidableEq, Repr

structure CustodyTransition where
  custodyId : String
  relayMessageId : String
  sourcePeerId : String
  destinationPeerId : String
  fromState : Option CustodyState
  toState : CustodyState
  reason : String
  atMs : Nat
  sequence : Nat
  deriving DecidableEq, Repr

inductive CustodyCompatMode where
  | phaseA
  | phaseB
  deriving DecidableEq, Repr

structure StoredCustodyRecord where
  record : CustodyMessage
  serializedBytes : Nat
  deriving DecidableEq, Repr

structure RelayCustodyStore where
  messages : AList fun _ : String => CustodyMessage
  transitions : AList fun _ : String => CustodyTransition
  registry : RelayRegistry
  localIdentity : Option String
  compatMode : CustodyCompatMode
  ws13Requests : Nat
  legacyRequests : Nat

/-- `destination_prefix`. -/
def destinationPrefix (destinationPeerId : String) : String :=
  "relay_custody_msg_" ++ destinationPeerId ++ "_"

/-- `message_key`. -/
def messageKey (destinationPeerId custodyId : String) : String :=
  destinationPrefix destinationPeerId ++ custodyId

/-- The custody id of `accept_custody`: `{relay_message_id}-{now_ms}-{sequence}`. -/
def formatCustodyId (relayMessageId : String) (now sequence : Nat) : String :=
  relayMessageId ++ "-" ++ toString now ++ "-" ++ toString sequence

def stringBytes (s : String) : Nat := 8 + s.utf8ByteSize

def optionStringBytes : Option String → Nat
  | none => 1
  | some s => 1 + stringBytes s

/-- `serialized_record_bytes`: the length of the record's bincode form. -/
def serializedRecordBytes (r : CustodyMessage) : Nat :=
  stringBytes r.custodyId + stringBytes r.relayMessageId + stringBytes r.sourcePeerId +
    stringBytes r.destinationPeerId + optionStringBytes r.recipientIdentityId +
    optionStringBytes r.intendedDeviceId + (8 + r.envelopeData.length) + 4 + 8 + 8 + 4

/-- `StoredCustodyRecord::delivery_priority`. -/
def StoredCustodyRecord.deliveryPriority (c : StoredCustodyRecord) : Nat :=
  if c.record.state = .delivered then 0 else 1

namespace RelayCustodyStore

/-- The stored records, in the backend's iteration order. -/
def values (s : RelayCustodyStore) : List CustodyMessage := s.messages.entries.map Sigma.snd

/-- `scan_prefix`: the records whose key starts with `start`. -/
def scanPrefix (s : RelayCustodyStore) (start : String) : List CustodyMessage :=
  (s.messages.entries.filter fun entry => start.toList.isPrefixOf entry.1.toList).map Sigma.snd

/-- `put_message`. -/
def putMessage (s : RelayCustodyStore) (record : CustodyMessage) : RelayCustodyStore :=
  { s with
    messages := s.messages.insert (messageKey record.destinationPeerId record.custodyId) record }

/-- `remove_message`. -/
def removeMessage (s : RelayCustodyStore) (destinationPeerId custodyId : String) :
    RelayCustodyStore :=
  { s with messages := s.messages.erase (messageKey destinationPeerId custodyId) }

/-- `get_message`. -/
def getMessage (s : RelayCustodyStore) (destinationPeerId custodyId : String) :
    Option CustodyMessage :=
  s.messages.lookup (messageKey destinationPeerId custodyId)

/-- `require_record`. -/
def requireRecord (s : RelayCustodyStore) (destinationPeerId custodyId : String) :
    Except String CustodyMessage :=
  match s.getMessage destinationPeerId custodyId with
  | some record => .ok record
  | none => .error ("custody record not found: " ++ custodyId)

/-- `RelayCustodyStore::record_transition`. -/
def recordTransition (s : RelayCustodyStore) (now : Nat) (record : CustodyMessage)
    (fromState : Option CustodyState) (toState : CustodyState) (reason : String) :
    RelayCustodyStore :=
  let sequence := s.registry.sequence
  let key := "relay_custody_audit_" ++ padded 20 now ++ "_" ++ padded 6 sequence ++ "_" ++
    record.custodyId ++ "_" ++ toState.asStr
  { s with
    transitions := s.transitions.insert key
      { custodyId := record.custodyId, relayMessageId := record.relayMessageId
        sourcePeerId := record.sourcePeerId, destinationPeerId := record.destinationPeerId
        fromState, toState, reason, atMs := now, sequence }
    registry := { s.registry with sequence := sequence + 1 } }

/-- `find_existing`. -/
def findExisting (s : RelayCustodyStore) (destinationPeerId relayMessageId : String) :
    Option CustodyMessage :=
  (s.scanPrefix (destinationPrefix destinationPeerId)).find? fun record =>
    record.relayMessageId = relayMessageId

/-- The order of `pending_for_destination`: acceptance time, then custody id. -/
def pendingLe (a b : CustodyMessage) : Prop :=
  a.acceptedAtMs < b.acceptedAtMs ∨ a.acceptedAtMs = b.acceptedAtMs ∧ a.custodyId ≤ b.custodyId

instance : DecidableRel pendingLe := fun _ _ => inferInstanceAs (Decidable (_ ∨ _))

/-- `pending_for_destination`. -/
def pendingForDestination (s : RelayCustodyStore) (destinationPeerId : String) (limit : Nat) :
    List CustodyMessage :=
  (((s.scanPrefix (destinationPrefix destinationPeerId)).filter fun record =>
    record.state = .accepted).insertionSort pendingLe).take limit

/-- `is_identity_related_record`. -/
def isIdentityRelatedRecord (s : RelayCustodyStore) (record : CustodyMessage) : Bool :=
  match s.localIdentity with
  | none => false
  | some localIdentity =>
    record.sourcePeerId = localIdentity ∨ record.destinationPeerId = localIdentity

/-- `current_scm_storage_bytes`. -/
def currentScmStorageBytes (s : RelayCustodyStore) : Nat :=
  (s.values.map serializedRecordBytes).sum

/-- `load_stored_records`. -/
def loadStoredRecords (s : RelayCustodyStore) : List StoredCustodyRecord :=
  s.values.map fun record => { record, serializedBytes := serializedRecordBytes record }

/-- The purge order: foreign records first, then delivered ones, then the oldest. -/
def purgeLe (s : RelayCustodyStore) (a b : StoredCustodyRecord) : Prop :=
  let related := (s.isIdentityRelatedRecord ·.record)
  related a < related b ∨ related a = related b ∧
    (a.deliveryPriority < b.deliveryPriority ∨ a.deliveryPriority = b.deliveryPriority ∧
      pendingLe a.record b.record)

instance (s : RelayCustodyStore) : DecidableRel s.purgeLe := fun _ _ =>
  inferInstanceAs (Decidable (_ ∨ _))

/-- The loop of `purge_oldest_by_policy`, with its two counters. -/
def purgeLoop (now : Nat) (reason : String) :
    List StoredCustodyRecord → Nat → Nat → Nat → RelayCustodyStore → (Nat × Nat) × RelayCustodyStore
  | [], _, purgedRecords, purgedBytes, s => ((purgedRecords, purgedBytes), s)
  | candidate :: candidates, required, purgedRecords, purgedBytes, s =>
    if required = 0 then ((purgedRecords, purgedBytes), s)
    else
      let record := candidate.record
      let noted := s.recordTransition now record (some record.state) record.state
        (reason ++ "_purged")
      purgeLoop now reason candidates (required - candidate.serializedBytes) (purgedRecords + 1)
        (saturatingAdd purgedBytes candidate.serializedBytes)
        (noted.removeMessage record.destinationPeerId record.custodyId)

/-- `purge_oldest_by_policy`. -/
def purgeOldestByPolicy (s : RelayCustodyStore) (now required : Nat) (reason : String) :
    (Nat × Nat) × RelayCustodyStore :=
  if required = 0 then ((0, 0), s)
  else purgeLoop now reason (s.loadStoredRecords.insertionSort s.purgeLe) required 0 0 s

/-- `enforce_storage_pressure_internal`. -/
def enforceStoragePressureInternal (s : RelayCustodyStore) (env : Reading)
    (incoming : Option CustodyMessage) : Except String StoragePressureReport × RelayCustodyStore :=
  let scmBefore := s.currentScmStorageBytes
  match env.snapshot.or (syntheticStorageSnapshot env scmBefore) with
  | none => (.error "invalid_storage_snapshot", s)
  | some snapshot =>
    match StoragePressureContext.fromSnapshot snapshot scmBefore with
    | none => (.error "invalid_storage_snapshot", s)
    | some context =>
      let state := context.stateForScmBytes scmBefore
      let report : StoragePressureReport :=
        { emergencyMode := state.emergencyMode, hardCeilingBytes := state.hardCeilingBytes
          targetQuotaBytes := state.targetQuotaBytes, scmBytesBefore := scmBefore
          scmBytesAfter := scmBefore, purgedRecords := 0, purgedBytes := 0 }
      if state.emergencyMode ∧ (incoming.map fun r => !s.isIdentityRelatedRecord r).getD false then
        -- a foreign write in an emergency: make room below the ceiling, the caller rejects
        let ((records, bytes), s) := s.purgeOldestByPolicy env.now
          (scmBefore - state.hardCeilingBytes) "storage_pressure_emergency"
        (.ok { report with purgedRecords := records, purgedBytes := bytes
                           scmBytesAfter := scmBefore - bytes }, s)
      else
        let ((records, bytes), s) := s.purgeOldestByPolicy env.now
          (scmBefore - state.targetQuotaBytes) "storage_pressure_target_quota"
        let scmBytes := scmBefore - bytes
        let state := context.stateForScmBytes scmBytes
        let ((moreRecords, moreBytes), s) := s.purgeOldestByPolicy env.now
          (scmBytes - state.hardCeilingBytes) "storage_pressure_hard_ceiling"
        let scmBytes := scmBytes - moreBytes
        let state := context.stateForScmBytes scmBytes
        (.ok { report with
          purgedRecords := records + moreRecords, purgedBytes := saturatingAdd bytes moreBytes
          scmBytesAfter := scmBytes, targetQuotaBytes := state.targetQuotaBytes
          hardCeilingBytes := state.hardCeilingBytes, emergencyMode := state.emergencyMode }, s)

/-- The two purges of `enforce_storage_pressure_for_write`, which differ in the
bound they purge to: the bytes left and the store. -/
def purgeFor (s : RelayCustodyStore) (now scmBytes writeBytes bound : Nat) (reason : String) :
    Nat × RelayCustodyStore :=
  let projected := saturatingAdd scmBytes writeBytes
  if projected > bound then
    let ((_, purged), s) := s.purgeOldestByPolicy now (projected - bound) reason
    (scmBytes - purged, s)
  else (scmBytes, s)

/-- `enforce_storage_pressure_for_write`. -/
def enforceStoragePressureForWrite (s : RelayCustodyStore) (env : Reading)
    (incoming : CustodyMessage) : Except String Unit × RelayCustodyStore :=
  match s.enforceStoragePressureInternal env (some incoming) with
  | (.error e, s) => (.error e, s)
  | (.ok report, s) =>
    match env.writeSnapshot with
    | none => (.ok (), s)
    | some snapshot =>
      let writeBytes := serializedRecordBytes incoming
      match StoragePressureContext.fromSnapshot snapshot report.scmBytesAfter with
      | none => (.error "invalid_storage_snapshot", s)
      | some context =>
        let state := context.stateForScmBytes report.scmBytesAfter
        if state.emergencyMode ∧ ¬ s.isIdentityRelatedRecord incoming then
          (.error "emergency_mode_non_critical_rejected", s)
        else
          let (scmBytes, s) := s.purgeFor env.now report.scmBytesAfter writeBytes
            state.targetQuotaBytes "storage_pressure_target_quota"
          let state := context.stateForScmBytes scmBytes
          let (scmBytes, s) := s.purgeFor env.now scmBytes writeBytes state.hardCeilingBytes
            "storage_pressure_hard_ceiling"
          let state := context.stateForScmBytes scmBytes
          let projected := saturatingAdd scmBytes writeBytes
          if projected > state.targetQuotaBytes ∨ projected > state.hardCeilingBytes then
            (.error ("storage_pressure_capacity_exceeded: projected=" ++ toString projected ++
              " target=" ++ toString state.targetQuotaBytes ++
              " hard_ceiling=" ++ toString state.hardCeilingBytes), s)
          else (.ok (), s)

/-- The device check of `accept_custody`: the reason to record, or the refusal.
Without a recipient identity nothing is checked; without a device the compat mode
only names the reason. -/
def checkDevice (P : Platform) (s : RelayCustodyStore) (now : Nat)
    (identityId deviceId : Option String) : Except String String × RelayCustodyStore :=
  match identityId, deviceId with
  | none, _ => (.ok "custody_accepted", s)
  | some identityId, some deviceId =>
    match s.registry.enforceCustody P now identityId deviceId with
    | (.error error, registry) => (.error error.asCode, { s with registry })
    | (.ok _, registry) =>
      (.ok "custody_accepted", { s with registry, ws13Requests := s.ws13Requests + 1 })
  | some _, none =>
    let reason := match s.compatMode with
      | .phaseA => "custody_accepted_compat_phase_a"
      | .phaseB => "custody_accepted_compat_phase_b"
    (.ok reason, { s with legacyRequests := s.legacyRequests + 1 })

/-- `CUSTODY_SEQUENCE.fetch_add(1)`. -/
def drawSequence (s : RelayCustodyStore) : RelayCustodyStore :=
  { s with registry := { s.registry with sequence := s.registry.sequence + 1 } }

/-- The record `accept_custody` writes. -/
def acceptedMessage (now sequence : Nat) (sourcePeerId destinationPeerId relayMessageId : String)
    (envelopeData : Bytes) (recipientIdentityId intendedDeviceId : Option String) :
    CustodyMessage :=
  { custodyId := formatCustodyId relayMessageId now sequence
    relayMessageId, sourcePeerId, destinationPeerId, recipientIdentityId, intendedDeviceId
    envelopeData, state := .accepted, acceptedAtMs := now, updatedAtMs := now
    deliveryAttempts := 0 }

/-- `accept_custody`. -/
def acceptCustody (P : Platform) (env : Reading) (sourcePeerId destinationPeerId
    relayMessageId : String) (envelopeData : Bytes)
    (recipientIdentityId intendedDeviceId : Option String) (s : RelayCustodyStore) :
    Except String CustodyMessage × RelayCustodyStore :=
  match s.findExisting destinationPeerId relayMessageId with
  | some existing => (.ok existing, s)
  | none =>
    let recipientIdentityId := recipientIdentityId.bind (s.registry.normalizeLookupIdentity P)
    let intendedDeviceId := (intendedDeviceId.map P.trim).filter fun value => !value.isEmpty
    match s.checkDevice P env.now recipientIdentityId intendedDeviceId with
    | (.error e, s) => (.error e, s)
    | (.ok reason, s) =>
      if (s.pendingForDestination destinationPeerId usizeMax).length ≥ maxPendingPerDestination then
        (.error ("custody queue full for destination " ++ destinationPeerId), s)
      else
        let message := acceptedMessage env.now s.registry.sequence sourcePeerId destinationPeerId
          relayMessageId envelopeData recipientIdentityId intendedDeviceId
        match s.drawSequence.enforceStoragePressureForWrite env message with
        | (.error e, s) => (.error e, s)
        | (.ok (), s) =>
          (.ok message,
            (s.putMessage message).recordTransition env.now message none .accepted reason)

/-- `mark_dispatching`. -/
def markDispatching (s : RelayCustodyStore) (env : Reading)
    (destinationPeerId custodyId reason : String) : Except String Unit × RelayCustodyStore :=
  match s.requireRecord destinationPeerId custodyId with
  | .error e => (.error e, s)
  | .ok record =>
    if record.state = .dispatching ∨ record.state = .delivered then (.ok (), s)
    else if record.deliveryAttempts ≥ maxDeliveryAttempts then
      (.error ("Max delivery attempts (" ++ toString maxDeliveryAttempts ++
        ") exceeded for custody " ++ custodyId), s)
    else
      let moved := { record with
        state := .dispatching, updatedAtMs := env.now
        deliveryAttempts := record.deliveryAttempts + 1 }
      (.ok (), (s.putMessage moved).recordTransition env.now moved (some record.state) .dispatching
        reason)

/-- `mark_dispatch_failed`. -/
def markDispatchFailed (s : RelayCustodyStore) (env : Reading)
    (destinationPeerId custodyId reason : String) : Except String Unit × RelayCustodyStore :=
  match s.requireRecord destinationPeerId custodyId with
  | .error e => (.error e, s)
  | .ok record =>
    if record.state = .accepted ∨ record.state = .delivered then (.ok (), s)
    else
      let moved := { record with state := .accepted, updatedAtMs := env.now }
      (.ok (), (s.putMessage moved).recordTransition env.now moved (some record.state) .accepted
        reason)

/-- `mark_delivered`. -/
def markDelivered (s : RelayCustodyStore) (env : Reading)
    (destinationPeerId custodyId reason : String) : Except String Unit × RelayCustodyStore :=
  match s.requireRecord destinationPeerId custodyId with
  | .error e => (.error e, s)
  | .ok record =>
    if record.state = .delivered then (.ok (), s)
    else
      let moved := { record with state := .delivered, updatedAtMs := env.now }
      (.ok (), (s.recordTransition env.now moved (some record.state) .delivered
        reason).removeMessage
        destinationPeerId custodyId)

/-- The loop of `converge_delivered_for_message`, with its counter. -/
def convergeLoop (now : Nat) (destinationPeerId reason : String) :
    List CustodyMessage → Nat → RelayCustodyStore → Nat × RelayCustodyStore
  | [], converged, s => (converged, s)
  | record :: records, converged, s =>
    if record.state = .delivered then convergeLoop now destinationPeerId reason records converged s
    else
      let moved := { record with state := .delivered, updatedAtMs := now }
      let noted := s.recordTransition now moved (some record.state) .delivered reason
      convergeLoop now destinationPeerId reason records (converged + 1)
        (noted.removeMessage destinationPeerId record.custodyId)

/-- `converge_delivered_for_message`. -/
def convergeDeliveredForMessage (s : RelayCustodyStore) (env : Reading)
    (destinationPeerId relayMessageId reason : String) : Nat × RelayCustodyStore :=
  convergeLoop env.now destinationPeerId reason
    ((s.scanPrefix (destinationPrefix destinationPeerId)).filter fun record =>
      record.relayMessageId = relayMessageId) 0 s

/-! ## What an operation can do to the records -/

variable {r : CustodyMessage} {s : RelayCustodyStore} {destination : String}

theorem mem_values :
    r ∈ s.values ↔ ∃ key, ⟨key, r⟩ ∈ s.messages.entries := by
  rw [values, mem_map]
  constructor
  · grind
  · grind

theorem mem_values_of_mem_scanPrefix {start : String} (h : r ∈ s.scanPrefix start) :
    r ∈ s.values := by
  obtain ⟨entry, hmem, rfl⟩ := mem_map.mp h
  exact mem_map.mpr ⟨entry, (mem_filter.mp hmem).1, rfl⟩

theorem mem_values_of_mem_pending {limit : Nat} (h : r ∈ s.pendingForDestination destination limit)
    : r ∈ s.values := by
  have hsorted := mem_of_mem_take h
  rw [mem_insertionSort, mem_filter] at hsorted
  exact mem_values_of_mem_scanPrefix hsorted.1

theorem mem_values_of_requireRecord {custodyId : String}
    (h : s.requireRecord destination custodyId = .ok r) : r ∈ s.values := by
  unfold requireRecord at h
  split at h
  next record hget =>
    cases h
    exact mem_values.mpr ⟨_, AList.mem_lookup_iff.mp hget⟩
  next => cases h

theorem mem_values_putMessage {record : CustodyMessage} (h : r ∈ (s.putMessage record).values) :
    r = record ∨ r ∈ s.values := by
  obtain ⟨key, hmem⟩ := mem_values.mp h
  have hentries : (⟨key, r⟩ : Sigma fun _ : String => CustodyMessage) ∈
      (s.messages.insert (messageKey record.destinationPeerId record.custodyId) record).entries :=
    hmem
  rw [AList.entries_insert] at hentries
  rcases mem_cons.mp hentries with heq | hold
  · cases heq
    exact .inl rfl
  · exact .inr (mem_values.mpr ⟨key, (kerase_sublist _ _).subset hold⟩)

theorem mem_values_removeMessage {custodyId : String}
    (h : r ∈ (s.removeMessage destination custodyId).values) :
    r ∈ s.values := by
  obtain ⟨key, hmem⟩ := mem_values.mp h
  exact mem_values.mpr ⟨key, (kerase_sublist _ _).subset hmem⟩

/-- From `s` to `s'` no record appeared: what is stored carries the custody id and
the bytes of something that was. Sequence numbers only go up. -/
structure NoNew (s s' : RelayCustodyStore) : Prop where
  sequence_le : s.registry.sequence ≤ s'.registry.sequence
  origin : ∀ r' ∈ s'.values, ∃ r ∈ s.values,
    r.custodyId = r'.custodyId ∧ r.envelopeData = r'.envelopeData

theorem NoNew.refl (s : RelayCustodyStore) : NoNew s s :=
  ⟨Nat.le_refl _, fun r hr => ⟨r, hr, rfl, rfl⟩⟩

theorem NoNew.trans {t u : RelayCustodyStore} (hst : NoNew s t) (htu : NoNew t u) :
    NoNew s u := by
  refine ⟨hst.sequence_le.trans htu.sequence_le, fun r hr => ?_⟩
  obtain ⟨r₁, hr₁, hid₁, hdata₁⟩ := htu.origin r hr
  obtain ⟨r₀, hr₀, hid₀, hdata₀⟩ := hst.origin r₁ hr₁
  exact ⟨r₀, hr₀, hid₀.trans hid₁, hdata₀.trans hdata₁⟩

theorem NoNew.of_eq {β : Type} {t : RelayCustodyStore} {p : β × RelayCustodyStore} {b : β}
    (hp : NoNew s p.2) (h : p = (b, t)) : NoNew s t := by
  rw [h] at hp
  exact hp

theorem NoNew.of_messages_eq {s' : RelayCustodyStore} (hmessages : s'.messages = s.messages)
    (hsequence : s.registry.sequence ≤ s'.registry.sequence) : NoNew s s' := by
  refine ⟨hsequence, fun r hr => ⟨r, ?_, rfl, rfl⟩⟩
  rwa [values, hmessages] at hr

theorem noNew_recordTransition (s : RelayCustodyStore) (now : Nat) (record : CustodyMessage)
    (fromState : Option CustodyState) (toState : CustodyState) (reason : String) :
    NoNew s (s.recordTransition now record fromState toState reason) :=
  .of_messages_eq rfl (Nat.le_succ _)

theorem noNew_removeMessage (s : RelayCustodyStore) (destination custodyId : String) :
    NoNew s (s.removeMessage destination custodyId) :=
  ⟨Nat.le_refl _, fun r hr => ⟨r, mem_values_removeMessage hr, rfl, rfl⟩⟩

/-- Writing back a stored record with its id and bytes unchanged, and noting it. -/
theorem noNew_move {record moved : CustodyMessage} {now : Nat} {fromState : Option CustodyState}
    {toState : CustodyState} {reason : String} (hmem : record ∈ s.values)
    (hid : record.custodyId = moved.custodyId) (hdata : record.envelopeData = moved.envelopeData) :
    NoNew s ((s.putMessage moved).recordTransition now moved fromState toState reason) := by
  refine NoNew.trans (t := s.putMessage moved) ⟨Nat.le_refl _, fun r hr => ?_⟩
    (noNew_recordTransition _ _ _ _ _ _)
  rcases mem_values_putMessage hr with rfl | hold
  · exact ⟨record, hmem, hid, hdata⟩
  · exact ⟨r, hold, rfl, rfl⟩

/-! What is kept when one record is purged, a whole purge keeps. -/

section
variable {p : RelayCustodyStore → Prop} {now : Nat}
  (hone : ∀ (t : RelayCustodyStore) (record : CustodyMessage) reason, p t →
    p ((t.recordTransition now record (some record.state) record.state reason).removeMessage
      record.destinationPeerId record.custodyId))
include hone

theorem purgeLoop_keeps (reason : String) (candidates : List StoredCustodyRecord) :
    ∀ (required records bytes : Nat) (s : RelayCustodyStore), p s →
      p (purgeLoop now reason candidates required records bytes s).2 := by
  induction candidates with
  | nil => exact fun _ _ _ _ hs => hs
  | cons candidate candidates ih =>
    intro required records bytes s hs
    unfold purgeLoop
    split
    next => exact hs
    next => exact ih _ _ _ _ (hone s _ _ hs)

theorem purgeOldestByPolicy_keeps {s : RelayCustodyStore} (hs : p s) (required : Nat)
    (reason : String) : p (s.purgeOldestByPolicy now required reason).2 := by
  unfold purgeOldestByPolicy
  split
  next => exact hs
  next => exact purgeLoop_keeps hone _ _ _ _ _ s hs

end

theorem noNew_purgeOldestByPolicy (s : RelayCustodyStore) (now required : Nat) (reason : String) :
    NoNew s (s.purgeOldestByPolicy now required reason).2 :=
  purgeOldestByPolicy_keeps (fun t record _ ht =>
    (ht.trans (noNew_recordTransition t now record _ _ _)).trans (noNew_removeMessage _ _ _))
    (NoNew.refl s) required reason

/-! What every purge keeps, the pressure check keeps. -/

section
variable {p : RelayCustodyStore → Prop} {s : RelayCustodyStore} {env : Reading}
  (hpurge : ∀ t required reason, p t → p (t.purgeOldestByPolicy env.now required reason).2)
include hpurge

theorem enforceStoragePressureInternal_keeps (hs : p s) (incoming : Option CustodyMessage) :
    p (s.enforceStoragePressureInternal env incoming).2 := by
  unfold enforceStoragePressureInternal
  dsimp only
  split
  next => exact hs
  split
  next => exact hs
  split
  next => exact hpurge _ _ _ hs
  next => exact hpurge _ _ _ (hpurge _ _ _ hs)

theorem purgeFor_keeps (hs : p s) (scmBytes writeBytes bound : Nat) (reason : String) :
    p (s.purgeFor env.now scmBytes writeBytes bound reason).2 := by
  unfold purgeFor
  dsimp only
  split
  next => exact hpurge _ _ _ hs
  next => exact hs

theorem enforceStoragePressureForWrite_keeps (hs : p s) (incoming : CustodyMessage) :
    p (s.enforceStoragePressureForWrite env incoming).2 := by
  have hinternal := enforceStoragePressureInternal_keeps hpurge hs (some incoming)
  unfold enforceStoragePressureForWrite
  cases heq : s.enforceStoragePressureInternal env (some incoming) with
  | mk result t =>
    rw [heq] at hinternal
    cases result with
    | error e => exact hinternal
    | ok report =>
      dsimp only
      split
      next => exact hinternal
      split
      next => exact hinternal
      split
      next => exact hinternal
      have hboth := fun n m b n' m' b' => purgeFor_keeps hpurge
        (purgeFor_keeps hpurge hinternal n m b "storage_pressure_target_quota")
        n' m' b' "storage_pressure_hard_ceiling"
      split
      all_goals exact hboth _ _ _ _ _ _

end

theorem noNew_enforceStoragePressureForWrite (s : RelayCustodyStore) (env : Reading)
    (incoming : CustodyMessage) : NoNew s (s.enforceStoragePressureForWrite env incoming).2 :=
  enforceStoragePressureForWrite_keeps
    (fun t _ _ ht => ht.trans (noNew_purgeOldestByPolicy t _ _ _)) (NoNew.refl s) incoming

theorem noNew_of_enforceCustody {P : Platform} {u : RelayCustodyStore} {now : Nat}
    {identityId deviceId : String} {result : Except CustodyError CustodyEnforcement}
    {registry : RelayRegistry}
    (h : s.registry.enforceCustody P now identityId deviceId = (result, registry))
    (hmessages : u.messages = s.messages) (hregistry : u.registry = registry) : NoNew s u := by
  have hseq := s.registry.sequence_le_enforceCustody P now identityId deviceId
  rw [h, ← hregistry] at hseq
  exact .of_messages_eq hmessages hseq

theorem noNew_checkDevice (P : Platform) (s : RelayCustodyStore) (now : Nat)
    (identityId deviceId : Option String) :
    NoNew s (s.checkDevice P now identityId deviceId).2 := by
  unfold checkDevice
  split
  next => exact .refl s
  next => grind [noNew_of_enforceCustody]
  next => exact .of_messages_eq rfl (Nat.le_refl _)

section
variable (s : RelayCustodyStore) (env : Reading) (destination custodyId reason : String)

theorem noNew_markDispatching : NoNew s (s.markDispatching env destination custodyId reason).2 := by
  unfold markDispatching
  split
  next => exact .refl s
  next record hrecord =>
    split
    next => exact .refl s
    split
    next => exact .refl s
    exact noNew_move (mem_values_of_requireRecord hrecord) rfl rfl

theorem noNew_markDispatchFailed :
    NoNew s (s.markDispatchFailed env destination custodyId reason).2 := by
  unfold markDispatchFailed
  split
  next => exact .refl s
  next record hrecord =>
    split
    next => exact .refl s
    exact noNew_move (mem_values_of_requireRecord hrecord) rfl rfl

theorem noNew_markDelivered : NoNew s (s.markDelivered env destination custodyId reason).2 := by
  unfold markDelivered
  split
  next => exact .refl s
  split
  next => exact .refl s
  next => exact (noNew_recordTransition s _ _ _ _ _).trans (noNew_removeMessage _ _ _)

end

theorem noNew_convergeLoop (now : Nat) (destination reason : String)
    (records : List CustodyMessage) : ∀ (converged : Nat) (s : RelayCustodyStore),
      NoNew s (convergeLoop now destination reason records converged s).2 := by
  induction records with
  | nil => exact fun _ s => .refl s
  | cons record records ih =>
    intro converged s
    unfold convergeLoop
    split
    next => exact ih _ s
    exact ((noNew_recordTransition s _ _ _ _ _).trans (noNew_removeMessage _ _ _)).trans
      (ih _ _)

theorem noNew_convergeDeliveredForMessage (s : RelayCustodyStore) (env : Reading)
    (destination relayMessageId reason : String) :
    NoNew s (s.convergeDeliveredForMessage env destination relayMessageId reason).2 :=
  noNew_convergeLoop _ _ _ _ _ _

/-- What acceptance does: nothing new, or exactly one new record with the bytes it
was given and an id made from a number drawn in this call. -/
theorem acceptCustody_spec (P : Platform) (env : Reading)
    (source destination relayMessageId : String) (envelopeData : Bytes)
    (identityId deviceId : Option String) (s : RelayCustodyStore) :
    let s' := (s.acceptCustody P env source destination relayMessageId envelopeData identityId
      deviceId).2
    NoNew s s' ∨ ∃ message sequence,
      message.custodyId = formatCustodyId relayMessageId env.now sequence ∧
      message.envelopeData = envelopeData ∧
      s.registry.sequence ≤ sequence ∧ sequence < s'.registry.sequence ∧
      ∀ r' ∈ s'.values, r' = message ∨ ∃ r ∈ s.values,
        r.custodyId = r'.custodyId ∧ r.envelopeData = r'.envelopeData := by
  unfold acceptCustody
  dsimp only
  split
  next => exact .inl (.refl s)
  split
  next heq => exact .inl ((noNew_checkDevice P s env.now _ _).of_eq heq)
  next reason t heq =>
    have hcheck : NoNew s t := (noNew_checkDevice P s env.now _ _).of_eq heq
    split
    next => exact .inl hcheck
    have hdrawn : NoNew s t.drawSequence :=
      hcheck.trans (.of_messages_eq rfl (Nat.le_succ _))
    split
    next hwrite =>
      exact .inl (hdrawn.trans ((noNew_enforceStoragePressureForWrite _ env _).of_eq hwrite))
    next u hwrite =>
      have hpressure := (noNew_enforceStoragePressureForWrite _ env _).of_eq hwrite
      refine .inr ⟨acceptedMessage env.now t.registry.sequence source destination
        relayMessageId envelopeData (identityId.bind (s.registry.normalizeLookupIdentity P))
        ((deviceId.map P.trim).filter fun value => !value.isEmpty),
        t.registry.sequence, rfl, rfl, hcheck.sequence_le,
        Nat.lt_succ_of_le (Nat.le_of_succ_le hpressure.sequence_le), fun r' hr' => ?_⟩
      rcases mem_values_putMessage hr' with rfl | hold
      · exact .inl rfl
      · exact .inr ((hdrawn.trans hpressure).origin r' hold)

end RelayCustodyStore

/-! ## Custody ids are not reused -/

theorem dash_notMem_toString (n : Nat) : '-' ∉ (toString n).toList := by
  intro hmem
  rw [Nat.toString_eq_repr, Nat.toList_repr] at hmem
  exact absurd (Nat.isDigit_of_mem_toDigits (by decide) (by decide) hmem) (by decide)

theorem formatCustodyId_sequence_inj {m m' : String} {now now' n n' : Nat}
    (h : formatCustodyId m now n = formatCustodyId m' now' n') : n = n' := by
  have hlist (m : String) (now n : Nat) : (formatCustodyId m now n).toList =
      (m ++ "-" ++ toString now).toList ++ '-' :: (toString n).toList := by
    simp_all [formatCustodyId]
  have hlist := (hlist m now n).symm.trans ((congrArg String.toList h).trans (hlist m' now' n'))
  have hdigits :=
    Collections.eq_of_append_cons_eq (dash_notMem_toString n) (dash_notMem_toString n') hlist
  exact Collections.toString_inj (String.toList_inj.mp hdigits)

namespace RelayCustodyStore

/-- The custody id has been issued, and whatever is stored under it has these bytes. -/
structure Holds (custodyId : String) (envelopeData : Bytes) (s : RelayCustodyStore) :
    Prop where
  issued : ∃ m now sequence, custodyId = formatCustodyId m now sequence ∧
    sequence < s.registry.sequence
  unchanged : ∀ r ∈ s.values, r.custodyId = custodyId → r.envelopeData = envelopeData

variable {s : RelayCustodyStore}

section
variable {custodyId : String} {data : Bytes} {s' : RelayCustodyStore}
  (h : Holds custodyId data s)
include h

theorem Holds.of_noNew (hnew : NoNew s s') : Holds custodyId data s' := by
  obtain ⟨m, now, sequence, hid, hlt⟩ := h.issued
  refine ⟨⟨m, now, sequence, hid, hlt.trans_le hnew.sequence_le⟩, fun r' hr' hid' => ?_⟩
  obtain ⟨r, hr, hrid, hdata⟩ := hnew.origin r' hr'
  rw [← hdata]
  exact h.unchanged r hr (hrid.trans hid')

/-- Later acceptances leave it alone: their ids carry later numbers. -/
theorem Holds.acceptCustody (P : Platform) (env : Reading)
    (source destination relayMessageId : String) (envelopeData : Bytes)
    (identityId deviceId : Option String) :
    Holds custodyId data (s.acceptCustody P env source destination relayMessageId envelopeData
      identityId deviceId).2 := by
  rcases acceptCustody_spec P env source destination relayMessageId envelopeData identityId
    deviceId s with hnew | ⟨message, n, hid, _, hle, hlt, horigin⟩
  · exact h.of_noNew hnew
  · obtain ⟨m, now, k, hk, hks⟩ := h.issued
    refine ⟨⟨m, now, k, hk, by omega⟩, fun r' hr' hid' => ?_⟩
    rcases horigin r' hr' with rfl | ⟨r, hr, hrid, hdata⟩
    · grind [formatCustodyId_sequence_inj]
    · rw [← hdata]
      exact h.unchanged r hr (hrid.trans hid')

end

/-- A record that acceptance brought in has the bytes acceptance was given. -/
theorem holds_of_acceptCustody {P : Platform} {env : Reading}
    {source destination relayMessageId : String} {envelopeData : Bytes}
    {identityId deviceId : Option String} {c : CustodyMessage}
    (hold : ∀ r ∈ s.values, r.custodyId ≠ c.custodyId)
    (hc : c ∈ (s.acceptCustody P env source destination relayMessageId envelopeData identityId
      deviceId).2.values) :
    Holds c.custodyId envelopeData (s.acceptCustody P env source destination relayMessageId
      envelopeData identityId deviceId).2 := by
  rcases acceptCustody_spec P env source destination relayMessageId envelopeData identityId
    deviceId s with hnew | ⟨message, n, hid, hmessage, _, hlt, horigin⟩
  · obtain ⟨r, hr, hrid, _⟩ := hnew.origin c hc
    exact absurd hrid (hold r hr)
  · have hcm : c = message := by
      rcases horigin c hc with heq | ⟨r, hr, hrid, _⟩
      · exact heq
      · exact absurd hrid (hold r hr)
    subst hcm
    refine ⟨⟨_, _, n, hid, hlt⟩, fun r' hr' hid' => ?_⟩
    rcases horigin r' hr' with rfl | ⟨r, hr, hrid, _⟩
    · exact hmessage
    · exact absurd (hrid.trans hid') (hold r hr)

end RelayCustodyStore

end Scm.Store
