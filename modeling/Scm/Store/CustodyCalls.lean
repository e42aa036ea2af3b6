import Scm.Runs
import Scm.Store.RelayCustody

/-!
# Calls on the custody store — `core/src/store/relay_custody.rs`

The rest of the store's interface: registrations, which move or drop what is held
for an identity, the storage pressure check on its own, the audit listing, and what
a process restart leaves of a store. `CustodyCall` lists every call that can change
a store and `call` is the store afterwards, so that a history of the store is a
`Scm.Runs.run` of calls.

The sequence counter is a static of the process: other stores draw from it too,
which is the call `elsewhere`. A restart is not a call. It opens the same backend
again, with the counter at zero and the defaults of `new_with_backends`.
-/

namespace Scm.Store

namespace RelayCustodyStore

open Runs

/-! ## Registrations -/

/-- The loop of `migrate_pending_identity_device`. -/
def migrateLoop (now : Nat) (toDeviceId reason : String) :
    List CustodyMessage → RelayCustodyStore → RelayCustodyStore
  | [], s => s
  | record :: records, s =>
    let moved := { record with intendedDeviceId := some toDeviceId, updatedAtMs := now }
    migrateLoop now toDeviceId reason records
      ((s.putMessage moved).recordTransition now moved (some record.state) record.state reason)

/-- `migrate_pending_identity_device`. -/
def migratePendingIdentityDevice (P : Platform) (s : RelayCustodyStore) (env : Reading)
    (identityId fromDeviceId toDeviceId reason : String) : RelayCustodyStore :=
  match s.registry.normalizeLookupIdentity P identityId with
  | none => s
  | some identityId =>
    migrateLoop env.now toDeviceId reason
      (s.values.filter fun record => record.state ≠ .delivered ∧
        record.recipientIdentityId = some identityId ∧
        record.intendedDeviceId = some fromDeviceId) s

/-- The loop of `purge_pending_identity_messages`. -/
def purgeIdentityLoop (now : Nat) (reason : String) :
    List CustodyMessage → RelayCustodyStore → RelayCustodyStore
  | [], s => s
  | record :: records, s =>
    purgeIdentityLoop now reason records
      ((s.recordTransition now record (some record.state) record.state reason).removeMessage
        record.destinationPeerId record.custodyId)

/-- `purge_pending_identity_messages`; without a device, for every device. -/
def purgePendingIdentityMessages (P : Platform) (s : RelayCustodyStore) (env : Reading)
    (identityId : String) (deviceId : Option String) (reason : String) : RelayCustodyStore :=
  match s.registry.normalizeLookupIdentity P identityId with
  | none => s
  | some identityId =>
    purgeIdentityLoop env.now reason
      (s.values.filter fun record => record.state ≠ .delivered ∧
        record.recipientIdentityId = some identityId ∧
        (deviceId.map fun expected => decide (record.intendedDeviceId = some expected)).getD true) s

/-- `apply_registry_side_effect`. -/
def applyRegistrySideEffect (P : Platform) (s : RelayCustodyStore) (env : Reading) :
    RegistrySideEffect → RelayCustodyStore
  | .none => s
  | .migrate identityId fromDeviceId toDeviceId =>
    s.migratePendingIdentityDevice P env identityId fromDeviceId toDeviceId
      "identity_handover_queue_migrated"
  | .purge identityId deviceId =>
    s.purgePendingIdentityMessages P env identityId deviceId "identity_queue_purged"

/-- The common end of `register_identity` and `deregister_identity`. -/
def afterRegistry (P : Platform) (s : RelayCustodyStore) (env : Reading) :
    Except String RegistrationUpdateOutcome × RelayRegistry →
      Except String RegistrationState × RelayCustodyStore
  | (.error e, registry) => (.error e, { s with registry })
  | (.ok outcome, registry) =>
    (.ok outcome.state, { s with registry }.applyRegistrySideEffect P env outcome.sideEffect)

/-- `register_identity`. -/
def registerIdentity (P : Platform) (s : RelayCustodyStore) (env : Reading)
    (identityId deviceId : String) (seniorityTimestamp : Nat) :
    Except String RegistrationState × RelayCustodyStore :=
  s.afterRegistry P env (s.registry.register P env.now identityId deviceId seniorityTimestamp)

/-- `deregister_identity`. -/
def deregisterIdentity (P : Platform) (s : RelayCustodyStore) (env : Reading)
    (identityId fromDeviceId : String) (targetDeviceId : Option String) :
    Except String RegistrationState × RelayCustodyStore :=
  s.afterRegistry P env (s.registry.deregister P env.now identityId fromDeviceId targetDeviceId)

/-- `RelayCustodyStore::enforce_custody`. -/
def enforceCustody (P : Platform) (s : RelayCustodyStore) (env : Reading)
    (identityId deviceId : String) :
    Except CustodyError CustodyEnforcement × RelayCustodyStore :=
  let (result, registry) := s.registry.enforceCustody P env.now identityId deviceId
  (result, { s with registry })

/-! ## Storage pressure and the audit listing -/

/-- `enforce_storage_pressure`. -/
def enforceStoragePressure (s : RelayCustodyStore) (env : Reading) :
    Except String StoragePressureReport × RelayCustodyStore :=
  s.enforceStoragePressureInternal env none

/-- The order of `transitions_for_custody`: time, then sequence number. -/
def transitionLe (a b : CustodyTransition) : Prop :=
  a.atMs < b.atMs ∨ a.atMs = b.atMs ∧ a.sequence ≤ b.sequence

instance : DecidableRel transitionLe := fun _ _ => inferInstanceAs (Decidable (_ ∨ _))

/-- `transitions_for_custody`. -/
def transitionsForCustody (s : RelayCustodyStore) (custodyId : String) : List CustodyTransition :=
  ((s.transitions.entries.map Sigma.snd).filter fun transition =>
    transition.custodyId = custodyId).insertionSort transitionLe

/-- `has_message_for_destination`. -/
def hasMessageForDestination (s : RelayCustodyStore) (destinationPeerId relayMessageId : String) :
    Bool :=
  (s.findExisting destinationPeerId relayMessageId).isSome

/-! ## Histories -/

/-- A process restart: the same backend, everything else as `new_with_backends`
makes it. -/
def restart (s : RelayCustodyStore) : RelayCustodyStore :=
  { s with
    registry := { s.registry with sequence := 0 }
    compatMode := .phaseA, ws13Requests := 0, legacyRequests := 0 }

/-- A store over an empty backend. -/
def empty (localIdentity : Option String) (sequence : Nat) : RelayCustodyStore where
  messages := ∅
  transitions := ∅
  registry := { records := ∅, transitions := ∅, sequence }
  localIdentity := localIdentity
  compatMode := .phaseA
  ws13Requests := 0
  legacyRequests := 0

end RelayCustodyStore

/-- The calls that can change a store, each with what it reads from outside. -/
inductive CustodyCall where
  | acceptCustody (env : Reading) (sourcePeerId destinationPeerId relayMessageId : String)
      (envelopeData : Bytes) (recipientIdentityId intendedDeviceId : Option String)
  | markDispatching (env : Reading) (destinationPeerId custodyId reason : String)
  | markDispatchFailed (env : Reading) (destinationPeerId custodyId reason : String)
  | markDelivered (env : Reading) (destinationPeerId custodyId reason : String)
  | convergeDeliveredForMessage (env : Reading) (destinationPeerId relayMessageId reason : String)
  | enforceStoragePressure (env : Reading)
  | registerIdentity (env : Reading) (identityId deviceId : String) (seniorityTimestamp : Nat)
  | deregisterIdentity (env : Reading) (identityId fromDeviceId : String)
      (targetDeviceId : Option String)
  | enforceCustody (env : Reading) (identityId deviceId : String)
  | setCompatMode (env : Reading) (mode : CustodyCompatMode)
  | elsewhere (env : Reading)
  deriving DecidableEq, Repr

namespace CustodyCall

/-- The clock at the call. -/
def now : CustodyCall → Nat
  | acceptCustody env _ _ _ _ _ _ | markDispatching env _ _ _ | markDispatchFailed env _ _ _
  | markDelivered env _ _ _ | convergeDeliveredForMessage env _ _ _ | enforceStoragePressure env
  | registerIdentity env _ _ _ | deregisterIdentity env _ _ _ | enforceCustody env _ _
  | setCompatMode env _ | elsewhere env => env.now

/-- The one call that brings in records. -/
def IsAcceptance : CustodyCall → Prop
  | acceptCustody _ _ _ _ _ _ _ => True
  | _ => False

end CustodyCall

namespace RelayCustodyStore

/-- The store after a call. -/
def call (P : Platform) (s : RelayCustodyStore) : CustodyCall → RelayCustodyStore
  | .acceptCustody env source destination relayMessageId data identityId deviceId =>
    (s.acceptCustody P env source destination relayMessageId data identityId deviceId).2
  | .markDispatching env destination custodyId reason =>
    (s.markDispatching env destination custodyId reason).2
  | .markDispatchFailed env destination custodyId reason =>
    (s.markDispatchFailed env destination custodyId reason).2
  | .markDelivered env destination custodyId reason =>
    (s.markDelivered env destination custodyId reason).2
  | .convergeDeliveredForMessage env destination relayMessageId reason =>
    (s.convergeDeliveredForMessage env destination relayMessageId reason).2
  | .enforceStoragePressure env => (s.enforceStoragePressure env).2
  | .registerIdentity env identityId deviceId seniorityTimestamp =>
    (s.registerIdentity P env identityId deviceId seniorityTimestamp).2
  | .deregisterIdentity env identityId fromDeviceId targetDeviceId =>
    (s.deregisterIdentity P env identityId fromDeviceId targetDeviceId).2
  | .enforceCustody env identityId deviceId => (s.enforceCustody P env identityId deviceId).2
  | .setCompatMode _ mode => { s with compatMode := mode }
  | .elsewhere _ => s.drawSequence

/-- A call or a restart of the process. -/
inductive Event where
  | call (c : CustodyCall)
  | restart
  deriving DecidableEq, Repr

/-- The store after a call or a restart. -/
def after (P : Platform) (s : RelayCustodyStore) : Event → RelayCustodyStore
  | .call c => s.call P c
  | .restart => s.restart

end RelayCustodyStore

end Scm.Store
