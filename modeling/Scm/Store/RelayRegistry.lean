import Scm.Bytes
import Mathlib.Data.List.AList
import Mathlib.Data.String.Basic

/-!
# The relay's identity registry — `core/src/store/relay_custody.rs`, `RelayRegistry`

Which device currently receives for an identity. The relay asks the registry
before it takes a message into custody (`enforceCustody`). Reading is not pure: a
handover that was never completed collapses to `abandoned` the first time its
record is read after the deadline, and that is persisted with an audit entry.
Devices come and go by `register` and `deregister`; these answer with the side
effect that the custody store then applies to the messages it holds.

The backend does not fail and returns what was written. Text functions of the
Rust standard library, the UUID parser and BLAKE3 are the fields of `Platform`;
nothing here depends on what they compute.
-/

namespace Scm.Store

open Bytes

/-- Library functions the store calls. `uuidVersion` is `None` when the text is
not a UUID. -/
structure Platform where
  trim : String → String
  toLowercase : String → String
  uuidVersion : String → Option Nat
  blake3 : Bytes → Vector UInt8 32

/-- `HANDOVER_STALE_COLLAPSE_MS`: fifteen days. -/
def handoverStaleCollapseMs : Nat := 15 * 24 * 60 * 60 * 1000

/-- `REGISTRATION_STALE_TAKEOVER_MS`: fifteen days. -/
def registrationStaleTakeoverMs : Nat := 15 * 24 * 60 * 60 * 1000

inductive RegistrationState where
  | active (deviceId : String) (seniorityTimestamp : Nat)
  | handover (fromDeviceId toDeviceId : String) (initiatedAt : Nat)
  | abandoned (deviceId : String) (abandonedAt : Nat)
  deriving DecidableEq, Repr

structure RegistrationRecord where
  identityId : String
  state : RegistrationState
  updatedAtMs : Nat
  deriving DecidableEq, Repr

structure RegistrationTransition where
  identityId : String
  fromState : Option RegistrationState
  toState : RegistrationState
  reason : String
  atMs : Nat
  sequence : Nat
  deriving DecidableEq, Repr

inductive CustodyError where
  | deviceMismatch
  | abandonedIdentity
  | noRegistration
  deriving DecidableEq, Repr

/-- `CustodyError::as_code`. -/
def CustodyError.asCode : CustodyError → String
  | .deviceMismatch => "identity_device_mismatch"
  | .abandonedIdentity => "identity_abandoned"
  | .noRegistration => "identity_registration_missing"

inductive CustodyEnforcement where
  | active (identityId deviceId : String)
  | redirected (identityId fromDeviceId toDeviceId : String)
  deriving DecidableEq, Repr

/-- What a registration asks of the custody store. -/
inductive RegistrySideEffect where
  | none
  | migrate (identityId fromDeviceId toDeviceId : String)
  | purge (identityId : String) (deviceId : Option String)
  deriving DecidableEq, Repr

structure RegistrationUpdateOutcome where
  state : RegistrationState
  sideEffect : RegistrySideEffect
  deriving DecidableEq, Repr

/-- The records and their audit trail by backend key. `sequence` is the static
`CUSTODY_SEQUENCE`, which the custody store draws from too. -/
structure RelayRegistry where
  records : AList fun _ : String => RegistrationRecord
  transitions : AList fun _ : String => RegistrationTransition
  sequence : Nat

/-- Decimal digits, padded with zeros to `width`: `{:0width}`. -/
def padded (width n : Nat) : String :=
  String.ofList (List.replicate (width - (toString n).length) '0') ++ toString n

/-- `registration_key`. -/
def registrationKey (identityId : String) : String := "relay_registration_state_" ++ identityId

def hexValue (c : Char) : Option Nat :=
  if '0' ≤ c ∧ c ≤ '9' then some (c.toNat - '0'.toNat)
  else if 'a' ≤ c ∧ c ≤ 'f' then some (c.toNat - 'a'.toNat + 10)
  else if 'A' ≤ c ∧ c ≤ 'F' then some (c.toNat - 'A'.toNat + 10)
  else none

/-- `is_hex_64`. -/
def isHex64 (value : String) : Bool :=
  value.toList.length = 64 ∧ value.toList.all fun c => (hexValue c).isSome

/-- `hex::decode`. -/
def hexDecode : List Char → Option Bytes
  | [] => some []
  | [_] => none
  | hi :: lo :: rest => do
    let h ← hexValue hi
    let l ← hexValue lo
    let bytes ← hexDecode rest
    return UInt8.ofNat (16 * h + l) :: bytes

theorem hexValue_hexDigit {n : Nat} (h : n < 16) : hexValue (hexDigit n) = some n := by
  have hall : ∀ k < 16, hexValue (hexDigit k) = some k := by decide
  exact hall n h

theorem hexDecode_toHex (data : Bytes) : hexDecode (toHex data).toList = some data := by
  rw [toHex, String.toList_ofList]
  induction data with
  | nil => rfl
  | cons b rest ih =>
    have hb : b.toNat < 256 := b.toNat_lt
    rw [List.flatMap_cons]
    show (do
      let h ← hexValue (hexDigit (b.toNat / 16))
      let l ← hexValue (hexDigit (b.toNat % 16))
      let bytes ← hexDecode (rest.flatMap fun b =>
        [hexDigit (b.toNat / 16), hexDigit (b.toNat % 16)])
      return UInt8.ofNat (16 * h + l) :: bytes) = some (b :: rest)
    rw [hexValue_hexDigit (by omega), hexValue_hexDigit (by omega), ih]
    show some (UInt8.ofNat (16 * (b.toNat / 16) + b.toNat % 16) :: rest) = some (b :: rest)
    rw [Nat.div_add_mod, UInt8.ofNat_toNat]

theorem isHex64_toHex (bytes : Vector UInt8 32) : isHex64 (toHex bytes.toList) := by
  have hlength : ((toHex bytes.toList).toList).length = 64 := by
    rw [toHex, String.toList_ofList]
    simp
  have hdigit : ∀ k < 16, (hexValue (hexDigit k)).isSome = true := by decide
  exact decide_eq_true ⟨hlength, List.all_eq_true.mpr (forall_mem_toHex hdigit _)⟩

theorem toHex_inj {a b : Bytes} : toHex a = toHex b ↔ a = b := by
  refine ⟨fun h => ?_, congrArg toHex⟩
  have hdecode := hexDecode_toHex a
  rw [h, hexDecode_toHex] at hdecode
  exact (Option.some.inj hdecode).symm

theorem utf8Size_of_hexValue {c : Char} {n : Nat} (h : hexValue c = some n) : c.utf8Size = 1 := by
  have hsmall : c.val ≤ 'f'.val := by
    unfold hexValue at h
    split at h
    next hc => exact UInt32.le_trans hc.2 (by decide)
    split at h
    next hc => exact hc.2
    split at h
    next hc => exact UInt32.le_trans hc.2 (by decide)
    next => cases h
  rw [Char.utf8Size, if_pos (UInt32.le_trans hsmall (by decide))]

theorem exists_of_hexDecode_cons_cons {hi lo : Char} {rest : List Char} {data : Bytes}
    (h : hexDecode (hi :: lo :: rest) = some data) :
    ∃ a b bytes, hexValue hi = some a ∧ hexValue lo = some b ∧ hexDecode rest = some bytes ∧
      data = UInt8.ofNat (16 * a + b) :: bytes := by
  unfold hexDecode at h
  obtain ⟨a, ha, h⟩ := Option.bind_eq_some_iff.mp h
  obtain ⟨b, hb, h⟩ := Option.bind_eq_some_iff.mp h
  obtain ⟨bytes, hrest, h⟩ := Option.bind_eq_some_iff.mp h
  exact ⟨a, b, bytes, ha, hb, hrest, (Option.some.inj h).symm⟩

/-- A text that decodes has two bytes for each byte it stands for. -/
theorem utf8ByteSize_of_hexDecode {cs : List Char} {data : Bytes}
    (h : hexDecode cs = some data) : (String.ofList cs).utf8ByteSize = 2 * data.length := by
  rw [String.utf8ByteSize_ofList]
  induction cs using hexDecode.induct generalizing data with
  | case1 =>
    cases h
    rfl
  | case2 => cases h
  | case3 hi lo rest ih =>
    obtain ⟨a, b, bytes, ha, hb, hrest, rfl⟩ := exists_of_hexDecode_cons_cons h
    rw [String.utf8Len_cons, String.utf8Len_cons, ih hrest, utf8Size_of_hexValue ha,
      utf8Size_of_hexValue hb, List.length_cons]
    omega

/-- `derive_identity_id_from_public_key_hex`. -/
def deriveIdentityIdFromPublicKeyHex (P : Platform) (value : String) : Option String :=
  if isHex64 value then
    match hexDecode value.toList with
    | none => none
    | some bytes => if bytes.length ≠ 32 then none else some (toHex (P.blake3 bytes).toList)
  else none

/-- `normalize_identity_id`. -/
def normalizeIdentityId (P : Platform) (identityId : String) : Except String String :=
  let normalized := P.toLowercase (P.trim identityId)
  if isHex64 normalized then .ok normalized else .error "registration_identity_id_invalid"

/-- `normalize_uuid_v4`. -/
def normalizeUuidV4 (P : Platform) (value error : String) : Except String String :=
  match P.uuidVersion (P.trim value) with
  | none => .error error
  | some version => if version ≠ 4 then .error error else .ok (P.trim value)

/-- A valid device id is its text without surrounding white space. -/
theorem eq_trim_of_normalizeUuidV4 {P : Platform} {value error deviceId : String}
    (h : normalizeUuidV4 P value error = .ok deviceId) : deviceId = P.trim value := by
  unfold normalizeUuidV4 at h
  split at h
  next => cases h
  next => grind

namespace RelayRegistry

/-- `record_exists`. -/
def recordExists (r : RelayRegistry) (identityId : String) : Bool :=
  (r.records.lookup (registrationKey identityId)).isSome

/-- `normalize_lookup_identity`: a public key stands for the identity derived from
it, when that one is registered. -/
def normalizeLookupIdentity (P : Platform) (r : RelayRegistry) (identityHint : String) :
    Option String :=
  let trimmed := P.toLowercase (P.trim identityHint)
  if trimmed.isEmpty ∨ ¬ isHex64 trimmed then none
  else if r.recordExists trimmed then some trimmed
  else
    match deriveIdentityIdFromPublicKeyHex P trimmed with
    | some derived => if r.recordExists derived then some derived else some trimmed
    | none => some trimmed

/-- `RelayRegistry::record_transition`. -/
def recordTransition (r : RelayRegistry) (identityId : String)
    (fromState : Option RegistrationState) (toState : RegistrationState) (reason : String)
    (atMs : Nat) : RelayRegistry :=
  let key := "relay_registration_audit_" ++ padded 20 atMs ++ "_" ++ padded 6 r.sequence ++ "_" ++
    identityId
  { r with
    transitions := r.transitions.insert key
      { identityId, fromState, toState, reason, atMs, sequence := r.sequence }
    sequence := r.sequence + 1 }

/-- `persist_state`. -/
def persistState (r : RelayRegistry) (identityId : String) (fromState : Option RegistrationState)
    (state : RegistrationState) (reason : String) (updatedAtMs : Nat) : RelayRegistry :=
  let stored := { r with
    records := r.records.insert (registrationKey identityId) { identityId, state, updatedAtMs } }
  stored.recordTransition identityId fromState state reason updatedAtMs

/-- `get_record_by_identity_id`: a stale handover is collapsed as it is read. -/
def getRecordByIdentityId (r : RelayRegistry) (now : Nat) (identityId : String) :
    Option RegistrationRecord × RelayRegistry :=
  match r.records.lookup (registrationKey identityId) with
  | none => (none, r)
  | some record =>
    match record.state with
    | .handover fromDeviceId _ initiatedAt =>
      if now - initiatedAt > handoverStaleCollapseMs then
        let collapsed := RegistrationState.abandoned fromDeviceId now
        (some { identityId, state := collapsed, updatedAtMs := now },
          r.persistState identityId (some record.state) collapsed
            "registration_handover_stale_timeout" now)
      else (some record, r)
    | _ => (some record, r)

/-- `get_state`. -/
def getState (P : Platform) (r : RelayRegistry) (now : Nat) (identityId : String) :
    Option RegistrationState × RelayRegistry :=
  match r.normalizeLookupIdentity P identityId with
  | none => (none, r)
  | some identityId =>
    let (record, r) := r.getRecordByIdentityId now identityId
    (record.map RegistrationRecord.state, r)

/-- `RelayRegistry::enforce_custody`. -/
def enforceCustody (P : Platform) (r : RelayRegistry) (now : Nat) (identityId deviceId : String) :
    Except CustodyError CustodyEnforcement × RelayRegistry :=
  match r.normalizeLookupIdentity P identityId with
  | none => (.error .noRegistration, r)
  | some identityId =>
    match normalizeUuidV4 P deviceId "registration_device_id_invalid" with
    | .error _ => (.error .noRegistration, r)
    | .ok deviceId =>
      let (state, r) := r.getState P now identityId
      match state with
      | some (.active activeDeviceId _) =>
        if activeDeviceId = deviceId then (.ok (.active identityId deviceId), r)
        else (.error .deviceMismatch, r)
      | some (.handover fromDeviceId toDeviceId _) =>
        if deviceId = fromDeviceId ∨ deviceId = toDeviceId then
          (.ok (.redirected identityId fromDeviceId toDeviceId), r)
        else (.error .deviceMismatch, r)
      | some (.abandoned _ _) => (.error .abandonedIdentity, r)
      | none => (.error .noRegistration, r)

/-- The decision of `register`, given the record it found: the side effect and the
reason to note, or the refusal. -/
def registerDecision (now : Nat) (identityId deviceId : String) :
    Option RegistrationRecord → Except String (RegistrySideEffect × String)
  | none => .ok (.none, "registration_activated")
  | some record =>
    match record.state with
    | .active activeDeviceId _ =>
      if activeDeviceId = deviceId then .ok (.none, "registration_refreshed")
      else if now - record.updatedAtMs > registrationStaleTakeoverMs then
        .ok (.purge identityId (some activeDeviceId), "registration_stale_takeover")
      else .error "registration_active_conflict"
    | .handover _ toDeviceId _ =>
      if toDeviceId = deviceId then .ok (.none, "registration_handover_completed")
      else .error "registration_handover_conflict"
    | .abandoned _ _ => .ok (.none, "registration_reactivated")

/-- `RelayRegistry::register`. -/
def register (P : Platform) (r : RelayRegistry) (now : Nat) (identityId deviceId : String)
    (seniorityTimestamp : Nat) : Except String RegistrationUpdateOutcome × RelayRegistry :=
  match normalizeIdentityId P identityId with
  | .error e => (.error e, r)
  | .ok identityId =>
    match normalizeUuidV4 P deviceId "registration_device_id_invalid" with
    | .error e => (.error e, r)
    | .ok deviceId =>
      if seniorityTimestamp = 0 then (.error "registration_seniority_invalid", r)
      else
        let (current, r) := r.getRecordByIdentityId now identityId
        match registerDecision now identityId deviceId current with
        | .error e => (.error e, r)
        | .ok (sideEffect, reason) =>
          let state := RegistrationState.active deviceId seniorityTimestamp
          (.ok { state, sideEffect },
            r.persistState identityId (current.map RegistrationRecord.state) state reason now)

/-- The decision of `deregister` in the state it found. -/
def deregisterDecision (now : Nat) (identityId fromDeviceId : String)
    (targetDeviceId : Option String) :
    RegistrationState → Except String (RegistrationState × RegistrySideEffect × String)
  | .active deviceId _ =>
    if deviceId = fromDeviceId then
      match targetDeviceId with
      | some targetDeviceId =>
        .ok (.handover fromDeviceId targetDeviceId now,
          .migrate identityId fromDeviceId targetDeviceId, "registration_handover_started")
      | none => .ok (.abandoned fromDeviceId now, .purge identityId none, "registration_abandoned")
    else .error "registration_device_mismatch"
  | .handover currentFrom currentTo initiatedAt =>
    if currentFrom = fromDeviceId ∧ targetDeviceId = some currentTo then
      .ok (.handover currentFrom currentTo initiatedAt, .none, "registration_handover_reaffirmed")
    else .error "registration_handover_conflict"
  | .abandoned deviceId _ =>
    if deviceId = fromDeviceId then
      .ok (.abandoned deviceId now, .none, "registration_abandon_reaffirmed")
    else .error "registration_device_mismatch"

/-- `RelayRegistry::deregister`. -/
def deregister (P : Platform) (r : RelayRegistry) (now : Nat) (identityId fromDeviceId : String)
    (targetDeviceId : Option String) :
    Except String RegistrationUpdateOutcome × RelayRegistry :=
  match normalizeIdentityId P identityId with
  | .error e => (.error e, r)
  | .ok identityId =>
    match normalizeUuidV4 P fromDeviceId "deregistration_from_device_id_invalid" with
    | .error e => (.error e, r)
    | .ok fromDeviceId =>
      match targetDeviceId.mapM fun target =>
        normalizeUuidV4 P target "deregistration_target_device_id_invalid" with
      | .error e => (.error e, r)
      | .ok targetDeviceId =>
        if targetDeviceId = some fromDeviceId then
          (.error "deregistration_target_matches_source", r)
        else
          let (current, r) := r.getRecordByIdentityId now identityId
          match current with
          | none => (.error "registration_not_found", r)
          | some record =>
            match deregisterDecision now identityId fromDeviceId targetDeviceId record.state with
            | .error e => (.error e, r)
            | .ok (state, sideEffect, reason) =>
              (.ok { state, sideEffect },
                r.persistState identityId (some record.state) state reason now)

theorem sequence_le_getRecordByIdentityId (r : RelayRegistry) (now : Nat) (identityId : String) :
    r.sequence ≤ (r.getRecordByIdentityId now identityId).2.sequence := by
  unfold getRecordByIdentityId
  split
  next => exact Nat.le_refl _
  next record _ =>
    split
    next =>
      split
      next => exact Nat.le_succ _
      next => exact Nat.le_refl _
    next => exact Nat.le_refl _

section
variable (P : Platform) (r : RelayRegistry) (now : Nat) (identityId : String)

theorem sequence_le_getState : r.sequence ≤ (r.getState P now identityId).2.sequence := by
  unfold getState
  split
  next => exact Nat.le_refl _
  next identityId _ => exact sequence_le_getRecordByIdentityId r now identityId

theorem sequence_le_enforceCustody (deviceId : String) :
    r.sequence ≤ (r.enforceCustody P now identityId deviceId).2.sequence := by
  unfold enforceCustody
  split
  next => exact Nat.le_refl _
  next identityId _ =>
    split
    next => exact Nat.le_refl _
    next deviceId _ =>
      have hstate := sequence_le_getState P r now identityId
      dsimp only
      repeat' split
      all_goals exact hstate

end

/-- All a registration can do: read the record, decide on it, and write if the decision
allows it. -/
theorem register_cases (P : Platform) (r : RelayRegistry) (now : Nat) (identityId deviceId : String)
    (seniorityTimestamp : Nat) :
    let out := r.register P now identityId deviceId seniorityTimestamp
    (∃ e, out = (.error e, r)) ∨
    ∃ i, normalizeIdentityId P identityId = .ok i ∧
      ((∃ e, registerDecision now i (P.trim deviceId) (r.getRecordByIdentityId now i).1 = .error e ∧
        out = (.error e, (r.getRecordByIdentityId now i).2)) ∨
      ∃ sideEffect reason, registerDecision now i (P.trim deviceId)
        (r.getRecordByIdentityId now i).1
          = .ok (sideEffect, reason) ∧
        out = (.ok ⟨.active (P.trim deviceId) seniorityTimestamp, sideEffect⟩,
          (r.getRecordByIdentityId now i).2.persistState i
            ((r.getRecordByIdentityId now i).1.map RegistrationRecord.state)
            (.active (P.trim deviceId) seniorityTimestamp) reason now)) := by
  unfold register
  split
  next e _ => exact .inl ⟨e, rfl⟩
  next i hid =>
    split
    next e _ => exact .inl ⟨e, rfl⟩
    next d hdevice =>
      rw [← eq_trim_of_normalizeUuidV4 hdevice]
      split
      next => exact .inl ⟨_, rfl⟩
      refine .inr ⟨i, hid, ?_⟩
      dsimp only
      split
      next e hdecision => exact .inl ⟨e, hdecision, rfl⟩
      next sideEffect reason hdecision => exact .inr ⟨sideEffect, reason, hdecision, rfl⟩

theorem deregister_cases (P : Platform) (r : RelayRegistry) (now : Nat)
    (identityId fromDeviceId : String) (targetDeviceId : Option String) :
    let out := r.deregister P now identityId fromDeviceId targetDeviceId
    (∃ e, out = (.error e, r)) ∨
    ∃ i, normalizeIdentityId P identityId = .ok i ∧
      ((∃ e, out = (.error e, (r.getRecordByIdentityId now i).2)) ∨
      ∃ record target state sideEffect reason, (r.getRecordByIdentityId now i).1 = some record ∧
        (∀ device, target = some device → ∃ value, device = P.trim value) ∧
        deregisterDecision now i (P.trim fromDeviceId) target record.state
          = .ok (state, sideEffect, reason) ∧
        out = (.ok ⟨state, sideEffect⟩, (r.getRecordByIdentityId now i).2.persistState i
          (some record.state) state reason now)) := by
  unfold deregister
  split
  next e _ => exact .inl ⟨e, rfl⟩
  next i hid =>
    split
    next e _ => exact .inl ⟨e, rfl⟩
    next d hfrom =>
      rw [← eq_trim_of_normalizeUuidV4 hfrom]
      split
      next e _ => exact .inl ⟨e, rfl⟩
      next target htarget =>
        split
        next => exact .inl ⟨_, rfl⟩
        refine .inr ⟨i, hid, ?_⟩
        dsimp only
        split
        next => exact .inl ⟨_, rfl⟩
        next record hrecord =>
          split
          next e _ => exact .inl ⟨e, rfl⟩
          next state sideEffect reason hdecision =>
            refine .inr ⟨record, target, state, sideEffect, reason, hrecord, ?_, hdecision, rfl⟩
            intro device hdevice
            cases targetDeviceId with
            | none =>
              cases htarget
              cases hdevice
            | some value =>
              have hmap : some <$> normalizeUuidV4 P value "deregistration_target_device_id_invalid"
                  = .ok target := htarget
              cases hvalue : normalizeUuidV4 P value "deregistration_target_device_id_invalid" with
              | error => simp_all
              | ok d =>
                rw [hvalue] at hmap
                cases hmap
                cases hdevice
                exact ⟨value, eq_trim_of_normalizeUuidV4 hvalue⟩

section
variable (P : Platform) (r : RelayRegistry) (now : Nat) (identityId deviceId : String)

theorem sequence_le_register (seniorityTimestamp : Nat) :
    r.sequence ≤ (r.register P now identityId deviceId seniorityTimestamp).2.sequence := by
  rcases register_cases P r now identityId deviceId seniorityTimestamp with
    ⟨e, hout⟩ | ⟨i, _, ⟨e, _, hout⟩ | ⟨_, _, _, hout⟩⟩
  · rw [hout]
  · rw [hout]
    exact sequence_le_getRecordByIdentityId r now i
  · rw [hout]
    exact (sequence_le_getRecordByIdentityId r now i).trans (Nat.le_succ _)

theorem sequence_le_deregister (fromDeviceId : String) (targetDeviceId : Option String) :
    r.sequence ≤ (r.deregister P now identityId fromDeviceId targetDeviceId).2.sequence := by
  rcases deregister_cases P r now identityId fromDeviceId targetDeviceId with
    ⟨e, hout⟩ | ⟨i, _, ⟨e, hout⟩ | ⟨_, _, _, _, _, _, _, _, hout⟩⟩
  · rw [hout]
  · rw [hout]
    exact sequence_le_getRecordByIdentityId r now i
  · rw [hout]
    exact (sequence_le_getRecordByIdentityId r now i).trans (Nat.le_succ _)

end

end RelayRegistry

end Scm.Store
