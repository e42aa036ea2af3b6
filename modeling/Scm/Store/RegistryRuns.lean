import Mathlib.Data.List.DropRight
import Scm.Runs
import Scm.Store.RelayRegistry

/-!
# Who is active: runs of the identity registry

One identity, many calls: `device_kept` says which device is active in runs of
`register`, `deregister` and the two reads, on this and other identities.

What a call does to one identity's record is said in terms of the record that it reads
(`register_lookup`, `deregister_lookup`). Reading is what collapses a handover; in an
active state and in a handover that is not yet stale it changes nothing (`Settled`).
-/

namespace Scm.Store

open List hiding Vector
open Bytes

/-- A call on the registry. -/
inductive RegistryCall where
  | register (now : Nat) (identityId deviceId : String) (seniorityTimestamp : Nat)
  | deregister (now : Nat) (identityId fromDeviceId : String) (targetDeviceId : Option String)
  | getState (now : Nat) (identityId : String)
  | enforceCustody (now : Nat) (identityId deviceId : String)

/-- What a call answers. -/
inductive RegistryReply where
  | update (result : Except String RegistrationUpdateOutcome)
  | state (state : Option RegistrationState)
  | custody (result : Except CustodyError CustodyEnforcement)

/-- When a call is made. -/
def RegistryCall.now : RegistryCall → Nat
  | .register now _ _ _ => now
  | .deregister now _ _ _ => now
  | .getState now _ => now
  | .enforceCustody now _ _ => now

theorem registrationKey_inj {i j : String} (h : registrationKey i = registrationKey j) : i = j :=
  (String.append_right_inj _).mp h

/-- What is assumed of the library's text functions: doing it twice changes nothing, and
hex digits as `hex::encode` writes them are left alone. -/
structure Platform.Lawful (P : Platform) : Prop where
  trim_trim : ∀ value, P.trim (P.trim value) = P.trim value
  fold_fold : ∀ value, isHex64 (P.toLowercase (P.trim value)) →
    P.toLowercase (P.trim (P.toLowercase (P.trim value))) = P.toLowercase (P.trim value)
  fold_hex : ∀ bytes, P.toLowercase (P.trim (toHex bytes)) = toHex bytes

namespace RelayRegistry

/-- A call: its answer and the registry afterwards. -/
def answer (P : Platform) (r : RelayRegistry) : RegistryCall → RegistryReply × RelayRegistry
  | .register now identityId deviceId seniorityTimestamp =>
    let (result, r) := r.register P now identityId deviceId seniorityTimestamp
    (.update result, r)
  | .deregister now identityId fromDeviceId targetDeviceId =>
    let (result, r) := r.deregister P now identityId fromDeviceId targetDeviceId
    (.update result, r)
  | .getState now identityId =>
    let (state, r) := r.getState P now identityId
    (.state state, r)
  | .enforceCustody now identityId deviceId =>
    let (result, r) := r.enforceCustody P now identityId deviceId
    (.custody result, r)

/-- The registry after a history of calls. -/
def after (P : Platform) (r : RelayRegistry) (calls : List RegistryCall) : RelayRegistry :=
  Runs.run (fun r call => (r.answer P call).2) r calls

/-- What is stored for an identity. -/
def recordOf (r : RelayRegistry) (identityId : String) : Option RegistrationRecord :=
  r.records.lookup (registrationKey identityId)

/-! ## Writing and reading one record -/

theorem recordOf_persistState (r : RelayRegistry) (identityId : String)
    (fromState : Option RegistrationState) (state : RegistrationState) (reason : String)
    (now : Nat) :
    (r.persistState identityId fromState state reason now).recordOf identityId
      = some { identityId, state, updatedAtMs := now } :=
  AList.lookup_insert _

variable {now : Nat} {P : Platform} {record : RegistrationRecord} {r : RelayRegistry}
  {i identityId : String}

theorem recordOf_persistState_ne (r : RelayRegistry) (hne : i ≠ identityId)
    (fromState : Option RegistrationState) (state : RegistrationState) (reason : String) (now : Nat)
    :
    (r.persistState identityId fromState state reason now).recordOf i = r.recordOf i :=
  AList.lookup_insert_ne fun heq => hne (registrationKey_inj heq)

theorem recordOf_getRecord (r : RelayRegistry) (now : Nat) (identityId : String) :
    (r.getRecordByIdentityId now identityId).2.recordOf identityId
      = (r.getRecordByIdentityId now identityId).1 := by
  unfold getRecordByIdentityId
  split
  next hnone => exact hnone
  next record hrecord =>
    split
    next =>
      split
      next => exact recordOf_persistState ..
      next => exact hrecord
    next => exact hrecord

theorem recordOf_getRecord_ne (r : RelayRegistry) (now : Nat) (hne : i ≠ identityId) :
    (r.getRecordByIdentityId now identityId).2.recordOf i = r.recordOf i := by
  unfold getRecordByIdentityId
  split
  next => rfl
  next record _ => grind [recordOf_persistState_ne]

/-- A record that a read at this time leaves alone. -/
def Settled (now : Nat) (record : RegistrationRecord) : Prop :=
  ∀ fromDeviceId toDeviceId initiatedAt,
    record.state = .handover fromDeviceId toDeviceId initiatedAt →
    now - initiatedAt ≤ handoverStaleCollapseMs

theorem getRecord_of_settled (h : r.recordOf identityId = some record)
    (hsettled : Settled now record) :
    r.getRecordByIdentityId now identityId = (some record, r) := by
  unfold getRecordByIdentityId
  rw [show r.records.lookup (registrationKey identityId) = some record from h]
  dsimp only
  split
  next hstate => rw [if_neg (Nat.not_lt.mpr (hsettled _ _ _ hstate))]
  next => rfl

theorem recordOf_getRecord_of_settled (h : r.recordOf i = some record)
    (hsettled : Settled now record) (identityId : String) :
    (r.getRecordByIdentityId now identityId).2.recordOf i = some record := by
  by_cases hid : i = identityId
  · rw [← hid, getRecord_of_settled h hsettled]
    exact h
  · rw [recordOf_getRecord_ne r now hid]
    exact h

section
variable (P : Platform) (h : r.recordOf i = some record) (hsettled : Settled now record)
  (identityId : String)
include h hsettled

theorem recordOf_getState_of_settled :
    (r.getState P now identityId).2.recordOf i = some record := by
  unfold getState
  split
  next => exact h
  next identityId _ => exact recordOf_getRecord_of_settled h hsettled identityId

theorem recordOf_enforceCustody_of_settled (deviceId : String) :
    (r.enforceCustody P now identityId deviceId).2.recordOf i = some record := by
  unfold enforceCustody
  split
  next => exact h
  next identityId _ =>
    split
    next => exact h
    next deviceId _ =>
      have hread := recordOf_getState_of_settled P h hsettled identityId
      dsimp only
      repeat' split
      all_goals exact hread

end

theorem getRecord_cases (r : RelayRegistry) (now : Nat) (identityId : String) :
    r.getRecordByIdentityId now identityId = (r.recordOf identityId, r) ∧
      (∀ record, r.recordOf identityId = some record → Settled now record) ∨
    ∃ record fromDeviceId toDeviceId initiatedAt, r.recordOf identityId = some record ∧
      record.state = .handover fromDeviceId toDeviceId initiatedAt ∧ ¬ Settled now record ∧
      (r.getRecordByIdentityId now identityId).1
        = some ⟨identityId, .abandoned fromDeviceId now, now⟩ := by
  cases hrecord : r.recordOf identityId with
  | none =>
    refine .inl ⟨?_, nofun⟩
    unfold getRecordByIdentityId
    rw [show r.records.lookup (registrationKey identityId) = none from hrecord]
  | some record =>
    by_cases hsettled : Settled now record
    · refine .inl ⟨getRecord_of_settled hrecord hsettled, fun other hother => ?_⟩
      rw [← Option.some.inj hother]
      exact hsettled
    · unfold Settled at hsettled
      push Not at hsettled
      obtain ⟨fromDeviceId, toDeviceId, initiatedAt, hstate, hstale⟩ := hsettled
      refine .inr ⟨record, fromDeviceId, toDeviceId, initiatedAt, rfl, hstate,
        fun hsettled => ?_, ?_⟩
      · exact absurd (hsettled _ _ _ hstate) (Nat.not_le.mpr hstale)
      · unfold getRecordByIdentityId
        rw [show r.records.lookup (registrationKey identityId) = some record from hrecord]
        dsimp only
        rw [hstate]
        dsimp only
        rw [if_pos hstale]

/-! ## Names of an identity -/

/-- The registered identity that a folded name stands for, or the name itself. -/
def resolveFolded (P : Platform) (r : RelayRegistry) (folded : String) : String :=
  if r.recordExists folded then folded
  else
    match deriveIdentityIdFromPublicKeyHex P folded with
    | some derived => if r.recordExists derived then derived else folded
    | none => folded

theorem normalizeLookupIdentity_eq (P : Platform) (r : RelayRegistry) (hint : String) :
    r.normalizeLookupIdentity P hint =
      if (P.toLowercase (P.trim hint)).isEmpty ∨ ¬ isHex64 (P.toLowercase (P.trim hint)) then none
      else some (r.resolveFolded P (P.toLowercase (P.trim hint))) := by
  unfold normalizeLookupIdentity resolveFolded
  dsimp only
  cases deriveIdentityIdFromPublicKeyHex P (P.toLowercase (P.trim hint)) with
  | none => split_ifs <;> rfl
  | some derived =>
    dsimp only
    split_ifs <;> rfl

section
variable {name : String} (hfold : P.toLowercase (P.trim name) = name) (hhex : isHex64 name)
include hfold hhex

theorem normalizeLookupIdentity_of_folded :
    r.normalizeLookupIdentity P name = some (r.resolveFolded P name) := by
  have hnonempty : ¬ (name.isEmpty = true) := by
    intro hempty
    rw [String.isEmpty_iff] at hempty
    rw [hempty] at hhex
    exact absurd hhex (by decide)
  rw [normalizeLookupIdentity_eq, hfold, if_neg]
  rintro (hempty | hbad)
  · exact hnonempty hempty
  · exact hbad hhex

theorem normalizeLookupIdentity_of_exists (hexists : r.recordExists name) :
    r.normalizeLookupIdentity P name = some name := by
  rw [normalizeLookupIdentity_of_folded hfold hhex, resolveFolded, if_pos hexists]

end

theorem normalizeLookupIdentity_idem (hP : P.Lawful) {hint : String}
    (h : r.normalizeLookupIdentity P hint = some i) :
    r.normalizeLookupIdentity P i = some i := by
  rw [normalizeLookupIdentity_eq] at h
  split at h
  next => cases h
  next hvalid =>
    push Not at hvalid
    have hhex := hvalid.2
    have hfold := hP.fold_fold hint hhex
    generalize P.toLowercase (P.trim hint) = folded at h hhex hfold
    have hi : r.resolveFolded P folded = i := Option.some.inj h
    by_cases hown : i = folded
    · rw [hown, normalizeLookupIdentity_of_folded hfold hhex, hi, hown]
    · -- the name was the public key of a registered identity
      have hderived : ∃ bytes : Vector UInt8 32, i = toHex bytes.toList ∧ r.recordExists i := by
        unfold resolveFolded at hi
        split at hi
        next => exact absurd hi.symm hown
        split at hi
        next derived hderived =>
          split at hi
          next hexists =>
            unfold deriveIdentityIdFromPublicKeyHex at hderived
            rw [if_pos hhex] at hderived
            split at hderived
            next => cases hderived
            next bytes _ =>
              split at hderived
              next => cases hderived
              next => grind
          next => exact absurd hi.symm hown
        next => exact absurd hi.symm hown
      obtain ⟨bytes, hbytes, hexists⟩ := hderived
      rw [hbytes] at hexists ⊢
      exact normalizeLookupIdentity_of_exists (hP.fold_hex _) (isHex64_toHex bytes) hexists

/-- An identity that a registration names resolves to itself once it is there. -/
theorem normalizeLookupIdentity_of_normalize (hP : P.Lawful)
    (h : normalizeIdentityId P identityId = .ok i) (hexists : r.recordExists i) :
    r.normalizeLookupIdentity P i = some i := by
  unfold normalizeIdentityId at h
  dsimp only at h
  split at h
  next hhex =>
    cases h
    exact normalizeLookupIdentity_of_exists (hP.fold_fold identityId hhex) hhex hexists
  next => cases h

/-- All that the check before custody can do: fail without looking at the record, or read
the record of the identity that the name stands for, and answer by its state. -/
theorem enforceCustody_cases (hP : P.Lawful) (r : RelayRegistry) (now : Nat)
    (identityId deviceId : String) :
    let out := r.enforceCustody P now identityId deviceId
    (∃ e, out = (.error e, r)) ∨
    ∃ i, r.normalizeLookupIdentity P identityId = some i ∧
      out.2 = (r.getRecordByIdentityId now i).2 ∧
      ((∃ e, out.1 = .error e) ∨
      ∃ record, (r.getRecordByIdentityId now i).1 = some record ∧
        ((∃ seniority, record.state = .active (P.trim deviceId) seniority ∧
            out.1 = .ok (.active i (P.trim deviceId))) ∨
          ∃ f t start, record.state = .handover f t start ∧
            (P.trim deviceId = f ∨ P.trim deviceId = t) ∧ out.1 = .ok (.redirected i f t))) := by
  unfold enforceCustody
  split
  next => exact .inl ⟨_, rfl⟩
  next i hi =>
    split
    next => exact .inl ⟨_, rfl⟩
    next d hdevice =>
      rw [← eq_trim_of_normalizeUuidV4 hdevice]
      have hstate : r.getState P now i = ((r.getRecordByIdentityId now i).1.map
          RegistrationRecord.state, (r.getRecordByIdentityId now i).2) := by
        unfold getState
        rw [normalizeLookupIdentity_idem hP hi]
      rw [hstate]
      refine .inr ⟨i, hi, ?_⟩
      dsimp only
      cases hrecord : (r.getRecordByIdentityId now i).1 with
      | none => exact ⟨rfl, .inl ⟨_, rfl⟩⟩
      | some record =>
        dsimp only [Option.map_some]
        cases hs : record.state with
        | active a seniority => grind
        | handover f t start => grind
        | abandoned => exact ⟨rfl, .inl ⟨_, rfl⟩⟩

/-! ## One call and one identity -/

section
variable (P : Platform) (h : r.recordOf i = some record) (hsettled : Settled now record)
  (identityId deviceId : String)
include h hsettled

/-- What a registration leaves for an identity: the record as it was read, or the new
device if the decision on that record allows it. -/
theorem register_lookup (seniorityTimestamp : Nat) :
    (r.register P now identityId deviceId seniorityTimestamp).2.recordOf i = some record ∨
    normalizeIdentityId P identityId = .ok i ∧ ∃ decision,
      registerDecision now i (P.trim deviceId) (some record) = .ok decision ∧
      (r.register P now identityId deviceId seniorityTimestamp).2.recordOf i
        = some ⟨i, .active (P.trim deviceId) seniorityTimestamp, now⟩ := by
  rcases register_cases P r now identityId deviceId seniorityTimestamp with
    ⟨e, hout⟩ | ⟨j, hid, ⟨e, _, hout⟩ | ⟨sideEffect, reason, hdecision, hout⟩⟩
  · rw [hout]
    exact .inl h
  · rw [hout]
    exact .inl (recordOf_getRecord_of_settled h hsettled j)
  · grind [getRecord_of_settled, recordOf_persistState, recordOf_persistState_ne,
      recordOf_getRecord_of_settled]

theorem deregister_lookup (fromDeviceId : String) (targetDeviceId : Option String) :
    (r.deregister P now identityId fromDeviceId targetDeviceId).2.recordOf i = some record ∨
    normalizeIdentityId P identityId = .ok i ∧ ∃ target state sideEffect reason,
      deregisterDecision now i (P.trim fromDeviceId) target record.state
        = .ok (state, sideEffect, reason) ∧
      (r.deregister P now identityId fromDeviceId targetDeviceId).2.recordOf i
        = some ⟨i, state, now⟩ := by
  rcases deregister_cases P r now identityId fromDeviceId targetDeviceId with
    ⟨e, hout⟩ |
      ⟨j, hid, ⟨e, hout⟩ | ⟨found, target, state, sideEffect, reason, hfound, _, hdecision,
      hout⟩⟩
  · rw [hout]
    exact .inl h
  · rw [hout]
    exact .inl (recordOf_getRecord_of_settled h hsettled j)
  · grind [getRecord_of_settled, recordOf_persistState, recordOf_persistState_ne,
      recordOf_getRecord_of_settled]

end

/-! ## An active device -/

/-- The call names the device as the one that registers or departs, or registers when
nothing was heard of it since `lastRefresh` for too long. -/
def Unsettles (P : Platform) (identityId deviceId : String) (lastRefresh : Nat) :
    RegistryCall → Prop
  | .register now i d _ => normalizeIdentityId P i = .ok identityId ∧
      (P.trim d = deviceId ∨ now - lastRefresh > registrationStaleTakeoverMs)
  | .deregister _ i d _ => normalizeIdentityId P i = .ok identityId ∧ P.trim d = deviceId
  | _ => False

section
variable (P : Platform) {deviceId : String} {seniorityTimestamp : Nat}

theorem active_kept_answer (h : r.recordOf i = some record)
    (hstate : record.state = .active deviceId seniorityTimestamp) {call : RegistryCall}
    (hcall : ¬ Unsettles P i deviceId record.updatedAtMs call) :
    (r.answer P call).2.recordOf i = some record := by
  have hsettled : ∀ now, Settled now record := by
    intro now fromDeviceId toDeviceId initiatedAt hhandover
    rw [hstate] at hhandover
    cases hhandover
  cases call with
  | register now identityId d seniority =>
    rcases register_lookup P h (hsettled now) identityId d seniority with
      hkept | ⟨hid, decision, hdecision, _⟩
    · exact hkept
    · -- the decision is a refresh or a takeover, and neither is possible
      have hsilent : P.trim d ≠ deviceId ∧
          ¬ now - record.updatedAtMs > registrationStaleTakeoverMs := by
        constructor
        · intro hname
          exact hcall ⟨hid, .inl hname⟩
        · intro hlate
          exact hcall ⟨hid, .inr hlate⟩
      unfold registerDecision at hdecision
      simp only [hstate, if_neg hsilent.1.symm, if_neg hsilent.2] at hdecision
      cases hdecision
  | deregister now identityId d target =>
    rcases deregister_lookup P h (hsettled now) identityId d target with
      hkept | ⟨hid, target, state, sideEffect, reason, hdecision, _⟩
    · exact hkept
    · have hother : P.trim d ≠ deviceId := fun hname => hcall ⟨hid, hname⟩
      unfold deregisterDecision at hdecision
      simp only [hstate, if_neg hother.symm] at hdecision
      cases hdecision
  | getState now identityId => exact recordOf_getState_of_settled P h (hsettled now) identityId
  | enforceCustody now identityId d =>
    exact recordOf_enforceCustody_of_settled P h (hsettled now) identityId d

theorem active_kept (hstate : record.state = .active deviceId seniorityTimestamp)
    (calls : List RegistryCall) :
    ∀ r : RelayRegistry, r.recordOf i = some record →
      (∀ call ∈ calls, ¬ Unsettles P i deviceId record.updatedAtMs call) →
      (r.after P calls).recordOf i = some record := by
  induction calls with
  | nil => exact fun r h _ => h
  | cons call calls ih =>
    intro r h hcalls
    exact ih _ (active_kept_answer P h hstate (hcalls call mem_cons_self))
      fun c hc => hcalls c (mem_cons_of_mem call hc)

end

/-! ## A handover -/

/-- The identity is being handed over from `fromDeviceId` to `toDeviceId`. -/
def HandingOver (i fromDeviceId toDeviceId : String) (initiatedAt : Nat) (r : RelayRegistry) :
    Prop :=
  ∃ record, r.recordOf i = some record ∧
    record.state = .handover fromDeviceId toDeviceId initiatedAt

/-- The device registers for the identity. -/
def Registers (P : Platform) (identityId deviceId : String) : RegistryCall → Prop
  | .register _ i d _ => normalizeIdentityId P i = .ok identityId ∧ P.trim d = deviceId
  | _ => False

def ActiveDevice (i deviceId : String) (r : RelayRegistry) : Prop :=
  ∃ record seniorityTimestamp, r.recordOf i = some record ∧
    record.state = .active deviceId seniorityTimestamp

section
variable (P : Platform) {fromDeviceId toDeviceId : String} {initiatedAt : Nat}

/-- Before it is stale, a call leaves a handover under way or completes it. -/
theorem handover_answer (h : HandingOver i fromDeviceId toDeviceId initiatedAt r)
    {call : RegistryCall} (hfresh : call.now - initiatedAt ≤ handoverStaleCollapseMs) :
    HandingOver i fromDeviceId toDeviceId initiatedAt (r.answer P call).2 ∨
      Registers P i toDeviceId call ∧ ActiveDevice i toDeviceId (r.answer P call).2 := by
  obtain ⟨record, hrecord, hstate⟩ := h
  have hsettled : Settled call.now record := by
    intro f t start hhandover
    rw [hstate] at hhandover
    cases hhandover
    exact hfresh
  cases call with
  | register now identityId d seniority =>
    rcases register_lookup P hrecord hsettled identityId d seniority with
      hkept | ⟨hid, decision, hdecision, hnew⟩
    · exact .inl ⟨record, hkept, hstate⟩
    · have htarget : toDeviceId = P.trim d := by
        by_contra hne
        unfold registerDecision at hdecision
        simp only [hstate, if_neg hne] at hdecision
        cases hdecision
      exact .inr ⟨⟨hid, htarget.symm⟩, _, seniority, hnew, by rw [htarget]⟩
  | deregister now identityId d target =>
    rcases deregister_lookup P hrecord hsettled identityId d target with
      hkept | ⟨hid, target, state, sideEffect, reason, hdecision, hnew⟩
    · exact .inl ⟨record, hkept, hstate⟩
    · unfold deregisterDecision at hdecision
      simp only [hstate] at hdecision
      split at hdecision
      next =>
        cases hdecision
        exact .inl ⟨_, hnew, rfl⟩
      next => cases hdecision
  | getState now identityId =>
    exact .inl ⟨record, recordOf_getState_of_settled P hrecord hsettled identityId, hstate⟩
  | enforceCustody now identityId d =>
    exact .inl ⟨record, recordOf_enforceCustody_of_settled P hrecord hsettled identityId d, hstate⟩

/-- Whoever becomes active first after a handover began, before it is stale, is the
device it was for. -/
theorem handover_run (calls : List RegistryCall) :
    ∀ r : RelayRegistry, HandingOver i fromDeviceId toDeviceId initiatedAt r →
      (∀ call ∈ calls, call.now - initiatedAt ≤ handoverStaleCollapseMs) →
      HandingOver i fromDeviceId toDeviceId initiatedAt (r.after P calls) ∨
      ∃ before call later, calls = before ++ call :: later ∧
        HandingOver i fromDeviceId toDeviceId initiatedAt (r.after P before) ∧
        Registers P i toDeviceId call ∧
        ActiveDevice i toDeviceId (r.after P (before ++ [call])) := by
  induction calls with
  | nil => exact fun r h _ => .inl h
  | cons call calls ih =>
    intro r h hfresh
    rcases handover_answer P h (hfresh call mem_cons_self) with hstill | ⟨hnames, hactive⟩
    · rcases ih _ hstill fun c hc => hfresh c (mem_cons_of_mem call hc) with
        hend | ⟨before, done, later, hsplit, hbefore, hnames, hactive⟩
      · exact .inl hend
      · exact .inr ⟨call :: before, done, later, by rw [hsplit]; rfl, hbefore, hnames, hactive⟩
    · exact .inr ⟨[], call, calls, rfl, h, hnames, hactive⟩

end

/-- **Who is active.** From any state of the registry and for any calls: the record of
an active device is as it is until a call names that device as registering or
departing, or registers later than the takeover limit after its last refresh; and a
handover, as long as it is not stale, stays as it is until the device it is for
registers, and then that device is active. -/
theorem device_kept (P : Platform) (r : RelayRegistry) (i : String) (calls : List RegistryCall) :
    (∀ record deviceId seniorityTimestamp, r.recordOf i = some record →
      record.state = .active deviceId seniorityTimestamp →
      (∀ call ∈ calls, ¬ Unsettles P i deviceId record.updatedAtMs call) →
      (r.after P calls).recordOf i = some record) ∧
    (∀ fromDeviceId toDeviceId initiatedAt, HandingOver i fromDeviceId toDeviceId initiatedAt r →
      (∀ call ∈ calls, call.now - initiatedAt ≤ handoverStaleCollapseMs) →
      HandingOver i fromDeviceId toDeviceId initiatedAt (r.after P calls) ∨
      ∃ before call later, calls = before ++ call :: later ∧
        HandingOver i fromDeviceId toDeviceId initiatedAt (r.after P before) ∧
        Registers P i toDeviceId call ∧
        ActiveDevice i toDeviceId (r.after P (before ++ [call]))) :=
  ⟨fun _ _ _ h hstate hcalls => active_kept P hstate calls r h hcalls,
    fun _ _ _ h hfresh => handover_run P calls r h hfresh⟩

end RelayRegistry

/-! ## On ASCII text -/

/-- `Uuid::parse_str` on the two common forms: 32 hex digits, or 36 characters with the
hyphens in their places. -/
def parseUuid (value : String) : Option Bytes :=
  let cs := value.toList
  if cs.length = 32 then hexDecode cs
  else if cs.length = 36 ∧ [8, 13, 18, 23].all (fun i => cs[i]? = some '-') then
    hexDecode (cs.take 8 ++ (cs.drop 9).take 4 ++ (cs.drop 14).take 4 ++ (cs.drop 19).take 4 ++
      cs.drop 24)
  else none

/-- `get_version_num`: the high half of the seventh byte. -/
def uuidVersionNum (uuid : Bytes) : Nat := (uuid.getD 6 0).toNat / 16

/-- The library functions, as far as ASCII text without control characters goes. -/
def asciiPlatform : Platform where
  trim value := String.ofList
    ((value.toList.dropWhile (· = ' ')).reverse.dropWhile (· = ' ')).reverse
  toLowercase value := value.map Char.toLower
  uuidVersion value := (parseUuid value).map uuidVersionNum
  blake3 _ := .replicate 32 0

theorem asciiPlatform_trim (value : String) :
    asciiPlatform.trim value
      = String.ofList ((value.toList.dropWhile (· = ' ')).rdropWhile (· = ' ')) := rfl

theorem asciiPlatform_trim_of_no_space {value : String} (h : ' ' ∉ value.toList) :
    asciiPlatform.trim value = value := by
  have hleft : value.toList.dropWhile (· = ' ') = value.toList := by
    grind [dropWhile_eq_self_iff, getElem_mem]
  have hright : value.toList.rdropWhile (· = ' ') = value.toList := by
    grind [rdropWhile_eq_self_iff, getLast_mem]
  rw [asciiPlatform_trim, hleft, hright, String.ofList_toList]

def someIdentity : String := String.ofList (List.replicate 64 'a')

theorem toList_someIdentity : someIdentity.toList = List.replicate 64 'a' := String.toList_ofList

theorem isHex64_someIdentity : isHex64 someIdentity := by
  unfold isHex64
  rw [toList_someIdentity]
  decide

theorem normalizeIdentityId_someIdentity :
    normalizeIdentityId asciiPlatform someIdentity = .ok someIdentity := by
  have hspace : ' ' ∉ someIdentity.toList := by grind [toList_someIdentity]
  have hlower : asciiPlatform.toLowercase someIdentity = someIdentity := by
    refine String.toList_inj.mp ?_
    show (String.map Char.toLower someIdentity).toList = someIdentity.toList
    rw [String.toList_map, toList_someIdentity, map_replicate]
    rfl
  unfold normalizeIdentityId
  rw [asciiPlatform_trim_of_no_space hspace, hlower]
  exact if_pos isHex64_someIdentity

def tablet : String := "11111111-1111-4111-8111-111111111111"

def phone : String := "22222222-2222-4222-8222-222222222222"

namespace RelayRegistry

def noRegistrations : RelayRegistry := { records := ∅, transitions := ∅, sequence := 0 }

/-- The tablet is active; the phone cannot take over a second later. Then the tablet
hands over to the phone, which registers. -/
theorem device_kept_tablet :
    let registered := noRegistrations.after asciiPlatform [.register 1000 someIdentity tablet 1]
    let leaving :=
      registered.after asciiPlatform [.deregister 3000 someIdentity tablet (some phone)]
    (registered.recordOf someIdentity = some ⟨someIdentity, .active tablet 1, 1000⟩ ∧
      ¬ Unsettles asciiPlatform someIdentity tablet 1000 (.register 2000 someIdentity phone 1) ∧
      (registered.after asciiPlatform [.register 2000 someIdentity phone 1]).recordOf someIdentity
        = some ⟨someIdentity, .active tablet 1, 1000⟩) ∧
    HandingOver someIdentity tablet phone 3000 leaving ∧
    (HandingOver someIdentity tablet phone 3000
        (leaving.after asciiPlatform [.register 4000 someIdentity phone 2]) ∨
      ∃ before call later, [.register 4000 someIdentity phone 2] = before ++ call :: later ∧
        HandingOver someIdentity tablet phone 3000 (leaving.after asciiPlatform before) ∧
        Registers asciiPlatform someIdentity phone call ∧
        ActiveDevice someIdentity phone (leaving.after asciiPlatform (before ++ [call]))) := by
  intro registered leaving
  have hactive :
      registered.recordOf someIdentity = some ⟨someIdentity, .active tablet 1, 1000⟩ := by
    decide +kernel
  have hcall : ¬ Unsettles asciiPlatform someIdentity tablet 1000
      (.register 2000 someIdentity phone 1) := by
    rintro ⟨_, hname | hlate⟩
    · exact absurd hname (by decide +kernel)
    · exact absurd hlate (by decide)
  have hleaving : HandingOver someIdentity tablet phone 3000 leaving :=
    ⟨⟨someIdentity, .handover tablet phone 3000, 3000⟩, by decide +kernel, rfl⟩
  refine ⟨⟨hactive, hcall, ?_⟩, hleaving, ?_⟩
  · refine (device_kept asciiPlatform registered someIdentity _).1 _ _ _ hactive rfl ?_
    intro call hmem
    rw [mem_singleton.mp hmem]
    exact hcall
  · refine (device_kept asciiPlatform leaving someIdentity _).2 _ _ _ hleaving ?_
    intro call hmem
    rw [mem_singleton.mp hmem]
    decide

end RelayRegistry

end Scm.Store
