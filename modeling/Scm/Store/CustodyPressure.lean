import Scm.Store.CustodyLog
import Scm.Store.CustodyQueues

/-!
# Storage pressure and what it costs

The store holds itself to a quota that depends on how full the disk is, and to a
ceiling of 90 % of the disk. `purge_oldest_by_policy` drops records in a fixed order
until enough bytes are gone (`values_purgeOldestByPolicy`); the rest is arithmetic
with the quota, a step function of the usage that grows as custody shrinks
(`targetQuotaBytes_antitone`), except that in an emergency, above 90 %, it is
the whole ceiling.

* `enforceStoragePressure_settled_iff` — when one call leaves the store within quota
  and ceiling, so that a second one finds nothing to do. Coming out of an emergency the
  code purges to the ceiling and does not look at the new quota.
* `acceptCustody_error_spec` — what a refused acceptance may cost.
-/

namespace Scm.Store

open List Collections Runs StoredCustodyRecord StoragePressureContext Option

/-! ## Quota and ceiling -/

theorem asU64_of_le {n : Nat} (h : n ≤ u64Max) : asU64 n = n :=
  Nat.mod_eq_of_lt (Nat.lt_of_le_of_lt h (by decide))

theorem fallbackStorageTotalBytes_eq : fallbackStorageTotalBytes = 8589934592 := by
  unfold fallbackStorageTotalBytes
  omega

/-- The disk sizes of a reading are `u64`s. -/
structure Reading.IsU64 (env : Reading) : Prop where
  snapshot : ∀ snapshot, env.snapshot = some snapshot → snapshot.totalBytes ≤ u64Max
  storageTotal : ∀ total, env.storageTotal = some total → total ≤ u64Max

theorem Reading.IsU64.totalBytes_le {env : Reading} (h : env.IsU64) {scmBytes : Nat}
    {snapshot : DeviceStorageSnapshot}
    (hsnapshot : env.snapshot.or (syntheticStorageSnapshot env scmBytes) = some snapshot) :
    snapshot.totalBytes ≤ u64Max := by
  rcases or_eq_some_iff.mp hsnapshot with hprobe | ⟨_, hsynthetic⟩
  · exact h.snapshot snapshot hprobe
  · have hfallback : fallbackStorageTotalBytes ≤ u64Max := by
      rw [fallbackStorageTotalBytes_eq]
      exact Nat.le_of_ble_eq_true rfl
    have htotal : (env.storageTotal.filter (0 < ·)).getD fallbackStorageTotalBytes ≤ u64Max := by
      cases hvar : env.storageTotal with
      | none => exact hfallback
      | some total =>
        rw [filter_some]
        split
        · exact h.storageTotal total hvar
        · exact hfallback
    unfold syntheticStorageSnapshot at hsynthetic
    dsimp only at hsynthetic
    split at hsynthetic
    next => cases hsynthetic
    cases hsynthetic
    exact htotal

namespace StoragePressureContext

/-- The share of a disk's free space that custody may take, by usage in hundredths
of a percent. -/
def bandPercent (basisPoints : Nat) : Nat :=
  if basisPoints ≤ 2000 then 70
  else if basisPoints ≤ 5000 then 45
  else if basisPoints ≤ 7000 then 25
  else if basisPoints ≤ 8000 then 10
  else if basisPoints ≤ 9000 then 3
  else 0

theorem bandPercent_antitone {a b : Nat} (h : a ≤ b) : bandPercent b ≤ bandPercent a := by
  unfold bandPercent
  repeat' split
  all_goals omega

theorem bandPercent_le (basisPoints : Nat) : bandPercent basisPoints ≤ 70 := by
  unfold bandPercent
  repeat' split
  all_goals omega

/-- The usage `state_for_scm_bytes` computes. -/
def usage (c : StoragePressureContext) (scmBytes : Nat) : Nat :=
  asU64 (saturatingAdd c.nonScmUsedBytes scmBytes * 10000 / c.totalBytes)

/-- The hard ceiling does not depend on the custody bytes. -/
def ceiling (c : StoragePressureContext) : Nat :=
  asU64 (c.totalBytes * deviceUsageCeilingPercent / 100) - c.nonScmUsedBytes

variable (c : StoragePressureContext) (scmBytes : Nat)

theorem hardCeilingBytes_stateForScmBytes :
    (c.stateForScmBytes scmBytes).hardCeilingBytes = c.ceiling := rfl

theorem emergencyMode_stateForScmBytes :
    (c.stateForScmBytes scmBytes).emergencyMode = decide (9000 < c.usage scmBytes) := by
  unfold stateForScmBytes StoragePressureState.emergencyMode usage
  dsimp only
  rw [decide_eq_decide]
  generalize asU64 (saturatingAdd c.nonScmUsedBytes scmBytes * 10000 / c.totalBytes) = basisPoints
  split_ifs
  all_goals
    simp only [false_iff, true_iff]
    omega

theorem targetQuotaBytes_stateForScmBytes :
    (c.stateForScmBytes scmBytes).targetQuotaBytes
      = min (if 9000 < c.usage scmBytes then c.ceiling
          else asU64 ((c.totalBytes - saturatingAdd c.nonScmUsedBytes scmBytes)
            * bandPercent (c.usage scmBytes) / 100)) c.ceiling := by
  unfold stateForScmBytes bandPercent usage ceiling
  dsimp only
  generalize asU64 (saturatingAdd c.nonScmUsedBytes scmBytes * 10000 / c.totalBytes) = basisPoints
  split_ifs
  all_goals first | contradiction | rfl | omega

/-- The numbers of a `u64` disk, with `scmBytes` of custody. -/
structure Fits (c : StoragePressureContext) (scmBytes : Nat) : Prop where
  positive : 0 < c.totalBytes
  total : c.totalBytes ≤ u64Max
  used : c.nonScmUsedBytes + scmBytes ≤ u64Max

variable {c : StoragePressureContext} {n m : Nat}

theorem Fits.mono (h : Fits c n) (hle : m ≤ n) : Fits c m :=
  ⟨h.positive, h.total, (Nat.add_le_add_left hle _).trans h.used⟩

theorem Fits.saturatingAdd_eq (h : Fits c n) :
    saturatingAdd c.nonScmUsedBytes n = c.nonScmUsedBytes + n :=
  Nat.min_eq_left h.used

theorem Fits.ceiling_eq (h : Fits c n) :
    c.ceiling = c.totalBytes * 90 / 100 - c.nonScmUsedBytes := by
  have htotal := h.total
  rw [ceiling, deviceUsageCeilingPercent, asU64_of_le (by omega)]

/-- On a disk that is not overfull the usage is at most 10,000 hundredths. -/
theorem Fits.usage_eq (h : Fits c n) (hroom : c.nonScmUsedBytes + n ≤ c.totalBytes) :
    c.usage n = (c.nonScmUsedBytes + n) * 10000 / c.totalBytes := by
  have hle : (c.nonScmUsedBytes + n) * 10000 / c.totalBytes ≤ 10000 := by
    refine Nat.div_le_of_le_mul ?_
    exact Nat.mul_le_mul_right 10000 hroom
  rw [usage, h.saturatingAdd_eq, asU64_of_le (hle.trans (by decide))]

theorem targetQuotaBytes_le_ceiling (n : Nat) :
    (c.stateForScmBytes n).targetQuotaBytes ≤ c.ceiling := by
  rw [targetQuotaBytes_stateForScmBytes]
  exact Nat.min_le_right _ _

theorem Fits.usage_le (h : Fits c n) (hroom : c.nonScmUsedBytes + n ≤ c.totalBytes * 90 / 100) :
    c.usage n ≤ 9000 := by
  rw [h.usage_eq (by omega)]
  refine Nat.div_le_of_le_mul ?_
  omega

theorem Fits.targetQuotaBytes_antitone (h : Fits c n) (hcalm : c.usage n ≤ 9000) (hle : m ≤ n) :
    (c.stateForScmBytes n).targetQuotaBytes ≤ (c.stateForScmBytes m).targetQuotaBytes := by
  simp only [targetQuotaBytes_stateForScmBytes, if_neg (Nat.not_lt.mpr hcalm), h.saturatingAdd_eq,
    (h.mono hle).saturatingAdd_eq]
  by_cases hroom : c.nonScmUsedBytes + n ≤ c.totalBytes
  · have husage : c.usage m ≤ c.usage n := by
      rw [h.usage_eq hroom, (h.mono hle).usage_eq (by omega)]
      exact Nat.div_le_div_right (by omega)
    rw [if_neg (by omega)]
    have hproduct : (c.totalBytes - (c.nonScmUsedBytes + n)) * bandPercent (c.usage n)
        ≤ (c.totalBytes - (c.nonScmUsedBytes + m)) * bandPercent (c.usage m) :=
      Nat.mul_le_mul (by omega) (bandPercent_antitone husage)
    have hbound : (c.totalBytes - (c.nonScmUsedBytes + m)) * bandPercent (c.usage m)
        ≤ c.totalBytes * 70 := Nat.mul_le_mul (by omega) (bandPercent_le _)
    have htotal := h.total
    rw [asU64_of_le (by omega), asU64_of_le (by omega)]
    omega
  · -- the disk is overfull: nothing is free, and the quota is zero
    rw [Nat.sub_eq_zero_of_le (by omega), Nat.zero_mul, Nat.zero_div]
    exact (Nat.min_le_left _ _).trans (Nat.zero_le _)

end StoragePressureContext

/-! ## Purges -/

namespace RelayCustodyStore

/-- The records in the order in which they are purged. -/
def purgeOrder (s : RelayCustodyStore) : List StoredCustodyRecord :=
  s.loadStoredRecords.insertionSort s.purgeLe

def bytesOf (records : List StoredCustodyRecord) : Nat :=
  (records.map serializedBytes).sum

/-- The records keep their sizes with them. -/
def Sized (records : List StoredCustodyRecord) : Prop :=
  ∀ c ∈ records, c.serializedBytes = serializedRecordBytes c.record

variable {incoming : Option CustodyMessage} {env : Reading} {s s' t : RelayCustodyStore}
  {c : StoragePressureContext}

theorem Sized.bytes_eq {records : List StoredCustodyRecord} (h : Sized records)
    (hvalues : s.values.Perm (records.map record)) :
    s.currentScmStorageBytes = bytesOf records := by
  rw [currentScmStorageBytes, (hvalues.map serializedRecordBytes).sum_nat, List.map_map, bytesOf]
  refine congrArg List.sum (map_congr_left fun c hc => ?_)
  exact (h c hc).symm

theorem Sized.suffix {records tail : List StoredCustodyRecord} (h : Sized records)
    (htail : tail <:+ records) : Sized tail :=
  fun c hc => h c (htail.subset hc)

section
variable (s : RelayCustodyStore)

theorem sized_purgeOrder : Sized s.purgeOrder := by
  intro c hc
  rw [purgeOrder, mem_insertionSort, loadStoredRecords] at hc
  obtain ⟨r, _, rfl⟩ := mem_map.mp hc
  rfl

theorem values_perm_purgeOrder :
    s.values.Perm (s.purgeOrder.map record) := by
  have hload : s.loadStoredRecords.map record = s.values := by
    rw [loadStoredRecords, List.map_map]
    exact map_id _
  exact (hload ▸ (perm_insertionSort s.purgeLe s.loadStoredRecords).map _).symm

theorem bytesOf_purgeOrder :
    bytesOf s.purgeOrder = s.currentScmStorageBytes :=
  ((sized_purgeOrder s).bytes_eq (values_perm_purgeOrder s)).symm

theorem bytesOf_dropCovering_le (required : Nat) :
    bytesOf (dropCovering serializedBytes s.purgeOrder required)
      ≤ s.currentScmStorageBytes - required := by
  rw [← bytesOf_purgeOrder]
  exact sum_dropCovering_le _ _ _

end

theorem values_perm_removeMessage {destination custodyId : String} {r : CustodyMessage}
    (h : s.messages.lookup (messageKey destination custodyId) = some r) :
    s.values.Perm (r :: (s.removeMessage destination custodyId).values) := by
  unfold values
  exact (entries_perm_erase h).map fun entry : Sigma fun _ : String => CustodyMessage => entry.2

section
variable (now : Nat) (reason : String) (candidates : List StoredCustodyRecord)

theorem purgeLoop_values :
    ∀ (required records bytes : Nat) (s : RelayCustodyStore),
      Stocked s (candidates.map record) →
      s.values.Perm (candidates.map record) →
      (purgeLoop now reason candidates required records bytes s).2.values.Perm
        ((dropCovering serializedBytes candidates required).map
          record) := by
  induction candidates with
  | nil => exact fun _ _ _ _ _ hvalues => hvalues
  | cons candidate candidates ih =>
    intro required records bytes s hstocked hvalues
    unfold purgeLoop dropCovering
    dsimp only
    by_cases hrequired : required = 0
    · grind
    · rw [if_neg hrequired, if_neg hrequired]
      have hfirst := hstocked.lookup candidate.record mem_cons_self
      exact ih (required - candidate.serializedBytes) (records + 1)
        (saturatingAdd bytes candidate.serializedBytes)
        ((s.recordTransition now candidate.record (some candidate.record.state)
          candidate.record.state (reason ++ "_purged")).removeMessage
          candidate.record.destinationPeerId candidate.record.custodyId)
        (hstocked.tail fun key hkey => AList.lookup_erase_ne hkey)
        ((values_perm_removeMessage hfirst).symm.trans hvalues).cons_inv

/-- What the loop counts: the records it removes, and their bytes up to the largest
`u64`. -/
theorem purgeLoop_counts :
    ∀ (front : List StoredCustodyRecord) (required records bytes : Nat) (s : RelayCustodyStore),
      candidates = front ++ dropCovering serializedBytes candidates required →
      bytes ≤ u64Max →
      (purgeLoop now reason candidates required records bytes s).1
        = (records + front.length, min (bytes + bytesOf front) u64Max) := by
  induction candidates with
  | nil =>
    intro front required records bytes s hfront hbytes
    have hnil : front = [] := (append_eq_nil_iff.mp hfront.symm).1
    rw [hnil]
    exact Prod.ext rfl (Nat.min_eq_left hbytes).symm
  | cons candidate candidates ih =>
    intro front required records bytes s hfront hbytes
    unfold purgeLoop
    by_cases hrequired : required = 0
    · rw [hrequired, dropCovering_zero] at hfront
      have hnil : front = [] := self_eq_append_left.mp hfront
      rw [if_pos hrequired, hnil]
      exact Prod.ext rfl (Nat.min_eq_left hbytes).symm
    · rw [if_neg hrequired]
      unfold dropCovering at hfront
      rw [if_neg hrequired] at hfront
      cases front with
      | nil =>
        -- the rest cannot be longer than the candidates after this one
        have hle := (dropCovering_suffix serializedBytes candidates
          (required - candidate.serializedBytes)).length_le
        have hlength := congrArg List.length hfront
        rw [nil_append, length_cons] at hlength
        omega
      | cons first front =>
        rw [cons_append, List.cons.injEq] at hfront
        obtain ⟨rfl, hrest⟩ := hfront
        dsimp only
        have hbound : saturatingAdd bytes candidate.serializedBytes ≤ u64Max := Nat.min_le_right _ _
        rw [ih front _ (records + 1) _ _ hrest hbound]
        refine Prod.ext ?_ ?_
        · grind
        · show min (min (bytes + candidate.serializedBytes) u64Max + bytesOf front) u64Max
            = min (bytes + bytesOf (candidate :: front)) u64Max
          rw [bytesOf, bytesOf, map_cons, sum_cons]
          omega

end

/-- **What a purge leaves**: the records after the shortest initial part of the
purge order that covers the required bytes. -/
theorem values_purgeOldestByPolicy (h : Keyed s) (hfit : s.currentScmStorageBytes ≤ u64Max)
    (now required : Nat) (reason : String) :
    let out := s.purgeOldestByPolicy now required reason
    let rest := dropCovering serializedBytes s.purgeOrder required
    out.2.values.Perm (rest.map record) ∧
      out.2.currentScmStorageBytes = bytesOf rest ∧
      s.currentScmStorageBytes - out.1.2 = bytesOf rest := by
  have hspec : let out := s.purgeOldestByPolicy now required reason
      let rest := dropCovering serializedBytes s.purgeOrder required
      out.2.values.Perm (rest.map record) ∧
        out.1.2 + bytesOf rest = bytesOf s.purgeOrder := by
    unfold purgeOldestByPolicy
    by_cases hrequired : required = 0
    · simp_all [dropCovering_zero, values_perm_purgeOrder]
    · rw [if_neg hrequired]
      obtain ⟨front, hsplit, _, _⟩ := dropCovering_split serializedBytes
        s.purgeOrder required
      refine ⟨purgeLoop_values now reason s.purgeOrder required 0 0 s h.stocked_candidates
        (values_perm_purgeOrder s), ?_⟩
      have hsum : bytesOf s.purgeOrder = bytesOf front
          + bytesOf (dropCovering serializedBytes s.purgeOrder required) := by
        grind [bytesOf]
      have hcounts := congrArg Prod.snd (purgeLoop_counts now reason s.purgeOrder front required 0 0
        s hsplit (Nat.zero_le _))
      have htotal := bytesOf_purgeOrder s
      have hbytes : (purgeLoop now reason s.purgeOrder required 0 0 s).1.2 = bytesOf front := by
        omega
      show (purgeLoop now reason s.purgeOrder required 0 0 s).1.2 + _ = _
      rw [hbytes, hsum]
  obtain ⟨hvalues, hbytes⟩ := hspec
  have hsuffix := dropCovering_suffix serializedBytes s.purgeOrder required
  refine ⟨hvalues, ((sized_purgeOrder s).suffix hsuffix).bytes_eq hvalues, ?_⟩
  rw [← bytesOf_purgeOrder]
  omega

/-! ## One call of `enforce_storage_pressure` -/

/-- The disk as a call sees it: its size and what is on it besides custody. -/
def pressureContext (s : RelayCustodyStore) (env : Reading) : Option StoragePressureContext :=
  match env.snapshot.or (syntheticStorageSnapshot env s.currentScmStorageBytes) with
  | none => none
  | some snapshot => fromSnapshot snapshot s.currentScmStorageBytes

theorem fits_of_pressureContext (h : s.pressureContext env = some c) (henv : env.IsU64)
    (hscm : s.currentScmStorageBytes ≤ u64Max) : c.Fits s.currentScmStorageBytes := by
  unfold pressureContext at h
  split at h
  next => cases h
  next snapshot hsnapshot =>
    have htotal := henv.totalBytes_le hsnapshot
    unfold fromSnapshot at h
    split at h
    next => cases h
    next hpositive =>
      cases h
      refine ⟨Nat.pos_of_ne_zero hpositive, htotal, ?_⟩
      dsimp only
      omega

theorem enforceStoragePressureInternal_of_none (h : s.pressureContext env = none)
    (incoming : Option CustodyMessage) :
    s.enforceStoragePressureInternal env incoming = (.error "invalid_storage_snapshot", s) := by
  unfold pressureContext at h
  unfold enforceStoragePressureInternal
  split at h
  next hsnapshot => simp only [hsnapshot]
  next snapshot hsnapshot => simp only [hsnapshot, h]

theorem pressureContext_of_ok {report : StoragePressureReport}
    (h : (s.enforceStoragePressureInternal env incoming).1 = .ok report) :
    ∃ c, s.pressureContext env = some c := by
  cases hc : s.pressureContext env with
  | none =>
    rw [enforceStoragePressureInternal_of_none hc] at h
    cases h
  | some c => exact ⟨c, rfl⟩

/-- The bytes over the quota. -/
abbrev excess (s : RelayCustodyStore) (c : StoragePressureContext) : Nat :=
  s.currentScmStorageBytes - (c.stateForScmBytes s.currentScmStorageBytes).targetQuotaBytes

/-- A foreign write in an emergency. -/
abbrev Foreign (s : RelayCustodyStore) (c : StoragePressureContext)
    (incoming : Option CustodyMessage) : Prop :=
  (c.stateForScmBytes s.currentScmStorageBytes).emergencyMode ∧
    (incoming.map fun r => !s.isIdentityRelatedRecord r).getD false

theorem enforceStoragePressureInternal_of_foreign (h : s.pressureContext env = some c)
    (hforeign : s.Foreign c incoming) :
    ∃ report, s.enforceStoragePressureInternal env incoming
      = (.ok report, (s.purgeOldestByPolicy env.now (s.currentScmStorageBytes - c.ceiling)
          "storage_pressure_emergency").2) := by
  unfold pressureContext at h
  unfold enforceStoragePressureInternal
  split at h
  next => cases h
  next snapshot hsnapshot =>
    simp only [hsnapshot, h, if_pos hforeign, hardCeilingBytes_stateForScmBytes]
    exact ⟨_, rfl⟩

theorem enforceStoragePressureInternal_eq {first second : RelayCustodyStore}
    (h : s.pressureContext env = some c) {purged morePurged : Nat × Nat}
    (hown : ¬ s.Foreign c incoming)
    (hfirst : s.purgeOldestByPolicy env.now (s.excess c) "storage_pressure_target_quota"
      = (purged, first))
    (hsecond : first.purgeOldestByPolicy env.now
      (s.currentScmStorageBytes - purged.2 - c.ceiling) "storage_pressure_hard_ceiling"
        = (morePurged, second)) :
    ∃ report, s.enforceStoragePressureInternal env incoming = (.ok report, second) ∧
      report.purgedRecords = purged.1 + morePurged.1 ∧
      report.purgedBytes = saturatingAdd purged.2 morePurged.2 := by
  unfold pressureContext at h
  unfold enforceStoragePressureInternal
  split at h
  next => cases h
  next snapshot hsnapshot =>
    simp only [hsnapshot, h, if_neg hown, hfirst, hardCeilingBytes_stateForScmBytes, hsecond]
    exact ⟨_, rfl, rfl, rfl⟩

theorem enforceStoragePressureInternal_error {e : String}
    (h : s.enforceStoragePressureInternal env incoming = (.error e, t)) :
    e = "invalid_storage_snapshot" := by
  cases hc : s.pressureContext env with
  | none =>
    rw [enforceStoragePressureInternal_of_none hc] at h
    cases h
    rfl
  | some c =>
    by_cases hforeign : s.Foreign c incoming
    · obtain ⟨report, hout⟩ := enforceStoragePressureInternal_of_foreign hc hforeign
      cases h.symm.trans hout
    · obtain ⟨report, hout, _⟩ := enforceStoragePressureInternal_eq hc hforeign rfl rfl
      cases h.symm.trans hout

theorem enforceStoragePressureInternal_idle (h : s.pressureContext env = some c)
    (hown : ¬ s.Foreign c incoming)
    (hquota : s.currentScmStorageBytes
      ≤ (c.stateForScmBytes s.currentScmStorageBytes).targetQuotaBytes) :
    ∃ report, s.enforceStoragePressureInternal env incoming = (.ok report, s) ∧
      report.purgedRecords = 0 ∧ report.purgedBytes = 0 := by
  have hceiling := hquota.trans (c.targetQuotaBytes_le_ceiling s.currentScmStorageBytes)
  have hpurge : ∀ reason, s.purgeOldestByPolicy env.now 0 reason = ((0, 0), s) :=
    fun _ => if_pos rfl
  have hfirst : s.purgeOldestByPolicy env.now (s.excess c)
        "storage_pressure_target_quota" = ((0, 0), s) := by simp_all
  have hsecond : s.purgeOldestByPolicy env.now (s.currentScmStorageBytes - 0 - c.ceiling)
      "storage_pressure_hard_ceiling" = ((0, 0), s) := by simp_all
  exact enforceStoragePressureInternal_eq h hown hfirst hsecond

/-- What one call leaves. The first purge goes to the quota, which is never above the
ceiling, so the second one has nothing to do. -/
theorem values_enforceStoragePressure (hkeyed : Keyed s) (h : s.pressureContext env = some c)
    (hscm : s.currentScmStorageBytes ≤ u64Max) :
    let rest := dropCovering serializedBytes s.purgeOrder (s.excess c)
    ∃ report s', s.enforceStoragePressure env = (.ok report, s') ∧
      s'.values.Perm (rest.map record) ∧
      s'.currentScmStorageBytes = bytesOf rest := by
  intro rest
  have hpurge := values_purgeOldestByPolicy hkeyed hscm env.now (s.excess c)
    "storage_pressure_target_quota"
  rcases hfirst : s.purgeOldestByPolicy env.now (s.excess c)
    "storage_pressure_target_quota" with ⟨purged, s'⟩
  rw [hfirst] at hpurge
  obtain ⟨hvalues, hbytes, hleft⟩ := hpurge
  have hceiling : bytesOf rest ≤ c.ceiling := by
    have hrest : bytesOf rest ≤ _ := bytesOf_dropCovering_le s _
    have hquota := c.targetQuotaBytes_le_ceiling s.currentScmStorageBytes
    rw [excess] at hrest
    omega
  have hsecond : s'.purgeOldestByPolicy env.now (s.currentScmStorageBytes - purged.2 - c.ceiling)
      "storage_pressure_hard_ceiling" = ((0, 0), s') := by
    rw [show s.currentScmStorageBytes - purged.2 = bytesOf rest from hleft,
      Nat.sub_eq_zero_of_le hceiling]
    exact if_pos rfl
  have hnone : ¬ s.Foreign c none :=
    fun hown => Bool.false_ne_true hown.2
  obtain ⟨report, hout, _⟩ := enforceStoragePressureInternal_eq h hnone hfirst hsecond
  exact ⟨report, s', hout, hvalues, hbytes⟩

/-- With the rest of the disk as in `c`, nothing is left or what is left is within
quota and ceiling, and another call purges nothing. -/
structure Settled (c : StoragePressureContext) (s : RelayCustodyStore) : Prop where
  within : s.values = [] ∨
    s.currentScmStorageBytes ≤ (c.stateForScmBytes s.currentScmStorageBytes).targetQuotaBytes ∧
      s.currentScmStorageBytes ≤ (c.stateForScmBytes s.currentScmStorageBytes).hardCeilingBytes
  again : ∀ env, s.pressureContext env = some c → ∃ report,
    s.enforceStoragePressure env = (.ok report, s) ∧ report.purgedRecords = 0 ∧
      report.purgedBytes = 0

theorem settled_iff :
    Settled c s ↔
      s.currentScmStorageBytes
        ≤ (c.stateForScmBytes s.currentScmStorageBytes).targetQuotaBytes := by
  constructor
  · intro h
    rcases h.within with hnone | ⟨hquota, _⟩
    · simp_all [currentScmStorageBytes]
    · exact hquota
  · intro hquota
    refine ⟨.inr ⟨hquota, hquota.trans (c.targetQuotaBytes_le_ceiling _)⟩, fun env henv => ?_⟩
    exact enforceStoragePressureInternal_idle henv (fun hown => Bool.false_ne_true hown.2) hquota

/-- The records that fit under the ceiling fit their own quota: every tail of the
purge order that is within the one is within the other. -/
def TailsFit (c : StoragePressureContext) (s : RelayCustodyStore) : Prop :=
  ∀ tail, tail <:+ s.purgeOrder → bytesOf tail ≤ c.ceiling →
    bytesOf tail ≤ (c.stateForScmBytes (bytesOf tail)).targetQuotaBytes

/-- In an emergency the call purges to the ceiling and stays there. -/
theorem emergency_settled_iff (hfits : c.Fits s.currentScmStorageBytes) :
    let left := bytesOf (dropCovering serializedBytes s.purgeOrder
      (s.currentScmStorageBytes - c.ceiling))
    left ≤ (c.stateForScmBytes left).targetQuotaBytes ↔ TailsFit c s := by
  intro left
  have hsuffix := dropCovering_suffix serializedBytes s.purgeOrder
    (s.currentScmStorageBytes - c.ceiling)
  have hleft : left ≤ s.currentScmStorageBytes - (s.currentScmStorageBytes - c.ceiling) :=
    bytesOf_dropCovering_le s _
  constructor
  · intro hquota tail htail hceiling
    by_cases hempty : bytesOf tail = 0
    · rw [hempty]
      exact Nat.zero_le _
    · -- a smaller tail has a larger quota, as there is no emergency below the ceiling
      have hscm : bytesOf tail ≤ s.currentScmStorageBytes := by
        rw [← bytesOf_purgeOrder]
        exact sum_le_of_suffix _ htail
      have hsum : (tail.map serializedBytes).sum
          + (s.currentScmStorageBytes - c.ceiling)
          ≤ (s.purgeOrder.map serializedBytes).sum := by
        show bytesOf tail + _ ≤ bytesOf s.purgeOrder
        rw [bytesOf_purgeOrder]
        omega
      have hle : bytesOf tail ≤ left := sum_le_of_suffix _ (suffix_dropCovering _ htail hsum)
      have hfit : c.Fits left := hfits.mono (by omega)
      have hcalm : c.usage left ≤ 9000 := by
        refine hfit.usage_le ?_
        rw [hfits.ceiling_eq] at hleft hceiling
        omega
      exact hle.trans (hquota.trans (hfit.targetQuotaBytes_antitone hcalm hle))
  · intro hfit
    exact hfit _ hsuffix (by
      show left ≤ c.ceiling
      omega)

/-- **When one call is enough.** Whenever the call succeeds, it leaves the store
settled exactly when it did not find an emergency or the records that fit under the
ceiling fit their quota. -/
theorem enforceStoragePressure_settled_iff {s s' : RelayCustodyStore} (hkeyed : Keyed s)
    (hscm : s.currentScmStorageBytes ≤ u64Max) {env : Reading} (henv : env.IsU64)
    {report : StoragePressureReport} (hok : s.enforceStoragePressure env = (.ok report, s')) :
    ∃ c, s.pressureContext env = some c ∧
      (Settled c s' ↔
        (c.stateForScmBytes s.currentScmStorageBytes).emergencyMode = false ∨ TailsFit c s) := by
  obtain ⟨c, h⟩ := pressureContext_of_ok (congrArg Prod.fst hok)
  refine ⟨c, h, ?_⟩
  have hfits := fits_of_pressureContext h henv hscm
  obtain ⟨_, _, hout, _, hbytes⟩ := values_enforceStoragePressure hkeyed h hscm
  cases hok.symm.trans hout
  rw [settled_iff, hbytes, StoragePressureContext.emergencyMode_stateForScmBytes,
    decide_eq_false_iff_not]
  by_cases hemergency : 9000 < c.usage s.currentScmStorageBytes
  · -- the quota is the ceiling
    have hquota : (c.stateForScmBytes s.currentScmStorageBytes).targetQuotaBytes = c.ceiling := by
      rw [StoragePressureContext.targetQuotaBytes_stateForScmBytes, if_pos hemergency, Nat.min_self]
    rw [excess, hquota]
    refine (emergency_settled_iff hfits).trans ⟨.inr, ?_⟩
    rintro (hcalm | hfit)
    · exact absurd hemergency hcalm
    · exact hfit
  · refine iff_of_true ?_ (.inl hemergency)
    have hleft := bytesOf_dropCovering_le s (s.excess c)
    rw [excess] at hleft ⊢
    refine (hleft.trans ?_).trans (hfits.targetQuotaBytes_antitone (Nat.le_of_not_lt hemergency)
      (hleft.trans (Nat.sub_le _ _)))
    omega

/-- Two records of 88 bytes each. -/
def twoAcceptances : List Event :=
  [.call (.acceptCustody (idleReading 1000) "alice" "bob" "m1" [1, 2, 3] none none),
    .call (.acceptCustody (idleReading 2000) "alice" "bob" "m2" [4, 5, 6] none none)]

def twoRecords : RelayCustodyStore := run (after plainPlatform) (empty none 0) twoAcceptances

/-- A call on a disk that was probed. -/
def diskReading (now totalBytes usedBytes : Nat) : Reading where
  now := now
  snapshot := some { totalBytes, usedBytes }
  writeSnapshot := some { totalBytes, usedBytes }
  storageTotal := none
  storageUsed := none

/-- The two records on a disk of 500 bytes that is half full: the call succeeds. -/
theorem enforceStoragePressure_settled_twoRecords :
    (∃ report, twoRecords.enforceStoragePressure (diskReading 3000 500 250)
        = (.ok report, (twoRecords.enforceStoragePressure (diskReading 3000 500 250)).2)) ∧
      ∃ c, twoRecords.pressureContext (diskReading 3000 500 250) = some c ∧
        (Settled c (twoRecords.enforceStoragePressure (diskReading 3000 500 250)).2 ↔
          (c.stateForScmBytes twoRecords.currentScmStorageBytes).emergencyMode = false ∨
            TailsFit c twoRecords) := by
  have hkeyed : Keyed twoRecords :=
    (regular_run plainPlatform (regular_empty none 0) twoAcceptances).keyed
  have hok : twoRecords.enforceStoragePressure (diskReading 3000 500 250)
      = (.ok { emergencyMode := false, hardCeilingBytes := 376, targetQuotaBytes := 152
               scmBytesBefore := 176, scmBytesAfter := 88, purgedRecords := 1, purgedBytes := 88 },
          (twoRecords.enforceStoragePressure (diskReading 3000 500 250)).2) :=
    Prod.ext (by decide +kernel) rfl
  exact ⟨⟨_, hok⟩, enforceStoragePressure_settled_iff hkeyed (by decide +kernel)
    ⟨fun _ h => (Option.some.inj h) ▸ (by decide), nofun⟩ hok⟩

/-- On a full disk of 500 bytes, 324 of them not custody's, the call purges one of the
two records and leaves the other, 88 bytes under a ceiling of 126 with a quota of 2. A
second call, with the same 324 bytes, purges it. -/
theorem emergency_leaves_more_than_quota :
    let s' := (twoRecords.enforceStoragePressure (diskReading 3000 500 500)).2
    twoRecords.pressureContext (diskReading 3000 500 500) = some ⟨500, 324⟩ ∧
      (∃ report, (twoRecords.enforceStoragePressure (diskReading 3000 500 500)).1 = .ok report) ∧
      s'.values ≠ [] ∧ s'.currentScmStorageBytes = 88 ∧
      ((StoragePressureContext.mk 500 324).stateForScmBytes 88).targetQuotaBytes = 2 ∧
      s'.pressureContext (diskReading 3000 500 412) = some ⟨500, 324⟩ ∧
      ((s'.enforceStoragePressure (diskReading 3000 500 412)).1.map
        StoragePressureReport.purgedRecords) = .ok 1 := by
  refine ⟨by decide +kernel, ⟨_, rfl⟩, by decide +kernel, by decide +kernel, by decide +kernel,
    by decide +kernel, by decide +kernel⟩

/-! ## A device with room

Without a probe and without variables set, the store reckons with a disk of 8 GiB
that holds nothing but custody. -/

theorem stateForScmBytes_idle (htotal : c.totalBytes = 8589934592) (hother : c.nonScmUsedBytes = 0)
    {scmBytes : Nat} (h : scmBytes ≤ 1000000000) :
    (c.stateForScmBytes scmBytes).emergencyMode = false ∧
      scmBytes ≤ (c.stateForScmBytes scmBytes).targetQuotaBytes := by
  have hmax : u64Max = 18446744073709551615 := rfl
  have hfits : c.Fits scmBytes := ⟨by omega, by omega, by omega⟩
  have husage : c.usage scmBytes ≤ 2000 := by
    rw [hfits.usage_eq (by omega), htotal, hother]
    omega
  have hcalm : ¬ 9000 < c.usage scmBytes := by omega
  constructor
  · rw [emergencyMode_stateForScmBytes]
    exact decide_eq_false hcalm
  · rw [targetQuotaBytes_stateForScmBytes, if_neg hcalm, hfits.saturatingAdd_eq, hfits.ceiling_eq,
      bandPercent, if_pos husage, htotal, hother, asU64_of_le (by omega)]
    omega

-- The size stays a variable: as a closed number it would be computed with.
section
variable {total scmBytes : Nat} (htotal : fallbackStorageTotalBytes = total) (hpositive : total ≠ 0)
include htotal hpositive

theorem syntheticStorageSnapshot_idle (hle : scmBytes ≤ total) (hsize : env.storageTotal = none)
    (hused : env.storageUsed = none) :
    syntheticStorageSnapshot env scmBytes = some ⟨total, scmBytes⟩ := by
  unfold syntheticStorageSnapshot
  rw [hsize, hused, htotal]
  simp only [filter_none, getD_none, map_none, if_neg hpositive,
    Nat.min_eq_left hle]

theorem pressureContext_idle (hle : s.currentScmStorageBytes ≤ total)
    (hsnapshot : env.snapshot = none) (hsize : env.storageTotal = none)
    (hused : env.storageUsed = none) : s.pressureContext env = some ⟨total, 0⟩ := by
  unfold pressureContext
  rw [hsnapshot, none_or, syntheticStorageSnapshot_idle htotal hpositive hle hsize hused]
  dsimp only
  rw [fromSnapshot, if_neg hpositive]
  dsimp only
  rw [Nat.min_eq_left hle, Nat.sub_self]

end

theorem acceptCustody_idle (P : Platform) (h : s.currentScmStorageBytes ≤ 1000000000) (now : Nat)
    (source : String) {destination relayMessageId : String} (data : Bytes)
    (hnone : s.findExisting destination relayMessageId = none)
    (hroom : (s.pendingForDestination destination usizeMax).length < maxPendingPerDestination) :
    let message := acceptedMessage now s.registry.sequence source destination relayMessageId
      data none none
    s.acceptCustody P (idleReading now) source destination relayMessageId data none none
      = (.ok message, s.drawSequence.enter now message "custody_accepted") := by
  intro message
  have hdrawn : s.drawSequence.currentScmStorageBytes ≤ 1000000000 := h
  obtain ⟨total, htotal⟩ : ∃ total, fallbackStorageTotalBytes = total := ⟨_, rfl⟩
  have hsize : total = 8589934592 := htotal.symm.trans fallbackStorageTotalBytes_eq
  have hc : s.drawSequence.pressureContext (idleReading now) = some ⟨total, 0⟩ :=
    pressureContext_idle htotal (by omega) (by omega) rfl rfl rfl
  obtain ⟨hcalm, hquota⟩ :=
    stateForScmBytes_idle (c := ⟨total, 0⟩) hsize rfl hdrawn
  have hown : ¬ s.drawSequence.Foreign ⟨total, 0⟩ (some message) :=
    fun hown => Bool.false_ne_true (hcalm.symm.trans hown.1)
  obtain ⟨_, hinternal, _⟩ := enforceStoragePressureInternal_idle hc hown hquota
  have hwrite : s.drawSequence.enforceStoragePressureForWrite (idleReading now) message
      = (.ok (), s.drawSequence) := by
    rw [enforceStoragePressureForWrite, hinternal]
    rfl
  unfold acceptCustody
  rw [hnone]
  dsimp only
  rw [bind_none, map_none, filter_none, checkDevice]
  dsimp only
  rw [if_neg (Nat.not_le.mpr hroom), show (idleReading now).now = now from rfl, hwrite]
  rfl

/-! ## A refused acceptance -/

theorem localIdentity_purgeOldestByPolicy (s : RelayCustodyStore) (now required : Nat)
    (reason : String) :
    (s.purgeOldestByPolicy now required reason).2.localIdentity = s.localIdentity :=
  purgeOldestByPolicy_keeps (p := fun t => t.localIdentity = s.localIdentity)
    (fun _ _ _ ht => ht) rfl required reason

/-- What is left when a foreign write meets an emergency. -/
def EmergencyPurge (s : RelayCustodyStore) (env : Reading) (s' : RelayCustodyStore) : Prop :=
  ∃ c, s.pressureContext env = some c ∧
    ((c.stateForScmBytes s.currentScmStorageBytes).emergencyMode →
      s'.values.Perm ((dropCovering serializedBytes s.purgeOrder
        (s.currentScmStorageBytes - c.ceiling)).map record))

/-- The refusals that are about storage pressure. -/
def IsPressureError (e : String) : Prop :=
  e = "emergency_mode_non_critical_rejected" ∨ e = "invalid_storage_snapshot" ∨
    ∃ numbers, e = "storage_pressure_capacity_exceeded: projected=" ++ numbers

theorem append_ne_emergency {text : String} (h : text.toList.head?.any (· ≠ 'e'))
    (rest : String) : text ++ rest ≠ "emergency_mode_non_critical_rejected" := by
  intro heq
  have hfirst := congrArg (fun t : String => t.toList.head?) heq
  rw [String.toList_append] at hfirst
  cases htext : text.toList with
  | nil =>
    rw [htext] at h
    cases h
  | cons c cs =>
    rw [htext] at h hfirst
    cases Option.some.inj hfirst
    cases h

theorem currentScmStorageBytes_congr (h : t.messages = s.messages) :
    t.currentScmStorageBytes = s.currentScmStorageBytes := by
  simp only [currentScmStorageBytes, values, h]

/-- The purge order is a matter of the records and the relay's own identity. -/
theorem purgeOrder_congr (hmessages : t.messages = s.messages)
    (hidentity : t.localIdentity = s.localIdentity) : t.purgeOrder = s.purgeOrder := by
  have hload : t.loadStoredRecords = s.loadStoredRecords := by
    simp only [loadStoredRecords, values, hmessages]
  have hle : t.purgeLe = s.purgeLe := by
    funext a b
    unfold purgeLe isIdentityRelatedRecord
    rw [hidentity]
  unfold purgeOrder
  simp only [hload, hle]

theorem EmergencyPurge.congr (h : EmergencyPurge t env s') (hmessages : t.messages = s.messages)
    (hidentity : t.localIdentity = s.localIdentity) : EmergencyPurge s env s' := by
  obtain ⟨c, hc, hpurge⟩ := h
  rw [currentScmStorageBytes_congr hmessages, purgeOrder_congr hmessages hidentity] at hpurge
  rw [pressureContext, currentScmStorageBytes_congr hmessages] at hc
  exact ⟨c, hc, hpurge⟩

theorem localIdentity_of_checkDevice {P : Platform} {now : Nat}
    {identityId deviceId : Option String} {result : Except String String}
    (h : s.checkDevice P now identityId deviceId = (result, t)) :
    t.localIdentity = s.localIdentity := by
  unfold checkDevice at h
  repeat' split at h
  all_goals
    cases h
    rfl

/-- The device check refuses with the registry's codes. -/
theorem checkDevice_ne_emergency {P : Platform} {now : Nat} {identityId deviceId : Option String}
    {e : String} (h : s.checkDevice P now identityId deviceId = (.error e, t)) :
    e ≠ "emergency_mode_non_critical_rejected" := by
  have hcode (error : CustodyError) : error.asCode ≠ "emergency_mode_non_critical_rejected" := by
    cases error <;> decide
  unfold checkDevice at h
  repeat' split at h
  all_goals cases h
  exact hcode _

section
variable (hkeyed : Keyed s) (hscm : s.currentScmStorageBytes ≤ u64Max) {incoming : CustodyMessage}
include hkeyed hscm

theorem emergencyPurge_internal {report : StoragePressureReport}
    (h : s.enforceStoragePressureInternal env (some incoming) = (.ok report, s'))
    (hforeign : s'.isIdentityRelatedRecord incoming = false) : EmergencyPurge s env s' := by
  obtain ⟨c, hc⟩ := pressureContext_of_ok (congrArg Prod.fst h)
  refine ⟨c, hc, fun hemergency => ?_⟩
  -- the record was foreign before the purges as well
  have hidentity : s'.localIdentity = s.localIdentity := by
    have hpurge : ∀ (t : RelayCustodyStore) required reason, t.localIdentity = s.localIdentity →
        (t.purgeOldestByPolicy env.now required reason).2.localIdentity = s.localIdentity :=
      fun t _ _ ht => (localIdentity_purgeOldestByPolicy t _ _ _).trans ht
    have hkept := enforceStoragePressureInternal_keeps hpurge rfl (some incoming)
    rw [h] at hkept
    exact hkept
  have hbefore : (!s.isIdentityRelatedRecord incoming) = true := by grind [isIdentityRelatedRecord]
  have hboth : s.Foreign c (some incoming) := ⟨hemergency, hbefore⟩
  obtain ⟨report', hout⟩ := enforceStoragePressureInternal_of_foreign hc hboth
  cases h.symm.trans hout
  exact (values_purgeOldestByPolicy hkeyed hscm env.now (s.currentScmStorageBytes - c.ceiling)
    "storage_pressure_emergency").1

/-- Every refusal of the write is for storage pressure. -/
theorem enforceStoragePressureForWrite_error {e : String}
    (h : s.enforceStoragePressureForWrite env incoming = (.error e, s')) :
    IsPressureError e ∧
      (e = "emergency_mode_non_critical_rejected" → EmergencyPurge s env s') := by
  have hinvalid : IsPressureError "invalid_storage_snapshot" ∧
      ("invalid_storage_snapshot" = "emergency_mode_non_critical_rejected" →
        EmergencyPurge s env s') := ⟨.inr (.inl rfl), fun heq => absurd heq (by decide)⟩
  unfold enforceStoragePressureForWrite at h
  split at h
  next e' t hinternal =>
    cases h
    cases enforceStoragePressureInternal_error hinternal
    exact hinvalid
  next report t hinternal =>
    split at h
    next => cases h
    next snapshot _ =>
      dsimp only at h
      split at h
      next =>
        cases h
        exact hinvalid
      next context _ =>
        split at h
        next hemergency =>
          cases h
          exact ⟨.inl rfl, fun _ => emergencyPurge_internal hkeyed hscm hinternal
            (Bool.eq_false_iff.mpr hemergency.2)⟩
        split at h
        next =>
          cases h
          refine ⟨.inr (.inr ⟨_, by simp only [String.append_assoc]; rfl⟩), fun heq => ?_⟩
          simp only [String.append_assoc] at heq
          exact absurd heq (append_ne_emergency (by decide +kernel) _)
        next => cases h

end

/-- **What a refused acceptance may cost.** The records that are held afterwards were
held before, unchanged, and one that is gone was purged and noted. After the emergency
refusal the ones that are gone are those first in the purge order, as many as the ceiling
asks for; and none is gone unless the refusal was for storage pressure. -/
theorem acceptCustody_error_spec (P : Platform) {s s' : RelayCustodyStore} (hkeyed : Keyed s)
    (hscm : s.currentScmStorageBytes ≤ u64Max) (env : Reading)
    (source destination relayMessageId : String) (data : Bytes)
    (identityId deviceId : Option String) {e : String}
    (h : s.acceptCustody P env source destination relayMessageId data identityId deviceId
      = (.error e, s')) :
    (∀ r ∈ s'.values, r ∈ s.values) ∧
      (∀ r ∈ s.values, r ∉ s'.values →
        ∃ t ∈ s'.transitionsForCustody r.custodyId, IsPurgeOf r t) ∧
      (e = "emergency_mode_non_critical_rejected" → EmergencyPurge s env s') ∧
      (¬ IsPressureError e → s'.messages = s.messages) := by
  have hshrinks : Shrinks env.now s s' := by
    rcases acceptCustody_cases P env source destination relayMessageId data identityId deviceId
      hkeyed with ⟨_, _, hout⟩ | ⟨_, _, t, hshrinks, hout⟩ | ⟨_, _, _, _, _, _, _, _, hout⟩
    · cases h.symm.trans hout
    · cases h.symm.trans hout
      exact hshrinks
    · cases h.symm.trans hout
  refine ⟨fun r hr => ?_, fun r hr hgone => ?_, ?_⟩
  · obtain ⟨key, hkey⟩ := mem_values_iff_lookup.mp hr
    exact mem_values_of_lookup (hshrinks.lookup_of_lookup hkey)
  · rcases hshrinks.kept_or_noted (hkeyed.lookup hr) with hkept | hnoted
    · exact absurd (mem_values_of_lookup hkept) hgone
    · exact hnoted.mem_transitions_of_isPurgeOf
  · unfold acceptCustody at h
    split at h
    next => cases h
    dsimp only at h
    split at h
    next _ t hcheck =>
      cases h
      exact ⟨fun heq => absurd heq (checkDevice_ne_emergency hcheck),
        fun _ => messages_of_checkDevice hcheck⟩
    next _ t hcheck =>
      have hmessages : t.messages = s.messages := messages_of_checkDevice hcheck
      split at h
      next =>
        cases h
        exact ⟨fun heq => absurd heq (append_ne_emergency (by decide +kernel) _),
          fun _ => hmessages⟩
      split at h
      next e' u hwrite =>
        cases h
        have hidentity : t.localIdentity = s.localIdentity := localIdentity_of_checkDevice hcheck
        have hdrawn : t.drawSequence.messages = s.messages := hmessages
        obtain ⟨hpressure, hpurge⟩ := enforceStoragePressureForWrite_error
          ((Within.of_messages_eq hdrawn).keyed hkeyed)
          (by rw [currentScmStorageBytes_congr hdrawn]; exact hscm) hwrite
        exact ⟨fun he => (hpurge he).congr hdrawn hidentity, fun hother => absurd hpressure hother⟩
      next => cases h

/-- A third message from Alice on a full disk of 500 bytes. -/
def thirdAcceptance : Except String CustodyMessage × RelayCustodyStore :=
  twoRecords.acceptCustody plainPlatform (diskReading 3000 500 500) "alice" "bob" "m3" [7] none none

/-- It is refused, what is gone is noted, and it is what the ceiling asks for. -/
theorem acceptCustody_error_thirdAcceptance :
    thirdAcceptance.1 = .error "emergency_mode_non_critical_rejected" ∧
      (∀ r ∈ twoRecords.values, r ∉ thirdAcceptance.2.values →
        ∃ t ∈ thirdAcceptance.2.transitionsForCustody r.custodyId, IsPurgeOf r t) ∧
      EmergencyPurge twoRecords (diskReading 3000 500 500) thirdAcceptance.2 := by
  have herror : thirdAcceptance.1 = .error "emergency_mode_non_critical_rejected" := by
    decide +kernel
  have hkeyed : Keyed twoRecords :=
    (regular_run plainPlatform (regular_empty none 0) twoAcceptances).keyed
  have hspec := acceptCustody_error_spec plainPlatform hkeyed (by decide +kernel)
    (diskReading 3000 500 500) "alice" "bob" "m3" [7] none none
    (show thirdAcceptance = (_, thirdAcceptance.2) from Prod.ext herror rfl)
  exact ⟨herror, hspec.2.1, hspec.2.2.1 rfl⟩

/-- Bob's first message was held before the refused one came, and is not held after it. -/
theorem refused_write_costs_record :
    thirdAcceptance.1 = .error "emergency_mode_non_critical_rejected" ∧
      twoRecords.values.map CustodyMessage.custodyId = ["m2-2000-2", "m1-1000-0"] ∧
      thirdAcceptance.2.values.map CustodyMessage.custodyId = ["m2-2000-2"] := by
  decide +kernel

end RelayCustodyStore

end Scm.Store
