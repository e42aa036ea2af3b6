import Scm.Store.CustodyPressure

/-!
# What `purge_oldest_by_policy` removes

The purge sorts the stored records by four keys: records of others before those of the
local identity, delivered before undelivered, old before new, and the custody id. It
then removes from the front until the required bytes are covered. The loop counts down
with saturating subtraction and checks before each removal, so it stops at the shortest
initial part that covers them.

The byte count is a saturating `u64` sum.
-/

namespace Scm.Store

open Collections StoredCustodyRecord

namespace RelayCustodyStore

/-- The order of the purge: identity related, delivery priority, acceptance time,
custody id. -/
def PurgedBefore (s : RelayCustodyStore) (a b : StoredCustodyRecord) : Prop :=
  s.isIdentityRelatedRecord a.record < s.isIdentityRelatedRecord b.record ∨
  s.isIdentityRelatedRecord a.record = s.isIdentityRelatedRecord b.record ∧
    (a.deliveryPriority < b.deliveryPriority ∨ a.deliveryPriority = b.deliveryPriority ∧
      (a.record.acceptedAtMs < b.record.acceptedAtMs ∨
        a.record.acceptedAtMs = b.record.acceptedAtMs ∧ a.record.custodyId < b.record.custodyId))

theorem purgeLe_total (s : RelayCustodyStore) : Std.Total s.purgeLe :=
  lexLe_total (fun c : StoredCustodyRecord => s.isIdentityRelatedRecord c.record)
    (lexLe_total deliveryPriority
      ⟨fun a b => pendingLe_total.total a.record b.record⟩)

theorem purgeLe_trans (s : RelayCustodyStore) : IsTrans StoredCustodyRecord s.purgeLe :=
  lexLe_trans (fun c : StoredCustodyRecord => s.isIdentityRelatedRecord c.record)
    (lexLe_trans deliveryPriority
      ⟨fun a b c => pendingLe_trans.trans a.record b.record c.record⟩)

theorem purgedBefore_of_purgeLe {s : RelayCustodyStore} {a b : StoredCustodyRecord}
    (h : s.purgeLe a b) (hne : a.record.custodyId ≠ b.record.custodyId) : s.PurgedBefore a b := by
  rcases h with h | ⟨hrelated, h | ⟨hpriority, h | ⟨htime, hid⟩⟩⟩
  · exact .inl h
  · exact .inr ⟨hrelated, .inl h⟩
  · exact .inr ⟨hrelated, .inr ⟨hpriority, .inl h⟩⟩
  · exact .inr ⟨hrelated, .inr ⟨hpriority, .inr ⟨htime, lt_of_le_of_ne hid hne⟩⟩⟩

theorem purgeOrder_pairwise {s : RelayCustodyStore}
    (hids : (s.values.map CustodyMessage.custodyId).Nodup) :
    s.purgeOrder.Pairwise s.PurgedBefore := by
  have htotal := purgeLe_total s
  have htrans := purgeLe_trans s
  have hsorted : s.purgeOrder.Pairwise s.purgeLe := List.pairwise_insertionSort _ _
  have hdistinct : s.purgeOrder.Pairwise fun a b => a.record.custodyId ≠ b.record.custodyId := by
    grind [values_perm_purgeOrder]
  exact hsorted.imp₂ (fun a b hle hne => purgedBefore_of_purgeLe hle hne) hdistinct

/-- **What a purge does.** For a store whose custody ids are distinct, a purge removes
the shortest initial part of its records, in the purge order, that covers the required
bytes, or all of them; it returns how many these are and their bytes; and it removes a
record of the local identity only when no foreign one is left. -/
theorem purgeOldestByPolicy_spec {s : RelayCustodyStore} (hkeyed : Keyed s)
    (hids : (s.values.map CustodyMessage.custodyId).Nodup) (now : Nat) {required : Nat}
    (hrequired : 0 < required) (reason : String) :
    let out := s.purgeOldestByPolicy now required reason
    ∃ purged kept, (purged ++ kept).Perm s.loadStoredRecords ∧
      (purged ++ kept).Pairwise s.PurgedBefore ∧
      out.2.values.Perm (kept.map StoredCustodyRecord.record) ∧
      out.1 = (purged.length, min (bytesOf purged) u64Max) ∧
      (required ≤ bytesOf purged ∨ kept = []) ∧
      (∀ start last, start ++ [last] = purged → bytesOf start < required) ∧
      ((∃ c ∈ purged, s.isIdentityRelatedRecord c.record = true) →
        ∀ c ∈ kept, s.isIdentityRelatedRecord c.record = true) := by
  intro out
  obtain ⟨purged, hsplit, hcovers, hshort⟩ := dropCovering_split
    serializedBytes s.purgeOrder required
  have hpairwise := purgeOrder_pairwise hids
  have hout : out = purgeLoop now reason s.purgeOrder required 0 0 s :=
    if_neg (Nat.pos_iff_ne_zero.mp hrequired)
  have hcounts := purgeLoop_counts now reason s.purgeOrder purged required 0 0 s hsplit
    (Nat.zero_le _)
  have hvalues := purgeLoop_values now reason s.purgeOrder required 0 0 s hkeyed.stocked_candidates
    (values_perm_purgeOrder s)
  rw [Nat.zero_add, Nat.zero_add] at hcounts
  generalize dropCovering serializedBytes s.purgeOrder required = kept
    at hsplit hcovers hvalues
  rw [hsplit] at hpairwise
  refine ⟨purged, kept, ?_, hpairwise, ?_, ?_, hcovers, hshort, ?_⟩
  · rw [← hsplit]
    exact List.perm_insertionSort _ _
  · rw [hout]
    exact hvalues
  · rw [hout]
    exact hcounts
  · -- after a record of the local identity the order has no foreign one
    rintro ⟨c, hc, hrelated⟩ d hd
    have hbefore := (List.pairwise_append.mp hpairwise).2.2 c hc d hd
    rcases hbefore with hlt | ⟨heq, _⟩
    · rw [hrelated] at hlt
      exact absurd hlt (by cases s.isIdentityRelatedRecord d.record <;> decide)
    · rw [← heq, hrelated]

/-- Two records of 88 bytes each and 100 bytes to make room for: both go, one is not
enough. -/
theorem purgeOldestByPolicy_twoRecords :
    (twoRecords.values.map CustodyMessage.custodyId).Nodup ∧
      ∃ purged kept, (purged ++ kept).Perm twoRecords.loadStoredRecords ∧
        (twoRecords.purgeOldestByPolicy 3000 100 "test").1
          = (purged.length, min (bytesOf purged) u64Max) ∧
        (100 ≤ bytesOf purged ∨ kept = []) := by
  have hkeyed : Keyed twoRecords :=
    (regular_run plainPlatform (regular_empty none 0) twoAcceptances).keyed
  have hids : (twoRecords.values.map CustodyMessage.custodyId).Nodup := by decide +kernel
  obtain ⟨purged, kept, hperm, _, _, hcount, hcovers, _, _⟩ :=
    purgeOldestByPolicy_spec hkeyed hids 3000 (show 0 < 100 by omega) "test"
  exact ⟨hids, purged, kept, hperm, hcount, hcovers⟩

end RelayCustodyStore

end Scm.Store
