import Mathlib.Data.Finset.Max

/-!
# The highest-scoring members of a finite set

`top score c S` is what is left of `S` when only the `c` members of highest score are kept:
the members with fewer than `c` others above them. With scores that tell the members apart
it has `min c |S|` members (`card_top`), each above every member left out
(`lt_of_mem_of_notMem`).

Evicting the lowest one by one ends there (`top_erase_lowest`), and it does not matter when
the eviction is done (`top_union_top`).
-/

namespace Scm.TopSelection

open Finset

variable {α δ : Type} [LinearOrder δ] (score : α → δ)

/-- The members of `S` above `a`. -/
def above (S : Finset α) (a : α) : Finset α := S.filter fun b => score a < score b

/-- The members of `S` with fewer than `c` above them. -/
def top (c : Nat) (S : Finset α) : Finset α := S.filter fun a => (above score S a).card < c

variable {score} {c : Nat} {S T : Finset α} {a b : α}

@[simp] theorem mem_above : b ∈ above score S a ↔ b ∈ S ∧ score a < score b := mem_filter

@[simp] theorem mem_top : a ∈ top score c S ↔ a ∈ S ∧ (above score S a).card < c :=
  mem_filter

theorem top_subset : top score c S ⊆ S := filter_subset _ _

theorem above_mono (h : S ⊆ T) : above score S a ⊆ above score T a :=
  filter_subset_filter _ h

/-- A set of no more than `c` members is its own top. -/
theorem top_of_card_le (h : S.card ≤ c) : top score c S = S := by
  refine filter_true_of_mem fun a ha => Nat.lt_of_lt_of_le ?_ h
  refine card_lt_card (Finset.ssubset_iff_subset_ne.mpr ⟨filter_subset _ _, ?_⟩)
  intro heq
  rw [← heq] at ha
  exact lt_irrefl _ (mem_above.mp ha).2

/-- A member that is left out has all of the top above it. -/
theorem lt_of_mem_of_notMem (ha : a ∈ top score c S) (hb : b ∈ S) (hout : b ∉ top score c S) :
    score b < score a := by
  refine lt_of_not_ge fun hle => hout (mem_top.mpr ⟨hb, ?_⟩)
  refine Nat.lt_of_le_of_lt (card_le_card fun x hx => ?_) (mem_top.mp ha).2
  obtain ⟨hx, hlt⟩ := mem_above.mp hx
  exact mem_above.mpr ⟨hx, lt_of_le_of_lt hle hlt⟩

variable [DecidableEq α]

section
variable (hinj : Set.InjOn score S)
include hinj

/-- The lowest member of a set that is too large can be taken out. -/
theorem top_erase_lowest (ha : a ∈ S) (hlow : ∀ b ∈ S, score a ≤ score b) (hlarge : c < S.card) :
    top score c (S.erase a) = top score c S := by
  -- every other member is above it
  have habove : above score S a = S.erase a := by
    ext b
    rw [mem_above, mem_erase, and_comm]
    refine and_congr_left fun hb => ⟨fun hlt heq => ?_, fun hne => ?_⟩
    · rw [heq] at hlt
      exact lt_irrefl _ hlt
    · exact lt_of_le_of_ne (hlow b hb) fun heq => hne (hinj hb ha heq.symm)
  have hsame : ∀ b ∈ S, above score (S.erase a) b = above score S b := by grind [mem_above]
  ext b
  rw [mem_top, mem_top, mem_erase]
  constructor
  · grind
  · grind

/-- How many there are. -/
theorem card_top : (top score c S).card = min c S.card := by
  induction hn : S.card - c generalizing S with
  | zero =>
    rw [top_of_card_le (by omega)]
    omega
  | succ n ih =>
    obtain ⟨a, ha, hlow⟩ := S.exists_min_image score (Finset.card_pos.mp (by omega))
    have hcard := card_erase_of_mem ha
    rw [← top_erase_lowest hinj ha hlow (by omega),
      ih (hinj.mono (erase_subset a S)) (by omega)]
    omega

/-- What is left out of one part of a union can be left out from the start. -/
theorem top_union_top : top score c (top score c S ∪ T) = top score c (S ∪ T) := by
  have hsub : top score c S ∪ T ⊆ S ∪ T := union_subset_union_left top_subset
  ext a
  rw [mem_top, mem_top]
  constructor
  · rintro ⟨ha, hcard⟩
    refine ⟨hsub ha, ?_⟩
    by_cases hall : above score (S ∪ T) a ⊆ top score c S ∪ T
    · refine Nat.lt_of_le_of_lt (card_le_card fun x hx => ?_) hcard
      exact mem_above.mpr ⟨hall hx, (mem_above.mp hx).2⟩
    · -- a member above `a` was left out: then all of the top of `S` is above `a`
      obtain ⟨b, hb, hout⟩ := not_subset.mp hall
      rw [mem_union, not_or] at hout
      obtain ⟨hmem, hlt⟩ := mem_above.mp hb
      have hbS : b ∈ S := (mem_union.mp hmem).resolve_right hout.2
      have hfull : (top score c S).card = c := by grind [card_top, top_of_card_le]
      have habove : top score c S ⊆ above score (top score c S ∪ T) a := fun x hx =>
        mem_above.mpr ⟨mem_union_left _ hx,
          lt_trans hlt (lt_of_mem_of_notMem hx hbS hout.1)⟩
      have hcount := card_le_card habove
      omega
  · rintro ⟨ha, hcard⟩
    refine ⟨?_, Nat.lt_of_le_of_lt (card_le_card (above_mono hsub)) hcard⟩
    rcases mem_union.mp ha with hS | hT
    · refine mem_union_left _ (mem_top.mpr ⟨hS, Nat.lt_of_le_of_lt ?_ hcard⟩)
      exact card_le_card (above_mono subset_union_left)
    · exact mem_union_right _ hT

end

end Scm.TopSelection
