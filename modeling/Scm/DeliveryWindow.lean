import Mathlib.Order.Interval.Finset.Nat

/-!
# Numbered deliveries in any order

Messages numbered from zero arrive in any order, some of them more than once. A
receiver that goes through the numbers in order stands one after the largest number it
has seen (`position`); what it passed on the way and has not seen is `outstanding`.
A delivery repeats a number, fills a gap, or lies ahead: the three lemmas on
`outstanding` say what each does to the gaps. `InWindow` is the condition under which a
receiver that keeps at most `limit` gaps open never has to give one up.
-/

namespace Scm.DeliveryWindow

open Finset

/-- One after the largest number seen. -/
def position : List Nat → Nat
  | [] => 0
  | k :: seen => max (position seen) (k + 1)

/-- The numbers passed and not seen. -/
def outstanding (seen : List Nat) : Finset Nat :=
  (Finset.range (position seen)).filter fun n => n ∉ seen

/-- Every delivery is at most `limit` ahead of the position, and after it at most `limit`
gaps are open, of which `base` from elsewhere. -/
def InWindow (limit base : Nat) : List Nat → List Nat → Prop
  | _, [] => True
  | seen, k :: deliveries =>
    k ≤ position seen + limit ∧ base + (outstanding (k :: seen)).card ≤ limit ∧
      InWindow limit base (k :: seen) deliveries

instance (limit base : Nat) : ∀ seen deliveries, Decidable (InWindow limit base seen deliveries)
  | _, [] => isTrue trivial
  | seen, k :: deliveries =>
    have := instDecidableInWindow limit base (k :: seen) deliveries
    inferInstanceAs (Decidable (_ ∧ _ ∧ _))

variable {seen : List Nat} {k : Nat}

theorem lt_position (h : k ∈ seen) : k < position seen := by
  induction seen with
  | nil => cases h
  | cons j seen ih => grind [position]

theorem position_le {n : Nat} (h : ∀ k ∈ seen, k < n) : position seen ≤ n := by
  induction seen with
  | nil => exact Nat.zero_le n
  | cons k seen ih => grind [position, List.mem_cons_self]

theorem position_cons_of_lt (h : k < position seen) : position (k :: seen) = position seen := by
  rw [position]
  omega

theorem position_cons_of_le (h : position seen ≤ k) : position (k :: seen) = k + 1 := by
  rw [position]
  omega

theorem mem_outstanding {n : Nat} : n ∈ outstanding seen ↔ n < position seen ∧ n ∉ seen := by
  rw [outstanding, mem_filter, mem_range]

/-- A repetition changes nothing. -/
theorem outstanding_cons_of_mem (h : k ∈ seen) : outstanding (k :: seen) = outstanding seen := by
  ext n
  rw [mem_outstanding, mem_outstanding, position_cons_of_lt (lt_position h), List.mem_cons]
  refine and_congr_right fun _ => not_congr ⟨?_, .inr⟩
  rintro (rfl | hn)
  · exact h
  · exact hn

/-- A gap is filled. -/
theorem card_outstanding_of_mem (h : k ∈ outstanding seen) :
    (outstanding (k :: seen)).card + 1 = (outstanding seen).card := by
  have herase : outstanding (k :: seen) = (outstanding seen).erase k := by
    grind [mem_outstanding, position_cons_of_lt]
  rw [herase, card_erase_add_one h]

/-- A number ahead opens a gap for each number it passes. -/
theorem card_outstanding_of_le (h : position seen ≤ k) :
    (outstanding (k :: seen)).card = (outstanding seen).card + (k - position seen) := by
  have hunion : outstanding (k :: seen) = outstanding seen ∪ Finset.Ico (position seen) k := by
    ext n
    rw [mem_union, mem_outstanding, mem_outstanding, mem_Ico, position_cons_of_le h,
      List.mem_cons]
    constructor
    · grind
    · grind [lt_position]
  have hdisjoint : Disjoint (outstanding seen) (Finset.Ico (position seen) k) := by
    simp_all [mem_outstanding, disjoint_left, mem_Ico]
  rw [hunion, card_union_of_disjoint hdisjoint, Nat.card_Ico]

end Scm.DeliveryWindow
