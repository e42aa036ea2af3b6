import Mathlib.Algebra.BigOperators.Group.List.Basic
import Mathlib.Tactic.Abel

/-!
# Linear sketches of finite sets

A *linear sketch* maps every key to an element of an abelian group and a list of
keys to the sum of its images. Subtracting two sketches cancels what the two
lists share: everything a decoder sees is a function of `only A B` and `only B A`
(`sketch_sub_sketch`). `sketch_erase` is the step of a peeling decoder.
-/

namespace Scm.LinearSketch

open List

variable {α G : Type} [AddCommGroup G] {δ : α → G}

/-- The sketch of a list of keys: the sum of the keys' images. -/
def sketch (δ : α → G) (keys : List α) : G := (keys.map δ).sum

@[simp] theorem sketch_nil : sketch δ [] = 0 := rfl

@[simp] theorem sketch_cons (k : α) (keys : List α) :
    sketch δ (k :: keys) = δ k + sketch δ keys := by
  rw [sketch, map_cons, sum_cons, sketch]

/-- The order of insertion does not matter. -/
theorem sketch_perm {keys keys' : List α} (h : keys.Perm keys') :
    sketch δ keys = sketch δ keys' :=
  (h.map δ).sum_eq

theorem sketch_append (xs ys : List α) : sketch δ (xs ++ ys) = sketch δ xs + sketch δ ys := by
  rw [sketch, map_append, sum_append, sketch, sketch]

variable [BEq α] [LawfulBEq α]

/-- Taking out a key takes its image out of the sum. -/
theorem sketch_erase {k : α} {keys : List α} (h : k ∈ keys) :
    sketch δ (keys.erase k) = sketch δ keys - δ k := by
  rw [sketch_perm (perm_cons_erase h), sketch_cons]
  abel

/-- The keys of `xs` that `ys` lacks. -/
def only (xs ys : List α) : List α := xs.filter (· ∉ ys)

section
variable {k : α} {xs ys : List α}

@[simp] theorem mem_only : k ∈ only xs ys ↔ k ∈ xs ∧ k ∉ ys := by
  simp [only]

theorem only_eq_nil_iff : only xs ys = [] ↔ xs ⊆ ys := by
  rw [eq_nil_iff_forall_not_mem]
  constructor
  · intro h k hk
    exact Classical.not_not.mp fun hnot => h k (mem_only.mpr ⟨hk, hnot⟩)
  · grind [mem_only]

theorem nodup_only (h : xs.Nodup) : (only xs ys).Nodup := h.filter _

/-- A list is what it has alone followed by what it shares, up to order. -/
theorem only_append_shared_perm (xs ys : List α) :
    (only xs ys ++ xs.filter (· ∈ ys)).Perm xs := by
  have h := filter_append_perm (fun k => decide (k ∉ ys)) xs
  simpa [only] using h

/-- Two duplicate-free lists share the same keys, whichever is asked. -/
theorem shared_perm (hx : xs.Nodup) (hy : ys.Nodup) :
    (xs.filter (· ∈ ys)).Perm (ys.filter (· ∈ xs)) := by
  refine (perm_ext_iff_of_nodup (hx.filter _) (hy.filter _)).mpr fun k => ?_
  simp [and_comm]

/-- **Shared keys cancel**: the difference of two sketches depends only on what
each side has alone. -/
theorem sketch_sub_sketch (hx : xs.Nodup) (hy : ys.Nodup) :
    sketch δ xs - sketch δ ys = sketch δ (only xs ys) - sketch δ (only ys xs) := by
  rw [← sketch_perm (only_append_shared_perm xs ys), ← sketch_perm (only_append_shared_perm ys xs),
    sketch_append, sketch_append, sketch_perm (shared_perm hx hy)]
  abel

end

end Scm.LinearSketch
