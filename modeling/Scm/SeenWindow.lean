import Mathlib.Data.Finset.Card
import Mathlib.Data.List.DropRight

/-!
# A duplicate filter that forgets the oldest first

A filter of capacity `cap` takes in what it does not hold and then drops the oldest
entries beyond its capacity. What it holds is therefore the end of the log of what it took
in, `log.rtake cap`, and every question about it is one about that window: pushing keeps it
(`rtake_rtake_append`), and an entry leaves it only behind `cap` others
(`card_later_of_notMem`).
-/

namespace Scm.SeenWindow

open List

variable {α β : Type}

theorem rtake_cons_of_le {x : α} {l : List α} {n : Nat} (h : n ≤ l.length) :
    (x :: l).rtake n = l.rtake n := by
  have hlen : (x :: l).length - n = (l.length - n) + 1 := by
    rw [length_cons]
    omega
  rw [List.rtake, List.rtake, hlen, drop_succ_cons]

theorem rtake_of_length_le {l : List α} {n : Nat} (h : l.length ≤ n) : l.rtake n = l := by
  rw [List.rtake, Nat.sub_eq_zero_of_le h, drop_zero]

theorem length_rtake (l : List α) (n : Nat) : (l.rtake n).length = min n l.length := by
  rw [List.rtake, length_drop]
  omega

theorem rtake_append_of_length_le {l later : List α} {n : Nat} (h : n ≤ later.length) :
    (l ++ later).rtake n = later.rtake n := by
  have hlen : (l ++ later).length - n = l.length + (later.length - n) := by
    rw [length_append]
    omega
  rw [List.rtake, List.rtake, hlen, ← drop_drop, drop_left]

/-- The window of a log that grows is the window of the window that grows. -/
theorem rtake_rtake_append (l more : List α) (n : Nat) :
    (l.rtake n ++ more).rtake n = (l ++ more).rtake n := by
  simp only [List.rtake, length_append, length_drop]
  rcases Nat.le_total l.length n with h | h
  · rw [Nat.sub_eq_zero_of_le h, drop_zero, Nat.sub_zero]
  · have hlater : l.length + more.length - n = (l.length - n) + more.length := by omega
    have hwindow : l.length - (l.length - n) + more.length - n = more.length := by omega
    rw [hlater, hwindow]
    conv_rhs => rw [← drop_drop, drop_append_of_le_length (Nat.sub_le _ _)]

theorem mem_rtake_append_cons {l later : List α} {x : α} {n : Nat} (h : later.length < n) :
    x ∈ (l ++ x :: later).rtake n := by
  have hlen : (l ++ x :: later).length - n ≤ l.length := by grind
  rw [List.rtake, drop_append_of_le_length hlen]
  exact mem_append_right _ mem_cons_self

/-- An entry that is no longer in the window has `n` different others behind it. The entries
may be known by a name `f`, and what is counted is what stands behind the names. -/
theorem card_later_of_notMem [DecidableEq α] {f : α → β} {l later : List α} {x : α} {n : Nat}
    (hnodup : (((l ++ x :: later).map f).rtake n).Nodup)
    (hgone : f x ∉ ((l ++ x :: later).map f).rtake n) : n ≤ (later.toFinset.erase x).card := by
  rw [map_append, map_cons] at hnodup hgone
  have hlen : n ≤ (later.map f).length := by grind [mem_rtake_append_cons]
  have hwindow : (l.map f ++ f x :: later.map f).rtake n = (later.rtake n).map f := by
    rw [← singleton_append, ← append_assoc, rtake_append_of_length_le hlen, List.rtake,
      List.rtake, map_drop, length_map]
  rw [hwindow] at hnodup hgone
  rw [length_map] at hlen
  have hcard : (later.rtake n).toFinset.card = n := by
    rw [toFinset_card_of_nodup hnodup.of_map, length_rtake, Nat.min_eq_left hlen]
  rw [← hcard]
  refine Finset.card_le_card fun y hy => ?_
  have hy := mem_toFinset.mp hy
  refine Finset.mem_erase.mpr ⟨?_, mem_toFinset.mpr (mem_of_mem_drop hy)⟩
  rintro rfl
  exact hgone (mem_map_of_mem hy)

end Scm.SeenWindow
