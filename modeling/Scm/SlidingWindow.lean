import Mathlib.Data.List.Basic

/-!
# A sliding window over admitted times

A limiter remembers when it let calls through, and lets one more through while fewer than `limit`
of those times are less than `width` old. `Admitted` says that a list of times came about like
this. No interval `[a, a + width)` then has more than `limit` of them (`Admitted.countP_le`): the
last one in the interval was let through when all the others in it were recent.

Times that are too old stay too old, so they can be forgotten at any moment (`recent_recent`).
-/

namespace Scm.SlidingWindow

open List

/-- The times that are less than `width` before `now`. -/
def recent (width now : Nat) (times : List Nat) : List Nat :=
  times.filter fun t => decide (now - t < width)

variable {width limit now later : Nat} {times : List Nat}

theorem recent_append (times more : List Nat) :
    recent width now (times ++ more) = recent width now times ++ recent width now more :=
  filter_append ..

/-- What is forgotten early would not have counted later. -/
theorem recent_recent (h : now ≤ later) (times : List Nat) :
    recent width later (recent width now times) = recent width later times := by
  unfold recent
  rw [filter_filter]
  refine filter_congr fun t _ => ?_
  rw [Bool.eq_iff_iff, Bool.and_eq_true, decide_eq_true_iff, decide_eq_true_iff]
  omega

/-- Every time was let through by the ones before it. -/
inductive Admitted (width limit : Nat) : List Nat → Prop
  | nil : Admitted width limit []
  | concat {times : List Nat} {t : Nat} (before : Admitted width limit times)
      (hroom : (recent width t times).length < limit) : Admitted width limit (times ++ [t])

/-- **No interval of length `width` has more than `limit` of the times.** -/
theorem Admitted.countP_le (h : Admitted width limit times) (a : Nat) :
    times.countP (fun t => decide (a ≤ t ∧ t < a + width)) ≤ limit := by
  induction h with
  | nil => exact Nat.zero_le _
  | @concat times t _ hroom ih =>
    rw [countP_append, countP_singleton]
    split
    next hin =>
      -- the others in the interval were recent when this one was let through
      have hle : times.countP (fun t => decide (a ≤ t ∧ t < a + width))
          ≤ (recent width t times).length := by
        rw [recent, ← countP_eq_length_filter]
        refine countP_mono_left fun other _ hother => ?_
        rw [decide_eq_true_iff] at hother hin ⊢
        omega
      omega
    next => exact ih

/-- So the recent ones are never more than `limit`. -/
theorem Admitted.length_recent_le (h : Admitted width limit times) (hpast : ∀ t ∈ times, t ≤ now) :
    (recent width now times).length ≤ limit := by
  refine Nat.le_trans ?_ (h.countP_le (now + 1 - width))
  rw [recent, ← countP_eq_length_filter]
  refine countP_mono_left fun t ht hrecent => ?_
  have hle := hpast t ht
  rw [decide_eq_true_iff] at hrecent ⊢
  omega

end Scm.SlidingWindow
