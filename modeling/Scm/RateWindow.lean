import Mathlib.Data.List.Basic

/-!
# A counter with lazy windows

A limiter lets `limit` calls through, then none until its window is over. The window is not
bound to a clock: it begins with the first call that finds the one before more than `width`
past. `Step` says what one call can do to it, `Follows` that a log of calls is one run. The
window that a log begins with may be of a clock that ran ahead.

Between two beginnings at most `limit` calls get through (`countP_passed_le`). A stretch of
time of length `width`, wherever it is put, sees the end of one window and the beginning of one
more: the second began inside, so the third begins after the stretch is over. Hence at most
`2 * limit` (`countP_within_le`).
-/

namespace Scm.RateWindow

open List

/-- How many calls the window has let through, and when it began. -/
structure Window where
  count : Nat
  start : Nat
  deriving DecidableEq, Repr

/-- One call: when it came, whether it was let through, and the window after it. -/
structure Entry where
  now : Nat
  passed : Bool
  window : Window
  deriving DecidableEq, Repr

section
variable (limit width : Nat)

/-- What one call can do to the window. -/
inductive Step : Window → Entry → Prop
  -- turned away, or no business of the limiter
  | skip (w : Window) (now : Nat) : Step w ⟨now, false, w⟩
  | within (w : Window) (now : Nat) (hroom : w.count < limit) :
      Step w ⟨now, true, ⟨w.count + 1, w.start⟩⟩
  | fresh (w : Window) (now : Nat) (hover : w.start + width < now ∨ now < w.start)
      (hroom : 0 < limit) : Step w ⟨now, true, ⟨1, now⟩⟩

/-- The calls of a run. -/
def Follows : Window → List Entry → Prop
  | _, [] => True
  | w, entry :: log => Step limit width w entry ∧ Follows entry.window log

end

variable {limit width : Nat} {w : Window} {entry : Entry} {log : List Entry}

/-- A stretch of a run is a run. -/
theorem Follows.of_append {before : List Entry} :
    ∀ {w : Window}, Follows limit width w (before ++ log) → ∃ w', Follows limit width w' log := by
  induction before with
  | nil => exact fun {w} h => ⟨w, h⟩
  | cons _ _ ih => exact fun h => ih h.2

theorem Follows.left {after : List Entry} :
    ∀ {w : Window}, Follows limit width w (log ++ after) → Follows limit width w log := by
  induction log with
  | nil => exact fun _ => trivial
  | cons _ _ ih => exact fun h => ⟨h.1, ih h.2⟩

/-! ## One window -/

/-- While no window begins the counter counts, and stops at the limit. -/
theorem countP_of_same_start : ∀ {w : Window}, Follows limit width w log →
    (∀ entry ∈ log, entry.window.start = w.start) →
    log.countP (·.passed) ≤ limit - w.count := by
  induction log with
  | nil => exact fun _ _ => Nat.zero_le _
  | cons entry log ih =>
    intro w h hsame
    obtain ⟨hstep, hrest⟩ := h
    obtain ⟨hfirst, hsame⟩ := forall_mem_cons.mp hsame
    have hle := ih hrest fun later hlater => (hsame later hlater).trans hfirst.symm
    rw [countP_cons]
    cases hstep with
    | skip now => simpa using hle
    | within now hroom => grind
    | fresh now hover hroom =>
      dsimp only at hfirst
      omega

/-- **One window lets `limit` calls through**, the call that begins it included. -/
theorem countP_passed_le (h : Follows limit width w (entry :: log))
    (hsame : ∀ later ∈ log, later.window.start = entry.window.start) :
    (entry :: log).countP (·.passed) ≤ limit := by
  obtain ⟨hstep, hrest⟩ := h
  have hle := countP_of_same_start hrest hsame
  rw [countP_cons]
  cases hstep with
  | skip now =>
    rw [if_neg Bool.false_ne_true]
    omega
  | within now hroom => grind
  | fresh now hover hroom => grind

/-! ## A stretch of time -/

/-- A call within the stretch of length `width` from `a` on, and let through. -/
def passedWithin (width a : Nat) (entry : Entry) : Bool :=
  entry.passed && decide (a ≤ entry.now ∧ entry.now ≤ a + width)

theorem passedWithin_iff {a : Nat} :
    passedWithin width a entry = true ↔
      entry.passed = true ∧ a ≤ entry.now ∧ entry.now ≤ a + width := by
  rw [passedWithin, Bool.and_eq_true, decide_eq_true_iff]

/-- From inside the stretch on: what the present window has left, and one window more. The
second window falls away when the present one began inside. -/
theorem countP_from {a : Nat} :
    ∀ {w : Window}, Follows limit width w log → (log.map Entry.now).Pairwise (· ≤ ·) →
      (∀ entry ∈ log, a ≤ entry.now) →
      log.countP (passedWithin width a) ≤ limit - w.count + limit ∧
      (a ≤ w.start → (∀ entry ∈ log, w.start ≤ entry.now) →
        log.countP (passedWithin width a) ≤ limit - w.count) := by
  induction log with
  | nil => exact fun _ _ _ => ⟨Nat.zero_le _, fun _ _ => Nat.zero_le _⟩
  | cons entry log ih =>
    intro w h hclock hinside
    obtain ⟨hstep, hrest⟩ := h
    rw [map_cons, pairwise_cons] at hclock
    obtain ⟨hlater, hclock⟩ := hclock
    obtain ⟨hfirst, hinside⟩ := forall_mem_cons.mp hinside
    obtain ⟨hle, hone⟩ := ih hrest hclock hinside
    rw [countP_cons]
    cases hstep with
    | skip now => grind [passedWithin]
    | within now hroom => grind
    | fresh now hover hroom =>
      dsimp only at hone hfirst hlater
      have hone := hone hfirst fun later hmem => hlater _ (mem_map_of_mem hmem)
      refine ⟨by split <;> omega, fun hbegan hafter => ?_⟩
      -- the window before began inside, so the stretch is over
      have hnow : w.start ≤ now := (forall_mem_cons.mp hafter).1
      have hend : a + width < now := by omega
      have hover' : ∀ later ∈ log, ¬ passedWithin width a later = true := by
        intro later hmem hpassed
        have hle := hlater _ (mem_map_of_mem hmem)
        have hin := (passedWithin_iff.mp hpassed).2
        omega
      have hnot : ¬ passedWithin width a ⟨now, true, ⟨1, now⟩⟩ = true := by grind [passedWithin_iff]
      rw [countP_eq_zero.mpr hover', if_neg hnot]
      exact Nat.zero_le _

/-- **A stretch of time sees two windows.** -/
theorem countP_within_le {a : Nat} :
    ∀ {w : Window}, Follows limit width w log → (log.map Entry.now).Pairwise (· ≤ ·) →
      log.countP (passedWithin width a) ≤ 2 * limit := by
  induction log with
  | nil => exact fun _ _ => Nat.zero_le _
  | cons entry log ih =>
    intro w h hclock
    by_cases hbefore : entry.now < a
    · obtain ⟨_, hrest⟩ := h
      rw [map_cons, pairwise_cons] at hclock
      have hnot : ¬ passedWithin width a entry = true := by grind [passedWithin_iff]
      rw [countP_cons_of_neg hnot]
      exact ih hrest hclock.2
    · have hinside : ∀ later ∈ entry :: log, a ≤ later.now := by
        intro later hmem
        rcases mem_cons.mp hmem with rfl | hmem
        · omega
        · grind [pairwise_cons]
      have hle := (countP_from h hclock hinside).1
      omega

end Scm.RateWindow
