import Mathlib.Data.Nat.Cast.Order.Field
import Mathlib.Tactic.Linarith
import Mathlib.Tactic.Positivity
import Mathlib.Tactic.Ring
import Scm.Runs

/-!
# Token buckets

A caller that is let through pays a token. The tokens come back with time, up to a capacity, so
over a stretch of time no more calls get through than the capacity and what came back in the
stretch. `Budget` says what the argument needs of a system: a level that is at most the capacity,
grows no faster than the rate, and falls by one with each call let through.
`Budget.passedWithin_le` is the bound, for any stretch of any run.

The second part is about one bucket; `level` is what a call would find. A caller without a bucket
is given a full one, so throwing a bucket away is harmless once it is full (`level_of_idle`).
-/

namespace Scm.TokenBucket

open List Runs

variable {K : Type} [Field K] [LinearOrder K] [IsStrictOrderedRing K]

/-! ## Systems with a budget -/

section

variable {σ ε : Type} (step : σ → ε → σ) (time : ε → Nat) (passes : σ → ε → Bool)

/-- How many events of a run are let through between `a` and `a + length`. -/
def passedWithin (a length : Nat) : σ → List ε → Nat
  | _, [] => 0
  | s, event :: events =>
    (if passes s event && decide (a ≤ time event ∧ time event ≤ a + length) then 1 else 0)
      + passedWithin a length (step s event) events

/-- `level s now` is what is left to spend in `s` at `now`. -/
structure Budget (ok : σ → ε → Prop) (Inv : Nat → σ → Prop) (level : σ → Nat → K)
    (capacity rate : K) : Prop where
  rate_nonneg : 0 ≤ rate
  later : ∀ {t s now}, Inv t s → t ≤ now → Inv now s
  keeps : ∀ {t s event}, Inv t s → t ≤ time event → ok s event → Inv (time event) (step s event)
  nonneg : ∀ {t s}, Inv t s → 0 ≤ level s t
  le_capacity : ∀ {t s}, Inv t s → level s t ≤ capacity
  grows : ∀ {t s now}, Inv t s → t ≤ now → level s now ≤ level s t + ((now - t : Nat) : K) * rate
  pays : ∀ {t s event}, Inv t s → t ≤ time event → ok s event →
    level (step s event) (time event) + (if passes s event then 1 else 0) ≤ level s (time event)

variable {step time passes}

/-- Nothing counts after the stretch. -/
theorem passedWithin_of_later {a length : Nat} (events : List ε) :
    ∀ {s : σ}, (∀ event ∈ events, a + length < time event) →
      passedWithin step time passes a length s events = 0 := by
  induction events with
  | nil => exact fun _ => rfl
  | cons event events ih =>
    intro s hlater
    obtain ⟨hfirst, hrest⟩ := forall_mem_cons.mp hlater
    have hnot : ¬ (a ≤ time event ∧ time event ≤ a + length) := by omega
    rw [passedWithin, ih hrest, decide_eq_false hnot, Bool.and_false, if_neg Bool.false_ne_true]

variable {ok : σ → ε → Prop} {Inv : Nat → σ → Prop} {level : σ → Nat → K} {capacity rate : K}

/-- From a time inside the stretch on, what is let through is paid from the level there and what
comes back until the end. -/
theorem Budget.passedWithin_inside (B : Budget step time passes ok Inv level capacity rate)
    {a length : Nat} (events : List ε) :
    ∀ {t : Nat} {s : σ}, Inv t s → a ≤ t → t ≤ a + length → (∀ event ∈ events, t ≤ time event) →
      (events.map time).Pairwise (· ≤ ·) → Along step ok s events →
      (passedWithin step time passes a length s events : K)
        ≤ level s t + ((a + length - t : Nat) : K) * rate := by
  induction events with
  | nil =>
    intro t s h _ _ _ _ _
    rw [passedWithin, Nat.cast_zero]
    exact add_nonneg (B.nonneg h) (mul_nonneg (Nat.cast_nonneg _) B.rate_nonneg)
  | cons event events ih =>
    intro t s h hstart hend hlater hclock halong
    obtain ⟨hnow, _⟩ := forall_mem_cons.mp hlater
    rw [map_cons, pairwise_cons] at hclock
    have hnext : ∀ later ∈ events, time event ≤ time later := fun later hmem =>
      hclock.1 _ (mem_map_of_mem hmem)
    by_cases hover : a + length < time event
    · -- the stretch is over
      have hzero : passedWithin step time passes a length s (event :: events) = 0 :=
        passedWithin_of_later _ (forall_mem_cons.mpr
          ⟨hover, fun later hmem => Nat.lt_of_lt_of_le hover (hnext later hmem)⟩)
      rw [hzero, Nat.cast_zero]
      exact add_nonneg (B.nonneg h) (mul_nonneg (Nat.cast_nonneg _) B.rate_nonneg)
    · have hrest := ih (B.keeps h hnow halong.1) (Nat.le_trans hstart hnow) (Nat.le_of_not_lt hover)
        hnext hclock.2 halong.2
      have hpaid := B.pays h hnow halong.1
      have hgrown := B.grows h hnow
      have hinside : a ≤ time event ∧ time event ≤ a + length := by omega
      have hsplit : ((a + length - t : Nat) : K)
          = ((time event - t : Nat) : K) + ((a + length - time event : Nat) : K) := by
        rw [← Nat.cast_add]
        congr 1
        omega
      rw [passedWithin, decide_eq_true hinside, Bool.and_true, Nat.cast_add, hsplit, add_mul]
      have hone : (((if passes s event then 1 else 0 : Nat)) : K)
          = if passes s event then 1 else 0 := by
        split <;> simp
      rw [hone]
      linarith

/-- **A stretch of time lets through what the capacity and the rate allow.** -/
theorem Budget.passedWithin_le (B : Budget step time passes ok Inv level capacity rate)
    {a length : Nat} (hcapacity : 0 ≤ capacity) (events : List ε) :
    ∀ {t : Nat} {s : σ}, Inv t s → (∀ event ∈ events, t ≤ time event) →
      (events.map time).Pairwise (· ≤ ·) → Along step ok s events →
      (passedWithin step time passes a length s events : K) ≤ capacity + (length : K) * rate := by
  have hroom : 0 ≤ capacity + (length : K) * rate :=
    add_nonneg hcapacity (mul_nonneg (Nat.cast_nonneg _) B.rate_nonneg)
  induction events with
  | nil => simp_all [passedWithin]
  | cons event events ih =>
    intro t s h hlater hclock halong
    obtain ⟨hnow, hlater'⟩ := forall_mem_cons.mp hlater
    have hclock' := hclock
    rw [map_cons, pairwise_cons] at hclock'
    have hnext : ∀ later ∈ events, time event ≤ time later := fun later hmem =>
      hclock'.1 _ (mem_map_of_mem hmem)
    by_cases hbefore : time event < a
    · have hnot : ¬ (a ≤ time event ∧ time event ≤ a + length) := by omega
      rw [passedWithin, decide_eq_false hnot, Bool.and_false, if_neg Bool.false_ne_true,
        Nat.zero_add]
      exact ih (B.keeps h hnow halong.1) hnext hclock'.2 halong.2
    · by_cases hover : a + length < time event
      · rw [passedWithin_of_later _ (forall_mem_cons.mpr
          ⟨hover, fun later hmem => Nat.lt_of_lt_of_le hover (hnext later hmem)⟩), Nat.cast_zero]
        exact hroom
      · have hinv := B.later h hnow
        have hle := B.passedWithin_inside (event :: events) hinv (Nat.le_of_not_lt hbefore)
          (Nat.le_of_not_lt hover) (forall_mem_cons.mpr ⟨Nat.le_refl _, hnext⟩) hclock halong
        have hfull := B.le_capacity hinv
        have hlength : ((a + length - time event : Nat) : K) * rate ≤ (length : K) * rate :=
          mul_le_mul_of_nonneg_right (Nat.cast_le.mpr (by omega)) B.rate_nonneg
        linarith

end

/-! ## One bucket -/

/-- What is in a bucket, and when that was written down. -/
structure Bucket (K : Type) where
  tokens : K
  last : Nat
  deriving DecidableEq, Repr

/-- The tokens at `now`, with what has come back since. -/
def Bucket.refilled (capacity rate : K) (bucket : Bucket K) (now : Nat) : K :=
  min (bucket.tokens + ((now - bucket.last : Nat) : K) * rate) capacity

/-- What a call finds at `now`. -/
def level (capacity rate : K) (bucket : Option (Bucket K)) (now : Nat) : K :=
  bucket.elim capacity fun bucket => bucket.refilled capacity rate now

/-- No tokens owed, none above the capacity, and nothing written down in the future. -/
structure Filled (capacity : K) (now : Nat) (bucket : Bucket K) : Prop where
  nonneg : 0 ≤ bucket.tokens
  le_capacity : bucket.tokens ≤ capacity
  past : bucket.last ≤ now

variable {capacity rate : K} {bucket : Bucket K} {t now : Nat}

omit [IsStrictOrderedRing K] in
theorem Filled.later (h : Filled capacity t bucket) (hnow : t ≤ now) : Filled capacity now bucket :=
  ⟨h.nonneg, h.le_capacity, Nat.le_trans h.past hnow⟩

omit [IsStrictOrderedRing K] in
theorem level_le_capacity (bucket : Option (Bucket K)) (now : Nat) :
    level capacity rate bucket now ≤ capacity := by
  cases bucket with
  | none => exact le_refl _
  | some bucket => exact min_le_right _ _

theorem Filled.level_nonneg (h : Filled capacity t bucket) (hrate : 0 ≤ rate) (now : Nat) :
    0 ≤ level capacity rate (some bucket) now :=
  le_min (add_nonneg h.nonneg (mul_nonneg (Nat.cast_nonneg _) hrate))
    (h.nonneg.trans h.le_capacity)

omit [IsStrictOrderedRing K] in
/-- Right after it was written down, a bucket holds what it says. -/
theorem level_of_last (hle : bucket.tokens ≤ capacity) (hlast : bucket.last = now) :
    level capacity rate (some bucket) now = bucket.tokens := by
  show min (bucket.tokens + ((now - bucket.last : Nat) : K) * rate) capacity = bucket.tokens
  rw [hlast, Nat.sub_self, Nat.cast_zero, zero_mul, add_zero, min_eq_left hle]

/-- The level grows no faster than the rate. -/
theorem level_le_add (hrate : 0 ≤ rate) (bucket : Option (Bucket K)) (hnow : t ≤ now) :
    level capacity rate bucket now
      ≤ level capacity rate bucket t + ((now - t : Nat) : K) * rate := by
  have hgain : 0 ≤ ((now - t : Nat) : K) * rate := mul_nonneg (Nat.cast_nonneg _) hrate
  cases bucket with
  | none => exact le_add_of_nonneg_right hgain
  | some bucket =>
    have hsplit : ((now - bucket.last : Nat) : K)
        ≤ ((t - bucket.last : Nat) : K) + ((now - t : Nat) : K) := by
      rw [← Nat.cast_add]
      exact Nat.cast_le.mpr (by omega)
    have hgrown := mul_le_mul_of_nonneg_right hsplit hrate
    rw [add_mul] at hgrown
    show min _ _ ≤ min _ _ + _
    rw [← min_add_add_right]
    refine le_min ((min_le_left _ _).trans (by linarith)) ((min_le_right _ _).trans (by linarith))

/-- A bucket that was left alone for long enough is full. -/
theorem Filled.level_of_idle (h : Filled capacity t bucket) (hrate : 0 ≤ rate) {grace : Nat}
    (hgrace : capacity ≤ (grace : K) * rate) (hidle : grace ≤ now - bucket.last) :
    level capacity rate (some bucket) now = capacity := by
  have hgain : (grace : K) * rate ≤ ((now - bucket.last : Nat) : K) * rate :=
    mul_le_mul_of_nonneg_right (Nat.cast_le.mpr hidle) hrate
  exact min_eq_right (by linarith [h.nonneg])

end Scm.TokenBucket
