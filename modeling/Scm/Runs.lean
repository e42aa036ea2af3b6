import Mathlib.Data.List.Basic

/-!
# Runs of a step function

A system that takes events one after another: `run` is the state it ends in,
`Along` says that a condition on state and event held each time an event was taken.
An invariant is proved once per event and carried along a run by `run_invariant`, or, when
the condition is exactly what a step needs, characterised by `always_iff_along`;
where the events bear the readings of a clock that never goes back,
`run_invariant_clock` carries an invariant that may speak of the last reading.
-/

namespace Scm.Runs

open List

variable {σ ε : Type} {step : σ → ε → σ}

/-- The state after the events. -/
def run (step : σ → ε → σ) (s : σ) (events : List ε) : σ := events.foldl step s

@[simp] theorem run_nil (s : σ) : run step s [] = s := rfl

@[simp] theorem run_cons (s : σ) (event : ε) (events : List ε) :
    run step s (event :: events) = run step (step s event) events := rfl

theorem run_append (s : σ) (events more : List ε) :
    run step s (events ++ more) = run step (run step s events) more :=
  foldl_append

/-- Every event finds the system in a state that meets the condition. -/
def Along (step : σ → ε → σ) (ok : σ → ε → Prop) : σ → List ε → Prop
  | _, [] => True
  | s, event :: events => ok s event ∧ Along step ok (step s event) events

section
variable {ok : σ → ε → Prop} {more events : List ε}

theorem along_append :
    ∀ {s : σ}, Along step ok s (events ++ more) ↔
      Along step ok s events ∧ Along step ok (run step s events) more := by
  induction events with
  | nil => exact fun {s} => ⟨fun h => ⟨trivial, h⟩, fun h => h.2⟩
  | cons event events ih => grind [Along, run_cons]

/-- The condition, event by event. -/
theorem along_iff :
    ∀ {s : σ}, Along step ok s events ↔
      ∀ before event after, events = before ++ event :: after → ok (run step s before) event := by
  induction events with
  | nil => exact fun {s} => ⟨fun _ before _ _ h => by simp at h, fun _ => trivial⟩
  | cons first events ih =>
    intro s
    rw [Along, ih]
    constructor
    · rintro ⟨hfirst, hrest⟩ before event after h
      cases before with
      | nil =>
        cases h
        exact hfirst
      | cons head before => simp_all
    · intro h
      refine ⟨h [] first events rfl, fun before event after heq => ?_⟩
      exact h (first :: before) event after (by rw [heq, cons_append])

end

theorem run_invariant {ok : σ → ε → Prop} {Inv : σ → Prop}
    (hstep : ∀ s event, Inv s → ok s event → Inv (step s event)) (events : List ε) :
    ∀ s, Inv s → Along step ok s events → Inv (run step s events) := by
  induction events with
  | nil => exact fun s hs _ => hs
  | cons event events ih =>
    intro s hs halong
    exact ih _ (hstep s event hs halong.1) halong.2

/-- The same with nothing asked of the events. -/
theorem run_invariant_always {Inv : σ → Prop} (hstep : ∀ s event, Inv s → Inv (step s event))
    (events : List ε) (s : σ) (hs : Inv s) : Inv (run step s events) := by
  induction events generalizing s with
  | nil => exact hs
  | cons event events ih => exact ih _ (hstep s event hs)

/-- Where the condition is what one step needs to keep the invariant, no more and no less, it
holds along a run exactly when the invariant holds at every point of it. What every step of the
run can rely on anyway is `fits`. -/
theorem always_iff_along {fits ok : σ → ε → Prop} {Inv : σ → Prop}
    (hstep : ∀ s event, Inv s → fits s event → (Inv (step s event) ↔ ok s event))
    (events : List ε) : ∀ s, Inv s → Along step fits s events →
      ((∀ before after, events = before ++ after → Inv (run step s before)) ↔
        Along step ok s events) := by
  induction events with
  | nil =>
    intro s hs _
    refine ⟨fun _ => trivial, fun _ before after h => ?_⟩
    rw [(append_eq_nil_iff.mp h.symm).1]
    exact hs
  | cons event events ih =>
    rintro s hs ⟨hfit, hfits⟩
    constructor
    · intro h
      have hfirst : Inv (step s event) := h [event] events rfl
      refine ⟨(hstep s event hs hfit).mp hfirst, (ih _ hfirst hfits).mp fun before after heq => ?_⟩
      exact h (event :: before) after (by rw [heq, cons_append])
    · rintro ⟨hok, halong⟩ before after heq
      cases before with
      | nil => exact hs
      | cons head before =>
        cases heq
        exact (ih _ ((hstep s event hs hfit).mpr hok) hfits).mpr halong before after rfl

/-- The clock of the state is the last reading, and readings do not go back. -/
theorem along_clock (clock : σ → Nat) (time : ε → Nat) (Inv : σ → Prop)
    (hclock : ∀ s event, clock (step s event) = time event)
    (hstep : ∀ s event, Inv s → clock s ≤ time event → Inv (step s event)) (events : List ε) :
    ∀ s, Inv s → (∀ event ∈ events, clock s ≤ time event) → (events.map time).Pairwise (· ≤ ·) →
      Along step (fun s event => Inv s ∧ clock s ≤ time event) s events := by
  induction events with
  | nil => exact fun _ _ _ _ => trivial
  | cons event events ih =>
    intro s hs hlater hsorted
    obtain ⟨hfirst, hrest⟩ := pairwise_cons.mp hsorted
    have hnow := hlater event mem_cons_self
    refine ⟨⟨hs, hnow⟩, ih _ (hstep s event hs hnow) (fun later hmem => ?_) hrest⟩
    rw [hclock]
    exact hfirst _ (mem_map_of_mem hmem)

/-- The invariant may depend on the clock, which does not go back. -/
theorem run_invariant_clock {time : ε → Nat} {ok : σ → ε → Prop} {Inv : Nat → σ → Prop}
    (hstep : ∀ t s event, Inv t s → t ≤ time event → ok s event → Inv (time event) (step s event))
    (events : List ε) : ∀ t s, Inv t s → (∀ event ∈ events, t ≤ time event) →
      (events.map time).Pairwise (· ≤ ·) → Along step ok s events →
      ∃ last, Inv last (run step s events) := by
  induction events with
  | nil => exact fun t s hs _ _ _ => ⟨t, hs⟩
  | cons event events ih =>
    intro t s hs hlater hclock halong
    obtain ⟨hfirst, hrest⟩ := pairwise_cons.mp hclock
    refine ih (time event) _ (hstep t s event hs (hlater event mem_cons_self) halong.1)
      (fun later hmem => ?_) hrest halong.2
    exact hfirst _ (mem_map_of_mem hmem)

end Scm.Runs
