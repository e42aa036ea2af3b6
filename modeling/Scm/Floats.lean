import Mathlib.Data.Rat.Defs

/-!
# Floating-point arithmetic as a parameter

Code that computes with `f64` is modelled over any type with the operations it uses: what is
proved then does not rest on how they round. `exact` is the instance that does not round, for
runs on fixed inputs.
-/

namespace Scm.Floats

/-- The operations of `f64` that are used; `lit` is a literal of the source. -/
structure FloatOps (F : Type) where
  lit : ℚ → F
  ofNat : Nat → F
  add : F → F → F
  sub : F → F → F
  mul : F → F → F
  div : F → F → F
  min : F → F → F
  max : F → F → F
  lt : F → F → Bool
  le : F → F → Bool

/-- `partial_cmp`: there is no order with a NaN. -/
def FloatOps.partialCmp {F : Type} (A : FloatOps F) (a b : F) : Option Ordering :=
  if A.lt a b then some .lt
  else if A.lt b a then some .gt
  else if A.le a b then some .eq
  else none

/-- Exact arithmetic. -/
def exact : FloatOps ℚ where
  lit := id
  ofNat n := n
  add := (· + ·)
  sub := (· - ·)
  mul := (· * ·)
  div := (· / ·)
  min a b := if a ≤ b then a else b
  max a b := if a ≤ b then b else a
  lt a b := decide (a < b)
  le a b := decide (a ≤ b)

end Scm.Floats
