import Mathlib.Data.List.Basic

/-!
# Streams that arrive in pieces

What a reader of a connection sees: deliveries, each at its own instant, of as many items as
happened to come together. `readExact` waits for a given number of items, over as many
deliveries as it takes, and gives up at a deadline. What it took from the stream before it gave
up is lost, as it is for a reader that is dropped while it waits.

The cut into deliveries has no part in what is read (`readExact_eq`). When the items have come is
`finish`, and `finish_add` and `rest_add` let a read of several parts be seen as one.
-/

namespace Scm.Streams

open List

variable {α : Type}

/-- Items that arrive together. -/
structure Delivery (α : Type) where
  arrival : Nat
  content : List α
  deriving DecidableEq, Repr

/-- The reading end of a connection. -/
structure Source (α : Type) where
  clock : Nat
  deliveries : List (Delivery α)
  /-- When and with what error it ends, if it ever does. -/
  closed : Option (Nat × String)

inductive ReadError where
  | timeout
  | failed (message : String)
  deriving DecidableEq, Repr

/-- All items that are still to be read. -/
def contents (deliveries : List (Delivery α)) : List α := deliveries.flatMap Delivery.content

/-- The instant by which so many items have arrived, for a reader that is there from `clock` on. -/
def finish : List (Delivery α) → Nat → Nat → Nat
  | [], _, clock => clock
  | d :: ds, n, clock =>
    if n = 0 then clock else finish ds (n - d.content.length) (max clock d.arrival)

/-- The deliveries without their first so many items. -/
def rest : List (Delivery α) → Nat → List (Delivery α)
  | [], _ => []
  | d :: ds, n =>
    if n ≤ d.content.length then { d with content := d.content.drop n } :: ds
    else rest ds (n - d.content.length)

/-- Reading `n` items: what was read, the instant the read was over, and what is left. -/
def readLoop (closed : Option (Nat × String)) (deadline : Nat) :
    List (Delivery α) → Nat → Nat → Except ReadError (List α) × Nat × List (Delivery α)
  | [], n, clock =>
    if n = 0 then (.ok [], clock, [])
    else
      match closed with
      | some (instant, message) =>
        if instant ≤ deadline then (.error (.failed message), max clock instant, [])
        else (.error .timeout, deadline, [])
      | none => (.error .timeout, deadline, [])
  | d :: ds, n, clock =>
    if n = 0 then (.ok [], clock, d :: ds)
    else if d.arrival > deadline then (.error .timeout, deadline, d :: ds)
    else if n ≤ d.content.length then
      (.ok (d.content.take n), max clock d.arrival, { d with content := d.content.drop n } :: ds)
    else
      match readLoop closed deadline ds (n - d.content.length) (max clock d.arrival) with
      | (.ok items, after) => (.ok (d.content ++ items), after)
      | (.error e, after) => (.error e, after)

/-- Reads exactly `n` items, or fails at the deadline at the latest. -/
def Source.readExact (s : Source α) (deadline n : Nat) : Except ReadError (List α) × Source α :=
  let out := readLoop s.closed deadline s.deliveries n s.clock
  (out.1, { s with clock := out.2.1, deliveries := out.2.2 })

/-- The stream after a read of so many items. -/
def Source.after (s : Source α) (n : Nat) : Source α :=
  { s with clock := finish s.deliveries n s.clock, deliveries := rest s.deliveries n }

theorem contents_cons (d : Delivery α) (ds : List (Delivery α)) :
    contents (d :: ds) = d.content ++ contents ds := flatMap_cons

variable (ds : List (Delivery α))

theorem contents_rest :
    ∀ n, contents (rest ds n) = (contents ds).drop n := by
  induction ds with
  | nil => exact fun _ => drop_nil.symm
  | cons d ds ih =>
    grind [rest, contents_cons, drop_append, Nat.sub_eq_zero_of_le, drop_of_length_le]

@[simp] theorem finish_zero (clock : Nat) : finish ds 0 clock = clock := by
  cases ds <;> rfl

theorem clock_le_finish : ∀ n clock, clock ≤ finish ds n clock := by
  induction ds with
  | nil => exact fun _ _ => Nat.le_refl _
  | cons d ds ih => grind [finish]

/-- A read of `n + m` items is over when the read of `m` after the read of `n` is. -/
theorem finish_add : ∀ n m clock,
    finish ds (n + m) clock = finish (rest ds n) m (finish ds n clock) := by
  induction ds with
  | nil => exact fun _ _ _ => rfl
  | cons d ds ih =>
    intro n m clock
    rw [rest]
    by_cases hn : n = 0
    · simp_all
    rw [finish, if_neg (by omega), finish, if_neg hn]
    split
    next hle =>
      rw [Nat.sub_eq_zero_of_le hle, finish_zero, finish, length_drop]
      split
      next hm => rw [hm, Nat.add_zero, Nat.sub_eq_zero_of_le hle, finish_zero]
      next => grind
    next hgt =>
      rw [show n + m - d.content.length = n - d.content.length + m by omega, ih]

theorem rest_add : ∀ n m, rest ds (n + m) = rest (rest ds n) m := by
  induction ds with
  | nil => exact fun _ _ => rfl
  | cons d ds ih => grind [rest, length_drop, drop_drop]

theorem Source.after_add (s : Source α) (n m : Nat) : s.after (n + m) = (s.after n).after m := by
  unfold Source.after
  rw [finish_add, rest_add]

theorem readLoop_eq (closed : Option (Nat × String)) {deadline : Nat} (ds : List (Delivery α)) :
    ∀ {n clock : Nat}, n ≤ (contents ds).length → finish ds n clock ≤ deadline →
      readLoop closed deadline ds n clock
        = (.ok ((contents ds).take n), finish ds n clock, rest ds n) := by
  induction ds with
  | nil =>
    intro n clock hlen _
    obtain rfl := Nat.le_zero.mp hlen
    rfl
  | cons d ds ih =>
    intro n clock hlen htime
    rw [readLoop, rest]
    by_cases hn : n = 0
    · simp_all
    rw [contents_cons] at hlen ⊢
    rw [length_append] at hlen
    rw [finish, if_neg hn] at htime ⊢
    have harrived : max clock d.arrival ≤ deadline := Nat.le_trans (clock_le_finish _ _ _) htime
    rw [if_neg hn, if_neg (by omega)]
    split
    next hle => rw [take_append_of_le_length hle, Nat.sub_eq_zero_of_le hle, finish_zero]
    next hgt => grind [take_of_length_le, List.take_append]

/-- A read whose items have arrived by the deadline yields the next items of the stream. -/
theorem Source.readExact_eq {s : Source α} {deadline n : Nat}
    (hlen : n ≤ (contents s.deliveries).length) (htime : finish s.deliveries n s.clock ≤ deadline) :
    s.readExact deadline n = (.ok ((contents s.deliveries).take n), s.after n) := by
  unfold Source.readExact
  rw [readLoop_eq s.closed s.deliveries hlen htime]
  rfl

end Scm.Streams
