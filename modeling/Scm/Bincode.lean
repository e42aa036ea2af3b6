import Scm.Bytes

/-!
# Bincode 1.x, fixed-width little-endian

The default `bincode::serialize` / `bincode::deserialize` configuration:
integers at their own width, little-endian; a `u64` length in front of byte
vectors, strings and sequences; one tag byte in front of an `Option`; a `u32`
variant index in front of an enum; fixed arrays without a length. A reader
consumes a prefix and hands on the rest; `deserialize` drops what is left, which
is bincode's default of allowing trailing bytes.

Errors carry no information here: every caller in the Rust code either drops the
error or turns it into a text of its own.
-/

namespace Scm.Bincode

open List hiding Vector
open Bytes

/-- A reader takes a value off the front of the input. -/
abbrev Reader := StateT Bytes Option

/-- The next `n` bytes. -/
def take (n : Nat) : Reader Bytes := fun data =>
  if n ≤ data.length then some (data.take n, data.drop n) else none

/-- `n` little-endian bytes as a number. -/
def uint (n : Nat) : Reader Nat := do
  let bytes ← take n
  return ofLe bytes

def u8 : Reader UInt8 := do
  let n ← uint 1
  return UInt8.ofNat n

def u32 : Reader UInt32 := do
  let n ← uint 4
  return UInt32.ofNat n

def u64 : Reader UInt64 := do
  let n ← uint 8
  return UInt64.ofNat n

/-- `[u8; n]`. -/
def array (n : Nat) : Reader (Vector UInt8 n) := do
  let bytes ← take n
  return arrayAt n bytes 0

/-- `Vec<u8>`: a `u64` length, then the bytes. -/
def bytes : Reader Bytes := do
  let n ← uint 8
  take n

/-- Exactly `n` values, one after another. -/
def replicate {α : Type} (r : Reader α) : Nat → Reader (List α)
  | 0 => return []
  | n + 1 => do
    let a ← r
    let rest ← replicate r n
    return a :: rest

/-- `Vec<T>`: a `u64` length, then the values. -/
def vec {α : Type} (r : Reader α) : Reader (List α) := do
  let n ← uint 8
  replicate r n

/-- `Option<T>`: one tag byte, which must be 0 or 1. -/
def option {α : Type} (r : Reader α) : Reader (Option α) := do
  let tag ← u8
  if tag = 0 then return none
  else if tag = 1 then
    let a ← r
    return some a
  else failure

/-- `String`: bytes that must be valid UTF-8. -/
def string : Reader String := do
  let data ← bytes
  match String.fromUTF8? ⟨data.toArray⟩ with
  | some s => return s
  | none => failure

/-- `bool`: one byte, which must be 0 or 1. -/
def bool : Reader Bool := do
  let tag ← u8
  if tag = 0 then return false
  else if tag = 1 then return true
  else failure

/-- `bincode::deserialize`: the value at the front; trailing bytes are allowed. -/
def deserialize {α : Type} (r : Reader α) (data : Bytes) : Option α := (r data).map Prod.fst

/-- `Vec<u8>` as written. -/
def putBytes (data : Bytes) : Bytes := leBytes 8 data.length ++ data

/-- `String` as written. -/
def putString (s : String) : Bytes := putBytes s.toUTF8.data.toList

/-- `Option<T>` as written. -/
def putOption {α : Type} (put : α → Bytes) : Option α → Bytes
  | none => [0]
  | some a => 1 :: put a

/-- `bool` as written. -/
def putBool (b : Bool) : Bytes := [if b then 1 else 0]

/-- `Vec<T>` as written. -/
def putVec {α : Type} (put : α → Bytes) (l : List α) : Bytes :=
  leBytes 8 l.length ++ l.flatMap put

/-! ## Lengths of what is read -/

variable {data rest x : Bytes} {n : Nat} {α β : Type}

section
variable {r : Reader α}

/-- A reader followed by another one: what the first leaves goes to the second. -/
theorem bind_eq_some {f : α → Reader β} {b : β} (h : (r >>= f) data = some (b, rest)) :
    ∃ a left, r data = some (a, left) ∧
      f a left = some (b, rest) := by
  obtain ⟨⟨a, left⟩, hr, hf⟩ := Option.bind_eq_some_iff.mp h
  exact ⟨a, left, hr, hf⟩

/-- Where the first reader fails, nothing is read. -/
theorem bind_eq_none (f : α → Reader β) (h : r data = none) : (r >>= f) data = none := by
  show (r data).bind _ = none
  rw [h]
  rfl

theorem uint_lt {k : Nat} (h : uint k data = some (n, rest)) :
    n < 256 ^ k := by
  obtain ⟨x, left, htake, hreturn⟩ := bind_eq_some h
  cases hreturn
  unfold take at htake
  split at htake
  next hlen => grind [ofLe_lt, length_take]
  next => cases htake

theorem length_replicate : ∀ {n : Nat} {data rest : Bytes} {l : List α},
    replicate r n data = some (l, rest) → l.length = n
  | 0, _, _, _, h => by
    cases h
    rfl
  | n + 1, _, _, _, h => by
    obtain ⟨a, left, _, h⟩ := bind_eq_some h
    obtain ⟨tail, left', htail, h⟩ := bind_eq_some h
    cases h
    rw [length_cons, length_replicate htail]

/-- A vector has no more elements than its length field can say. -/
theorem length_vec_lt {l : List α} (h : vec r data = some (l, rest)) : l.length < 2 ^ 64 := by
  obtain ⟨n, left, hn, hl⟩ := bind_eq_some h
  rw [length_replicate hl]
  exact uint_lt hn

/-! ## Reading back what was written -/

/-- A reader that succeeds hands its value and the rest to the next one. -/
theorem bind_eq {a : α} (f : α → Reader β) (h : r data = some (a, rest)) :
    (r >>= f) data = f a rest := by
  show (r data).bind _ = _
  rw [h]
  rfl

end

theorem take_append (x rest : Bytes) : take x.length (x ++ rest) = some (x, rest) := by
  unfold take
  rw [if_pos (by rw [length_append]; omega), take_left, drop_left]

theorem uint_append {k : Nat} (h : n < 256 ^ k) (rest : Bytes) :
    uint k (leBytes k n ++ rest) = some (n, rest) := by
  have htake := take_append (leBytes k n) rest
  rw [leBytes_length] at htake
  rw [uint, bind_eq _ htake, ofLe_leBytes_of_lt h]
  rfl

theorem u8_append (b : UInt8) (rest : Bytes) : u8 (b :: rest) = some (b, rest) := by
  have htake : take 1 (b :: rest) = some ([b], rest) := take_append [b] rest
  have huint : uint 1 (b :: rest) = some (b.toNat, rest) := by
    rfl
  rw [u8, bind_eq _ huint, UInt8.ofNat_toNat]
  rfl

theorem u32_append (n : UInt32) (rest : Bytes) :
    u32 (leBytes 4 n.toNat ++ rest) = some (n, rest) := by
  rw [u32, bind_eq _ (uint_append n.toNat_lt rest), UInt32.ofNat_toNat]
  rfl

theorem u64_append (n : UInt64) (rest : Bytes) :
    u64 (leBytes 8 n.toNat ++ rest) = some (n, rest) := by
  rw [u64, bind_eq _ (uint_append n.toNat_lt rest), UInt64.ofNat_toNat]
  rfl

theorem bytes_append (h : x.length < 2 ^ 64) (rest : Bytes) :
    bytes (putBytes x ++ rest) = some (x, rest) := by
  rw [bytes, putBytes, append_assoc, bind_eq _ (uint_append h _)]
  exact take_append x rest

section
variable {r : Reader α} {put : α → Bytes}

theorem option_append {o : Option α} (h : ∀ a, o = some a → r (put a ++ rest) = some (a, rest)) :
    option r (putOption put o ++ rest) = some (o, rest) := by
  cases o with
  | none =>
    rfl
  | some a =>
    rw [option, putOption, cons_append, bind_eq _ (u8_append 1 _), if_neg (by decide),
      if_pos rfl, bind_eq _ (h a rfl)]
    rfl

theorem string_append {s : String} (h : s.utf8ByteSize < 2 ^ 64) (rest : Bytes) :
    string (putString s ++ rest) = some (s, rest) := by
  have hbytes : s.toUTF8.data.toList.length < 2 ^ 64 := h
  have hutf8 : String.fromUTF8? ⟨s.toUTF8.data.toList.toArray⟩ = some s :=
    dif_pos s.isValidUTF8
  rw [string, putString, bind_eq _ (bytes_append hbytes rest), hutf8]
  rfl

theorem array_append (v : Vector UInt8 n) (rest : Bytes) :
    array n (v.toList ++ rest) = some (v, rest) := by
  have htake := take_append v.toList rest
  rw [Vector.length_toList] at htake
  rw [array, bind_eq _ htake, arrayAt_toList]
  rfl

theorem bool_append (b : Bool) (rest : Bytes) : bool (putBool b ++ rest) = some (b, rest) := by
  rw [bool, putBool, singleton_append, bind_eq _ (u8_append _ rest)]
  cases b <;> rfl

theorem replicate_append {l : List α} (h : ∀ a ∈ l, ∀ rest, r (put a ++ rest) = some (a, rest))
    (rest : Bytes) : replicate r l.length (l.flatMap put ++ rest) = some (l, rest) := by
  induction l with
  | nil => rfl
  | cons a l ih =>
    obtain ⟨ha, hl⟩ := forall_mem_cons.mp h
    rw [length_cons, replicate, flatMap_cons, append_assoc, bind_eq _ (ha _), bind_eq _ (ih hl)]
    rfl

theorem vec_append {l : List α} (hlen : l.length < 2 ^ 64)
    (h : ∀ a ∈ l, ∀ rest, r (put a ++ rest) = some (a, rest)) (rest : Bytes) :
    vec r (putVec put l ++ rest) = some (l, rest) := by
  rw [vec, putVec, append_assoc, bind_eq _ (uint_append hlen _)]
  exact replicate_append h rest

/-- Two writings that read back are equal only if the values and what follows are. -/
theorem append_unique {a b : α} {y : Bytes} (ha : r (put a ++ x) = some (a, x))
    (hb : r (put b ++ y) = some (b, y)) (h : put a ++ x = put b ++ y) : a = b ∧ x = y := by
  rw [h, hb] at ha
  cases ha
  exact ⟨rfl, rfl⟩

end

theorem putString_append_unique {s t : String} (hs : s.utf8ByteSize < 2 ^ 64)
    (ht : t.utf8ByteSize < 2 ^ 64) {y : Bytes} (h : putString s ++ x = putString t ++ y) :
    s = t ∧ x = y :=
  append_unique (string_append hs x) (string_append ht y) h

end Scm.Bincode
