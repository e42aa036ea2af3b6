import Mathlib.Algebra.Ring.Nat
import Mathlib.Data.Vector.Defs

/-!
# Byte strings: little-endian numbers, fields at an offset

The wire formats of the Rust code are read by offset: `data[offset]`,
`u32::from_le_bytes([..])`, `copy_from_slice(&data[offset..offset + n])`, with
the length checked once up front. This file is that vocabulary over
`List UInt8`. By the `_of_drop` lemmas what sits at an offset is decided by
`data.drop offset` alone, so a parser is followed by walking one chain of
`drop` equations (`drop_add_of_drop`) down the layout.

Reading past the end yields `0` where Rust panics; every reader tests the length
before it indexes.
-/

/-- Byte strings, the `Vec<u8>` of the source. -/
abbrev Scm.Bytes := List UInt8

namespace Scm.Bytes

open List hiding Vector

-- Keys and message ids are compared byte by byte.
instance lawfulBEqKey : LawfulBEq (Vector UInt8 32) := inferInstance

instance lawfulBEqId : LawfulBEq (Vector UInt8 16) := inferInstance

/-- The `k` low bytes of `n`, least significant first — `to_le_bytes` of a
`k`-byte unsigned integer. -/
def leBytes : Nat → Nat → Bytes
  | 0, _ => []
  | k + 1, n => UInt8.ofNat n :: leBytes k (n / 256)

/-- The number a little-endian byte string stands for — `from_le_bytes`. -/
def ofLe : Bytes → Nat
  | [] => 0
  | b :: bs => b.toNat + 256 * ofLe bs

@[simp] theorem leBytes_length : ∀ (k n : Nat), (leBytes k n).length = k
  | 0, _ => rfl
  | k + 1, n => by simp [leBytes, leBytes_length k (n / 256)]

/-- Reading back `k` bytes of `n` keeps `n` modulo `256 ^ k`. -/
theorem ofLe_leBytes : ∀ (k n : Nat), ofLe (leBytes k n) = n % 256 ^ k
  | 0, n => by simp [leBytes, ofLe, Nat.mod_one]
  | k + 1, n => by
    have hstep : n % 256 ^ (k + 1) = n % 256 + 256 * (n / 256 % 256 ^ k) := by
      rw [Nat.pow_succ', Nat.mod_mul]
    rw [leBytes, ofLe, ofLe_leBytes k (n / 256), hstep, UInt8.toNat_ofNat']

variable {data r x y : Bytes} {k n o : Nat}

theorem ofLe_leBytes_of_lt (h : n < 256 ^ k) : ofLe (leBytes k n) = n := by
  rw [ofLe_leBytes, Nat.mod_eq_of_lt h]

/-- Every byte string is the little-endian form of the number it stands for. -/
theorem leBytes_ofLe : ∀ (l : Bytes), leBytes l.length (ofLe l) = l
  | [] => rfl
  | b :: bs => by
    have hb : b.toNat < 256 := b.toNat_lt
    have hdiv : (b.toNat + 256 * ofLe bs) / 256 = ofLe bs := by omega
    have hhead : UInt8.ofNat (b.toNat + 256 * ofLe bs) = b := by
      apply UInt8.toNat_inj.mp
      rw [UInt8.toNat_ofNat']
      omega
    rw [length_cons, ofLe, leBytes, hdiv, hhead, leBytes_ofLe bs]

/-- Little-endian reading is linear: the exclusive or of two byte strings stands
for the exclusive or of their numbers. -/
theorem ofLe_xor : ∀ (xs ys : Bytes), xs.length = ys.length →
    ofLe (List.zipWith (· ^^^ ·) xs ys) = ofLe xs ^^^ ofLe ys
  | [], [], _ => rfl
  | x :: xs, y :: ys, h => by
    have hlow (b : UInt8) (n : Nat) : (b.toNat + 256 * n) % 2 ^ 8 = b.toNat := by
      have := b.toNat_lt
      omega
    have hhigh (b : UInt8) (n : Nat) : (b.toNat + 256 * n) / 2 ^ 8 = n := by
      have := b.toNat_lt
      omega
    have ih := ofLe_xor xs ys (by simpa using h)
    -- compare the low byte and the rest separately
    rw [zipWith_cons_cons, ofLe, ofLe, ofLe, ih,
      ← Nat.div_add_mod (_ ^^^ (y.toNat + 256 * ofLe ys)) (2 ^ 8), Nat.xor_mod_two_pow,
      Nat.xor_div_two_pow, hlow, hlow, hhigh, hhigh, UInt8.toNat_xor]
    omega

theorem ofLe_lt : ∀ (l : Bytes), ofLe l < 256 ^ l.length
  | [] => by simp [ofLe]
  | b :: bs => by
    have hb : b.toNat < 256 := b.toNat_lt
    have ih := ofLe_lt bs
    rw [length_cons, ofLe]
    omega

/-- One lower-case hexadecimal digit. -/
def hexDigit (n : Nat) : Char := "0123456789abcdef".toList.getD n '0'

/-- `hex::encode`. -/
def toHex (data : Bytes) : String :=
  String.ofList (data.flatMap fun b => [hexDigit (b.toNat / 16), hexDigit (b.toNat % 16)])

/-- What holds of the sixteen digits holds of every character of an encoding. -/
theorem forall_mem_toHex {p : Char → Prop} (h : ∀ n < 16, p (hexDigit n)) (data : Bytes) :
    ∀ c ∈ (toHex data).toList, p c := by
  rw [toHex, String.toList_ofList]
  intro c hc
  obtain ⟨b, _, hb⟩ := mem_flatMap.mp hc
  have hlt : b.toNat < 256 := b.toNat_lt
  rcases mem_cons.mp hb with rfl | hb
  · exact h _ (by omega)
  · rw [mem_singleton.mp hb]
    exact h _ (by omega)

/-! ## Fields at an offset -/

/-- `data[i]`. -/
def byteAt (data : Bytes) (i : Nat) : UInt8 := data.getD i 0

/-- `&data[a..b]`. -/
def slice (data : Bytes) (a b : Nat) : Bytes := (data.drop a).take (b - a)

/-- `from_le_bytes` of the `k` bytes at offset `o`. -/
def leAt (k : Nat) (data : Bytes) (o : Nat) : Nat := ofLe ((data.drop o).take k)

/-- `arr.copy_from_slice(&data[o..o + n])` into an `n`-byte array. -/
def arrayAt (n : Nat) (data : Bytes) (o : Nat) : Vector UInt8 n :=
  .ofFn fun i => byteAt data (o + i)

/-- Step the `drop` chain over a field of known length. -/
theorem drop_add_of_drop {a : Nat} (h : data.drop a = x ++ r) (hx : x.length = k) :
    data.drop (a + k) = r := by
  rw [← drop_drop, h, ← hx, drop_left]

theorem byteAt_of_drop {b : UInt8} (h : data.drop o = b :: r) :
    byteAt data o = b := by
  have h0 : (data.drop o)[0]? = some b := by rw [h]; rfl
  rw [List.getElem?_drop, Nat.add_zero] at h0
  rw [byteAt, List.getD_eq_getElem?_getD, h0]
  rfl

theorem drop_eq_byteAt_cons (h : o < data.length) :
    data.drop o = byteAt data o :: data.drop (o + 1) := by
  rw [drop_eq_getElem_cons h, byteAt, List.getD_eq_getElem?_getD, List.getElem?_eq_getElem h]
  rfl

theorem slice_of_drop {a b : Nat} (h : data.drop a = x ++ r) (hx : x.length = b - a) :
    slice data a b = x := by
  rw [slice, h, ← hx, take_left]

theorem leAt_of_drop (h : data.drop o = leBytes k n ++ r) (hn : n < 256 ^ k) :
    leAt k data o = n := by
  rw [leAt, h, List.take_left' (leBytes_length k n), ofLe_leBytes_of_lt hn]

theorem arrayAt_of_drop {v : Vector UInt8 n} (h : data.drop o = v.toList ++ r) :
    arrayAt n data o = v := by
  apply Vector.ext
  intro i hi
  have hget : (data.drop o)[i]? = some v[i] := by
    rw [h, List.getElem?_append_left (by simpa using hi)]
    simp
  rw [List.getElem?_drop] at hget
  rw [arrayAt, Vector.getElem_ofFn, byteAt, List.getD_eq_getElem?_getD, hget]
  rfl

@[simp] theorem arrayAt_toList (v : Vector UInt8 n) : arrayAt n v.toList 0 = v :=
  arrayAt_of_drop (r := []) (by rw [drop_zero, append_nil])

/-- A slice of the right length is the list of the array it is copied into. -/
theorem toList_arrayAt (h : data.length = n) :
    (arrayAt n data 0).toList = data := by
  subst h
  have hcopy : arrayAt data.length data 0 = ⟨data.toArray, rfl⟩ :=
    arrayAt_of_drop (r := []) (by rw [append_nil]; rfl)
  rw [hcopy]
  rfl

theorem leAt_lt (k : Nat) (data : Bytes) (o : Nat) : leAt k data o < 256 ^ k := by
  refine Nat.lt_of_lt_of_le (ofLe_lt _) (Nat.pow_le_pow_right (by omega) ?_)
  rw [length_take]
  exact Nat.min_le_left _ _

/-- A number read at `o` writes back to the bytes it was read from. -/
theorem leBytes_leAt (h : o + k ≤ data.length) :
    leBytes k (leAt k data o) = (data.drop o).take k := by
  have hlen : ((data.drop o).take k).length = k := by
    rw [length_take, length_drop]
    omega
  have hround := leBytes_ofLe ((data.drop o).take k)
  rw [hlen] at hround
  exact hround

/-! A field of a fixed length is told apart from what follows it. -/

theorem toList_append_inj {v w : Vector UInt8 n} (h : v.toList ++ x = w.toList ++ y) :
    v = w ∧ x = y := by
  obtain ⟨hv, hx⟩ := append_inj h (by simp only [Vector.length_toList])
  exact ⟨Vector.toList_inj.mp hv, hx⟩

theorem leBytes_append_inj {m : Nat} (h : leBytes k n ++ x = leBytes k m ++ y) :
    n % 256 ^ k = m % 256 ^ k ∧ x = y := by
  obtain ⟨hn, hx⟩ := append_inj h (by rw [leBytes_length, leBytes_length])
  have hread := congrArg ofLe hn
  rw [ofLe_leBytes, ofLe_leBytes] at hread
  exact ⟨hread, hx⟩

theorem leBytes_u32_append_inj {a b : UInt32} (h : leBytes 4 a.toNat ++ x = leBytes 4 b.toNat ++ y)
    : a = b ∧ x = y := by
  obtain ⟨hmod, hx⟩ := leBytes_append_inj h
  have ha : a.toNat < 256 ^ 4 := a.toNat_lt
  have hb : b.toNat < 256 ^ 4 := b.toNat_lt
  rw [Nat.mod_eq_of_lt ha, Nat.mod_eq_of_lt hb] at hmod
  exact ⟨UInt32.toNat_inj.mp hmod, hx⟩

end Scm.Bytes
