import Scm.Bytes
import Mathlib.Data.List.Lex
import Scm.Collections

/-!
# A key-value store that scans in key order

The backend most stores of the Rust code are written against is an embedded database: `put`,
`remove`, and a scan over the keys that start with given bytes, in ascending order. Here the
entries are a list that is strictly sorted by key, so that the order of a scan is the order of
the list and a key has one entry by construction.

`get` finds the one entry of a key (`get_eq_some_iff`), so a `put` is seen under its own key
and under no other. What an operation leaves of all the entries is said up to order, in terms of
the records whose rows the entries are (`put_rows`, `removeAll_rows`); the order then comes back
from sortedness alone (`eq_iff_pairwise_of_perm`). The last part has the order of byte strings
and the facts that take keys apart.
-/

namespace Scm.OrderedStore

open List Collections

section
variable {κ β : Type} [LinearOrder κ]

structure Store (κ β : Type) [LinearOrder κ] where
  entries : List (κ × β)
  sorted : entries.Pairwise fun a b => a.1 < b.1

/-- Put an entry where its key belongs, in place of the one the key has. -/
def putIn (key : κ) (value : β) : List (κ × β) → List (κ × β)
  | [] => [(key, value)]
  | entry :: rest =>
    if key < entry.1 then (key, value) :: entry :: rest
    else if key = entry.1 then (key, value) :: rest
    else entry :: putIn key value rest

theorem mem_putIn {key : κ} {value : β} {entry : κ × β} :
    ∀ {entries : List (κ × β)}, entry ∈ putIn key value entries →
      entry = (key, value) ∨ entry ∈ entries
  | [], h => .inl (mem_singleton.mp h)
  | first :: rest, h => by
    unfold putIn at h
    split at h
    next => exact mem_cons.mp h
    split at h
    next => exact (mem_cons.mp h).imp_right (mem_cons_of_mem _)
    rcases mem_cons.mp h with rfl | h
    · exact .inr mem_cons_self
    · exact (mem_putIn h).imp_right (mem_cons_of_mem _)

theorem pairwise_putIn (key : κ) (value : β) :
    ∀ {entries : List (κ × β)}, (entries.Pairwise fun a b => a.1 < b.1) →
      (putIn key value entries).Pairwise fun a b => a.1 < b.1
  | [], _ => pairwise_singleton _ _
  | first :: rest, h => by
    obtain ⟨hfirst, hrest⟩ := pairwise_cons.mp h
    unfold putIn
    split
    next hlt => grind
    next hlt =>
      split
      next heq => grind [pairwise_cons]
      next hne =>
        refine pairwise_cons.mpr ⟨fun entry hentry => ?_, pairwise_putIn key value hrest⟩
        rcases mem_putIn hentry with rfl | hentry
        · exact lt_of_le_of_ne (not_lt.mp hlt) (Ne.symm hne)
        · exact hfirst entry hentry

/-- The entry is there, and of the others those with another key. -/
theorem putIn_perm (key : κ) (value : β) :
    ∀ {entries : List (κ × β)}, (entries.Pairwise fun a b => a.1 < b.1) →
      (putIn key value entries).Perm ((key, value) :: entries.filter fun entry => entry.1 ≠ key)
  | [], _ => .refl _
  | first :: rest, h => by
    obtain ⟨hfirst, hrest⟩ := pairwise_cons.mp h
    unfold putIn
    split
    next hlt =>
      -- every key is above the new one, and the filter keeps them all
      have hall : (first :: rest).filter (fun entry => entry.1 ≠ key) = first :: rest := by
        refine filter_eq_self.mpr fun entry hentry => decide_eq_true ?_
        rcases mem_cons.mp hentry with rfl | hentry
        · exact hlt.ne'
        · exact (hlt.trans (hfirst entry hentry)).ne'
      rw [hall]
    next hlt =>
      split
      next heq =>
        subst heq
        have hall : rest.filter (fun entry => entry.1 ≠ first.1) = rest :=
          filter_eq_self.mpr fun entry hentry => decide_eq_true (hfirst entry hentry).ne'
        rw [filter_cons_of_neg (by simp), hall]
      next hne =>
        rw [filter_cons_of_pos (by simpa using Ne.symm hne)]
        exact ((putIn_perm key value hrest).cons first).trans (.swap _ _ _)

namespace Store

/-- An empty store. -/
def empty : Store κ β := ⟨[], .nil⟩

def put (db : Store κ β) (key : κ) (value : β) : Store κ β :=
  ⟨putIn key value db.entries, pairwise_putIn key value db.sorted⟩

def remove (db : Store κ β) (key : κ) : Store κ β :=
  ⟨db.entries.filter fun entry => entry.1 ≠ key, db.sorted.filter _⟩

/-- Remove one key after another. -/
def removeAll (db : Store κ β) (keys : List κ) : Store κ β := keys.foldl remove db

def get (db : Store κ β) (key : κ) : Option β :=
  (db.entries.find? fun entry => entry.1 = key).map Prod.snd

variable (db : Store κ β)

theorem nodup_keys : (db.entries.map Prod.fst).Nodup :=
  (pairwise_map.mpr db.sorted).imp ne_of_lt

/-- A key has one entry. -/
theorem get_eq_some_iff {db : Store κ β} {key : κ} {value : β} :
    db.get key = some value ↔ (key, value) ∈ db.entries := by
  unfold get
  constructor
  · intro h
    obtain ⟨entry, hfind, rfl⟩ := Option.map_eq_some_iff.mp h
    have hkey : entry.1 = key := by simpa using List.find?_some hfind
    rw [← hkey]
    exact List.mem_of_find?_eq_some hfind
  · intro h
    cases hfind : db.entries.find? fun entry => entry.1 = key with
    | none => grind
    | some entry =>
      have hkey : entry.1 = key := by simpa using List.find?_some hfind
      have hsame := inj_on_of_nodup_map db.nodup_keys (List.mem_of_find?_eq_some hfind) h hkey
      rw [hsame, Option.map_some]

variable (key : κ) (value : β)

theorem entries_put_perm :
    (db.put key value).entries.Perm
      ((key, value) :: db.entries.filter fun entry => entry.1 ≠ key) :=
  putIn_perm key value db.sorted

theorem get_put_self : (db.put key value).get key = some value :=
  get_eq_some_iff.mpr ((db.entries_put_perm key value).mem_iff.mpr mem_cons_self)

theorem get_put_of_ne {key other : κ} (h : other ≠ key) (value : β) :
    (db.put key value).get other = db.get other := by
  refine Option.ext fun found => ?_
  rw [get_eq_some_iff, get_eq_some_iff, (db.entries_put_perm key value).mem_iff, mem_cons,
    mem_filter]
  constructor
  · simp_all
  · exact fun hmem => .inr ⟨hmem, decide_eq_true h⟩

theorem get_put (key other : κ) (value : β) :
    (db.put key value).get other = if other = key then some value else db.get other := by
  split
  next h => rw [h, get_put_self]
  next h => exact db.get_put_of_ne h value

theorem get_remove (other : κ) :
    (db.remove key).get other = if other = key then none else db.get other := by
  refine Option.ext fun found => ?_
  rw [Option.ite_none_left_eq_some, get_eq_some_iff, get_eq_some_iff]
  exact mem_filter.trans (and_comm.trans (and_congr_left' decide_eq_true_iff))

theorem entries_removeAll (keys : List κ) :
    ∀ (db : Store κ β), (db.removeAll keys).entries
      = db.entries.filter fun entry => entry.1 ∉ keys := by
  induction keys with
  | nil => exact fun db => (filter_eq_self.mpr fun _ _ => by simp).symm
  | cons key keys ih =>
    intro db
    have hfirst : (db.removeAll (key :: keys)).entries = ((db.remove key).removeAll keys).entries :=
      rfl
    rw [hfirst, ih, remove, filter_filter]
    refine filter_congr fun entry _ => ?_
    simp only [mem_cons, not_or, Bool.decide_and, Bool.and_comm]

/-! Where the entries are the rows of some records, up to order, an operation is said in terms
of the records. -/

section
variable {γ : Type} {row : γ → κ × β} {records : List γ} {db : Store κ β}

theorem filter_rows (h : db.entries.Perm (records.map row)) (q : κ → Prop) [DecidablePred q]
    {keep : γ → Bool} (hkeep : ∀ r ∈ records, keep r = true ↔ q (row r).1) :
    (db.entries.filter fun entry => q entry.1).Perm ((records.filter keep).map row) := by
  have hkept : records.filter ((fun entry : κ × β => decide (q entry.1)) ∘ row)
      = records.filter keep :=
    filter_congr fun r hr => Bool.eq_iff_iff.mpr (decide_eq_true_iff.trans (hkeep r hr).symm)
  rw [← hkept, ← filter_map]
  exact h.filter _

theorem put_rows (h : db.entries.Perm (records.map row)) (key : κ) (value : β) (keep : γ → Bool)
    (hkeep : ∀ r ∈ records, keep r = true ↔ (row r).1 ≠ key) :
    (db.put key value).entries.Perm ((key, value) :: (records.filter keep).map row) :=
  (db.entries_put_perm key value).trans ((filter_rows h (· ≠ key) hkeep).cons _)

theorem removeAll_rows (h : db.entries.Perm (records.map row)) (keys : List κ) (keep : γ → Bool)
    (hkeep : ∀ r ∈ records, keep r = true ↔ (row r).1 ∉ keys) :
    (db.removeAll keys).entries.Perm ((records.filter keep).map row) := by
  rw [entries_removeAll]
  exact filter_rows h (· ∉ keys) hkeep

end

end Store

end

/-- A sorted list is any other list of the same elements exactly when that one is sorted. -/
theorem eq_iff_pairwise_of_perm {α : Type} {r : α → α → Prop} {l sorted : List α}
    (hasymm : ∀ a b, r a b → ¬ r b a) (hsorted : sorted.Pairwise r) (hperm : l.Perm sorted) :
    l = sorted ↔ l.Pairwise r := by
  refine ⟨fun h => h ▸ hsorted, fun h => ?_⟩
  exact hperm.eq_of_pairwise (fun a b _ _ hab hba => absurd hba (hasymm a b hab)) h hsorted

/-! ## Byte keys -/

instance instLinearOrderUInt8 : LinearOrder UInt8 where
  le_refl := UInt8.le_refl
  le_trans _ _ _ := UInt8.le_trans
  le_antisymm _ _ := UInt8.le_antisymm
  le_total := UInt8.le_total
  lt_iff_le_not_ge a b := by
    rw [UInt8.not_le]
    exact ⟨fun h => ⟨UInt8.le_of_lt h, h⟩, And.right⟩
  toDecidableLE := inferInstance

/-- Byte strings under byte strings, scanned in the order of the keys. -/
abbrev ByteStore := Store Bytes Bytes

namespace ByteStore

def scanPrefix (db : ByteStore) (start : Bytes) : List (Bytes × Bytes) :=
  db.entries.filter fun entry => start.isPrefixOf entry.1

def countPrefix (db : ByteStore) (start : Bytes) : Nat := (db.scanPrefix start).length

/-- A scan lists the rows whose keys begin so. -/
theorem scanPrefix_rows {γ : Type} {row : γ → Bytes × Bytes} {records : List γ} {db : ByteStore}
    (h : db.entries.Perm (records.map row)) (start : Bytes) :
    (db.scanPrefix start).Perm
      ((records.filter fun r => start.isPrefixOf (row r).1).map row) := by
  have hrows := h.filter fun entry => start.isPrefixOf entry.1
  rw [filter_map] at hrows
  exact hrows

end ByteStore

theorem append_lt_append_left_iff {α : Type} [LinearOrder α] (x : List α) {a b : List α} :
    x ++ a < x ++ b ↔ a < b := by
  induction x with
  | nil => rfl
  | cons c x ih => simp [ih]

/-- A field up to its separator is read off the front of a key. -/
theorem append_sep_isPrefixOf_iff {α : Type} [DecidableEq α] {sep : α} {a b rest : List α}
    (ha : sep ∉ a) (hb : sep ∉ b) : (b ++ [sep]).isPrefixOf (a ++ sep :: rest) = true ↔ a = b := by
  rw [ isPrefixOf_iff_prefix]
  constructor
  · rintro ⟨tail, htail⟩
    rw [append_assoc] at htail
    exact (eq_of_cons_append_eq hb ha htail).1.symm
  · simp_all

/-- `str::as_bytes`. -/
def utf8 (s : String) : Bytes := s.toUTF8.data.toList

theorem utf8_append (s t : String) : utf8 (s ++ t) = utf8 s ++ utf8 t := by
  simp [utf8]

theorem utf8_inj {s t : String} (h : utf8 s = utf8 t) : s = t := by
  rw [Array.toList_inj] at h
  exact String.toByteArray_inj.mp (ByteArray.ext h)

/-- The bytes of a character outside ASCII have the high bit set. -/
theorem toNat_of_mem_utf8EncodeChar {b : UInt8} {c : Char} (h : b ∈ String.utf8EncodeChar c) :
    128 ≤ b.toNat ∨ b.toNat = c.toNat := by
  have hval : c.val.toNat = c.toNat := rfl
  simp only [String.utf8EncodeChar, hval] at h
  split at h
  next hascii =>
    right
    rw [mem_singleton.mp h, UInt8.toNat_ofNat']
    omega
  left
  split at h
  next =>
    simp only [mem_cons, not_mem_nil, or_false] at h
    rcases h with rfl | rfl <;> rw [UInt8.toNat_ofNat'] <;> omega
  split at h
  next =>
    simp only [mem_cons, not_mem_nil, or_false] at h
    rcases h with rfl | rfl | rfl <;> rw [UInt8.toNat_ofNat'] <;> omega
  simp only [mem_cons, not_mem_nil, or_false] at h
  rcases h with rfl | rfl | rfl | rfl <;> rw [UInt8.toNat_ofNat'] <;> omega

/-- The bytes of a text, character by character. -/
theorem utf8_eq_flatMap (s : String) : utf8 s = s.toList.flatMap String.utf8EncodeChar := by
  rw [utf8, String.toUTF8_eq_toByteArray, ← String.utf8Encode_toList]
  simp [List.utf8Encode]

/-- An ASCII byte in a text is that character. -/
theorem mem_of_mem_utf8 {c : Char} (hascii : c.toNat < 128) {s : String}
    (h : UInt8.ofNat c.toNat ∈ utf8 s) : c ∈ s.toList := by
  rw [utf8_eq_flatMap] at h
  obtain ⟨d, hd, hmem⟩ := mem_flatMap.mp h
  have hbyte := toNat_of_mem_utf8EncodeChar hmem
  rw [UInt8.toNat_ofNat'] at hbyte
  have heq : c = d := Char.toNat_inj.mp (by omega)
  rw [heq]
  exact hd

end Scm.OrderedStore
