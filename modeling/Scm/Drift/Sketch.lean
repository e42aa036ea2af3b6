import Scm.Drift.Frame
import Scm.LinearSketch

/-!
# Invertible Bloom lookup tables — `core/src/drift/sketch.rs`

An `IBLT` is a vector of cells; a key is added into the three cells its hashes
name. Each cell keeps a signed count, the exclusive or of the keys and the
exclusive or of the keys' first four bytes (the comment in the source says
`blake3(key)[0:4]`; the code takes the key's own bytes, and that difference is
what the decoder's soundness turns on, see `Scm.Drift.Peel`).

The cells form an abelian group under "add the counts, xor the rest", and every
table operation is addition in it. So a table built from a list of keys is a
`Scm.LinearSketch.sketch` in every cell (`insertAll_withCells`), subtracting two
tables leaves the sketch of what each side has alone (`tableCell_only`), and
the check word of every such cell is the check word *of its key sum*
(`consistent_tableCell`): the test `key_check == check` can never fail on it.

The cell-placement hash (`blake3` of the hash index and the key, first eight
bytes) is a parameter. Counts are `i32` and wrap.
-/

namespace Scm.Drift

open List hiding Vector
open Bytes LinearSketch

/-- `MessageId` (`drift/store.rs`): `[u8; 16]`. -/
abbrev MessageId := Vector UInt8 16

/-- A cell-placement hash, of a hash index and a key. -/
abbrev CellHash := UInt8 → MessageId → UInt64

/-- `HASH_COUNT`. -/
def hashCount : Nat := 3

/-- `CELLS_PER_DIFF`. -/
def cellsPerDiff : Nat := 3

/-- Byte-wise exclusive or of two ids. -/
def xorKey (a b : MessageId) : MessageId := Vector.zipWith (· ^^^ ·) a b

/-- `u32::from_le_bytes([key[0], key[1], key[2], key[3]])`. -/
def checkOf (key : MessageId) : UInt32 := UInt32.ofNat (ofLe (key.toList.take 4))

@[ext]
structure IBLTCell where
  count : Int32
  keySum : MessageId
  keyCheck : UInt32
  deriving DecidableEq, Repr

namespace IBLTCell

/-- `IBLTCell::new`. -/
def new : IBLTCell := ⟨0, .replicate 16 0, 0⟩

/-- `IBLTCell::is_pure`. -/
def isPure (c : IBLTCell) : Bool := c.count == 1 || c.count == -1

/-- `IBLTCell::is_empty`: only the count is looked at. -/
def isEmpty (c : IBLTCell) : Bool := c.count == 0

/-- `IBLTCell::xor_in`, and `xor_out`: exclusive or undoes itself. -/
def xorIn (c : IBLTCell) (key : MessageId) : IBLTCell :=
  { c with keySum := xorKey c.keySum key, keyCheck := c.keyCheck ^^^ checkOf key }

/-- The body of the cell loops: `count += delta`, then the key in or out. -/
def add (c : IBLTCell) (delta : Int32) (key : MessageId) : IBLTCell :=
  ({ c with count := c.count + delta } : IBLTCell).xorIn key

/-- The 21 bytes of a cell on the wire: `count as u8` keeps the low byte. -/
def toBytes (c : IBLTCell) : Bytes :=
  c.count.toUInt32.toUInt8 :: (c.keySum.toList ++ leBytes 4 c.keyCheck.toNat)

/-- The cell at an offset; the count byte is widened without a sign. -/
def readAt (data : Bytes) (offset : Nat) : IBLTCell :=
  ⟨(byteAt data offset).toUInt32.toInt32, arrayAt 16 data (offset + 1),
    UInt32.ofNat (leAt 4 data (offset + 17))⟩

/-- The cell-wise difference `IBLT::subtract` writes. -/
def diff (c d : IBLTCell) : IBLTCell :=
  ⟨c.count - d.count, xorKey c.keySum d.keySum, c.keyCheck ^^^ d.keyCheck⟩

end IBLTCell

/-- `IBLT`; the two fields of the source always agree on the size. -/
structure IBLT where
  cells : List IBLTCell
  numCells : Nat
  length_cells : cells.length = numCells
  deriving DecidableEq, Repr

/-- The cell `hash_to_cell` names; `hash` is the first eight digest bytes. -/
def hashToCell (hash : CellHash) (numCells : Nat) (key : MessageId) (hashIdx : Nat) : Nat :=
  (hash (UInt8.ofNat hashIdx) key).toNat % numCells

/-- The loop over the hash functions: add `delta` and the key into each cell
that `key` hashes to, once per hash. -/
def addKey (hash : CellHash) (numCells : Nat) (delta : Int32) (key : MessageId)
    (cells : List IBLTCell) : List IBLTCell :=
  (List.range hashCount).foldl
    (fun cells hashIdx =>
      cells.modify (hashToCell hash numCells key hashIdx) (·.add delta key)) cells

variable (hash : CellHash)

theorem length_addKey (numCells : Nat) (delta : Int32) (key : MessageId) (cells : List IBLTCell) :
    (addKey hash numCells delta key cells).length = cells.length := by
  simp [addKey, hashCount, range_succ]

/-- The loop of `IBLT::decode`. `fuel` counts down the iterations that
`max_iterations` still allows. -/
def decodeLoop (hash : CellHash) (numCells : Nat) :
    Nat → List IBLTCell → List MessageId → List MessageId →
      Except DriftError (List MessageId × List MessageId)
  | 0, _, _, _ => .error (.decompressionFailed
      "IBLT decode failed: exceeded maximum iterations (IBLT likely undersized for differences)")
  | fuel + 1, cells, aliceOnly, bobOnly =>
    match cells.findIdx? IBLTCell.isPure with
    | none =>
      if cells.all IBLTCell.isEmpty then .ok (aliceOnly, bobOnly)
      else .error (.decompressionFailed "IBLT decode failed: cannot peel remaining cells")
    | some idx =>
      let cell := cells.getD idx IBLTCell.new
      if cell.keyCheck ≠ checkOf cell.keySum then
        .error (.decompressionFailed
          "IBLT decode failed: key_check mismatch, possible hash collision or corruption")
      else
        let peeled := (addKey hash numCells (-cell.count) cell.keySum cells).set idx IBLTCell.new
        if cell.count = 1 then
          decodeLoop hash numCells fuel peeled (aliceOnly ++ [cell.keySum]) bobOnly
        else
          decodeLoop hash numCells fuel peeled aliceOnly (bobOnly ++ [cell.keySum])

namespace IBLT

/-- `IBLT::with_cells`. -/
def withCells (numCells : Nat) : IBLT :=
  ⟨List.replicate (max numCells 1) IBLTCell.new, max numCells 1, List.length_replicate⟩

/-- `IBLT::new`. -/
def new (expectedDiffs : Nat) : IBLT :=
  ⟨List.replicate (max expectedDiffs 1 * cellsPerDiff) IBLTCell.new,
    max expectedDiffs 1 * cellsPerDiff, List.length_replicate⟩

/-- `IBLT::insert`. -/
def insert (hash : CellHash) (t : IBLT) (key : MessageId) : IBLT :=
  ⟨addKey hash t.numCells 1 key t.cells, t.numCells, by rw [length_addKey, t.length_cells]⟩

/-- `IBLT::remove`. -/
def remove (hash : CellHash) (t : IBLT) (key : MessageId) : IBLT :=
  ⟨addKey hash t.numCells (-1) key t.cells, t.numCells, by rw [length_addKey, t.length_cells]⟩

/-- `IBLT::subtract`. The result starts as `with_cells`, so it has one (empty)
cell where `self` has none. -/
def subtract (t u : IBLT) : Except DriftError IBLT :=
  if h : t.numCells ≠ u.numCells then .error (.bufferTooShort t.numCells u.numCells)
  else
    .ok ⟨List.zipWith IBLTCell.diff t.cells u.cells ++
        List.replicate (max t.numCells 1 - t.numCells) IBLTCell.new,
      max t.numCells 1, by
        have hsize : t.numCells = u.numCells := Classical.not_not.mp h
        rw [length_append, length_zipWith, t.length_cells, u.length_cells, List.length_replicate]
        omega⟩

/-- `IBLT::to_bytes`. -/
def toBytes (t : IBLT) : Except DriftError Bytes :=
  if t.numCells > u16Max then .error (.bufferTooShort t.numCells u16Max)
  else .ok (leBytes 2 t.numCells ++ t.cells.flatMap IBLTCell.toBytes)

/-- `IBLT::from_bytes`. -/
def fromBytes (data : Bytes) : Except DriftError IBLT :=
  if data.length < 2 then .error (.bufferTooShort 2 data.length)
  else
    let numCells := leAt 2 data 0
    if data.length ≠ 2 + numCells * 21 then
      .error (.bufferTooShort (2 + numCells * 21) data.length)
    else
      .ok ⟨(List.range numCells).map fun i => IBLTCell.readAt data (2 + i * 21), numCells, by simp⟩

/-- `IBLT::decode`. -/
def decode (hash : CellHash) (t : IBLT) :
    Except DriftError (List MessageId × List MessageId) :=
  decodeLoop hash t.numCells (t.numCells * 10) t.cells [] []

end IBLT

/-! ## Cells form an abelian group -/

section
variable (a b : MessageId)

theorem xorKey_comm : xorKey a b = xorKey b a := by
  apply Vector.ext
  intro i hi
  simp [xorKey, UInt8.xor_comm]

theorem xorKey_assoc (c : MessageId) : xorKey (xorKey a b) c = xorKey a (xorKey b c) := by
  apply Vector.ext
  intro i hi
  simp [xorKey, UInt8.xor_assoc]

theorem xorKey_zero : xorKey a (.replicate 16 0) = a := by
  apply Vector.ext
  intro i hi
  simp [xorKey]

theorem xorKey_self : xorKey a a = .replicate 16 0 := by
  apply Vector.ext
  intro i hi
  simp [xorKey]

theorem checkOf_xorKey : checkOf (xorKey a b) = checkOf a ^^^ checkOf b := by
  have hlist : (xorKey a b).toList.take 4
      = List.zipWith (· ^^^ ·) (a.toList.take 4) (b.toList.take 4) := by
    rw [xorKey, Vector.toList_zipWith, take_zipWith]
  unfold checkOf
  rw [hlist, ofLe_xor _ _ (by simp), UInt32.ofNat_xor]

end

namespace IBLTCell

instance : Zero IBLTCell := ⟨new⟩

instance : Add IBLTCell :=
  ⟨fun c d => ⟨c.count + d.count, xorKey c.keySum d.keySum, c.keyCheck ^^^ d.keyCheck⟩⟩

instance : Neg IBLTCell := ⟨fun c => ⟨-c.count, c.keySum, c.keyCheck⟩⟩

instance : Sub IBLTCell := ⟨diff⟩

instance : AddCommGroup IBLTCell where
  add_assoc a b c :=
    IBLTCell.ext (Int32.add_assoc _ _ _) (xorKey_assoc _ _ _) (UInt32.xor_assoc _ _ _)
  zero_add a :=
    IBLTCell.ext (Int32.zero_add _) ((xorKey_comm _ _).trans (xorKey_zero _)) UInt32.zero_xor
  add_zero a := IBLTCell.ext (Int32.add_zero _) (xorKey_zero _) UInt32.xor_zero
  add_comm a b := IBLTCell.ext (Int32.add_comm _ _) (xorKey_comm _ _) (UInt32.xor_comm _ _)
  neg_add_cancel a := IBLTCell.ext (Int32.add_left_neg _) (xorKey_self _) UInt32.xor_self
  sub_eq_add_neg a b := IBLTCell.ext (Int32.sub_eq_add_neg _ _) rfl rfl
  nsmul := nsmulRec
  zsmul := zsmulRec

/-- What one key adds to a cell it hashes to: the count `delta`, itself and its
check word. -/
def single (delta : Int32) (key : MessageId) : IBLTCell := ⟨delta, key, checkOf key⟩

section
variable (c : IBLTCell) (delta : Int32) (key : MessageId)

theorem add_eq : c.add delta key = c + single delta key := rfl

theorem neg_single : -single delta key = single (-delta) key := rfl

/-- A cell whose check word is the check word of its key sum. -/
def Consistent (c : IBLTCell) : Prop := c.keyCheck = checkOf c.keySum

theorem consistent_zero : Consistent 0 := by
  show (0 : UInt32) = checkOf (.replicate 16 0)
  decide

theorem consistent_single : (single delta key).Consistent := rfl

end

section
variable {c d : IBLTCell} (hc : c.Consistent) (hd : d.Consistent)
include hc hd

theorem Consistent.add : (c + d).Consistent := by
  show c.keyCheck ^^^ d.keyCheck = checkOf (xorKey c.keySum d.keySum)
  rw [checkOf_xorKey, hc, hd]

theorem Consistent.sub : (c - d).Consistent := by
  show c.keyCheck ^^^ d.keyCheck = checkOf (xorKey c.keySum d.keySum)
  rw [checkOf_xorKey, hc, hd]

end

end IBLTCell

/-! ## The wire format -/

/-- What survives the wire: everything but the upper bytes of the count. -/
def IBLTCell.byteCount (c : IBLTCell) : IBLTCell :=
  { c with count := c.count.toUInt32.toUInt8.toUInt32.toInt32 }

theorem IBLTCell.length_toBytes (c : IBLTCell) : c.toBytes.length = 21 := by
  simp [IBLTCell.toBytes]

theorem IBLTCell.readAt_of_drop {data rest : Bytes} {o : Nat} {c : IBLTCell}
    (h : data.drop o = c.toBytes ++ rest) : IBLTCell.readAt data o = c.byteCount := by
  have h0 : data.drop o
      = c.count.toUInt32.toUInt8 :: (c.keySum.toList ++ (leBytes 4 c.keyCheck.toNat ++ rest)) := by
    rw [h, IBLTCell.toBytes, cons_append, append_assoc]
  have h1 : data.drop (o + 1) = c.keySum.toList ++ (leBytes 4 c.keyCheck.toNat ++ rest) :=
    drop_add_of_drop (x := [c.count.toUInt32.toUInt8]) h0 rfl
  have h17 : data.drop (o + 17) = leBytes 4 c.keyCheck.toNat ++ rest :=
    drop_add_of_drop (k := 16) h1 (by simp)
  have hread : leAt 4 data (o + 17) = c.keyCheck.toNat := leAt_of_drop h17 c.keyCheck.toNat_lt
  rw [IBLTCell.readAt, byteAt_of_drop h0, arrayAt_of_drop h1, hread, UInt32.ofNat_toNat]
  rfl

/-- The cells written one after another read back one after another. -/
theorem readAt_cells {data : Bytes} (cells : List IBLTCell) :
    ∀ o, data.drop o = cells.flatMap IBLTCell.toBytes →
      (List.range cells.length).map (fun i => IBLTCell.readAt data (o + i * 21))
        = cells.map IBLTCell.byteCount := by
  induction cells with
  | nil => intro o _; rfl
  | cons c cells ih =>
    intro o h
    have htail := ih (o + 21) (drop_add_of_drop h c.length_toBytes)
    rw [length_cons, range_succ_eq_map, map_cons, map_map, map_cons,
      Nat.add_zero, IBLTCell.readAt_of_drop h, ← htail]
    congr 1
    apply map_congr_left
    intro i _
    show IBLTCell.readAt data (o + (i + 1) * 21) = _
    rw [show o + (i + 1) * 21 = o + 21 + i * 21 by omega]

/-- A table that serialises parses back, up to the upper bytes of its counts. -/
theorem IBLT.fromBytes_toBytes {t : IBLT} {b : Bytes} (h : t.toBytes = .ok b) :
    ∃ u, fromBytes b = .ok u ∧ u.numCells = t.numCells ∧
      u.cells = t.cells.map IBLTCell.byteCount := by
  unfold toBytes at h
  split at h
  next => cases h
  next hfit =>
    cases h
    rw [u16Max] at hfit
    have hbody : (t.cells.flatMap IBLTCell.toBytes).length = t.numCells * 21 := by
      rw [← t.length_cells]
      simp [IBLTCell.length_toBytes]
    have hlength : leAt 2 (leBytes 2 t.numCells ++ t.cells.flatMap IBLTCell.toBytes) 0
        = t.numCells := leAt_of_drop (by rw [drop_zero]) (by omega)
    have hdrop : (leBytes 2 t.numCells ++ t.cells.flatMap IBLTCell.toBytes).drop 2
        = t.cells.flatMap IBLTCell.toBytes :=
      drop_add_of_drop (a := 0) (k := 2) (by rw [drop_zero]) (leBytes_length _ _)
    have hcells := readAt_cells t.cells 2 hdrop
    unfold fromBytes
    rw [if_neg (by rw [length_append, leBytes_length]; omega)]
    simp only [hlength]
    rw [if_neg (by rw [length_append, leBytes_length, hbody]; omega)]
    refine ⟨_, rfl, rfl, ?_⟩
    rw [← hcells, t.length_cells]

theorem IBLT.toBytes_isOk_iff (t : IBLT) : (∃ b, t.toBytes = .ok b) ↔ t.numCells ≤ u16Max := by
  unfold toBytes
  split
  next hbig => simp_all
  next hfit => exact ⟨fun _ => by omega, fun _ => ⟨_, rfl⟩⟩

/-- One byte is the whole count exactly when the count is between 0 and 255. -/
theorem IBLTCell.byteCount_eq_self_iff (c : IBLTCell) :
    c.byteCount = c ↔ 0 ≤ c.count.toInt ∧ c.count.toInt ≤ 255 := by
  have hcount : c.byteCount = c ↔ c.count.toUInt32.toUInt8.toUInt32 = c.count.toUInt32 := by
    constructor
    · intro h
      exact congrArg (fun d : IBLTCell => d.count.toUInt32) h
    · intro h
      refine IBLTCell.ext ?_ rfl rfl
      show c.count.toUInt32.toUInt8.toUInt32.toInt32 = c.count
      rw [h]
      rfl
  have hint : c.count.toInt = c.count.toUInt32.toBitVec.toInt := rfl
  have hnat : c.count.toUInt32.toBitVec.toNat = c.count.toUInt32.toNat := rfl
  rw [hcount, ← UInt32.toNat_inj, UInt8.toNat_toUInt32, UInt32.toNat_toUInt8, hint,
    BitVec.toInt_eq_toNat_cond, hnat]
  split <;> omega

/-- **Which tables survive the wire.** A table that is small enough to be sent reads back as
itself exactly when every count is between 0 and 255. -/
theorem IBLT.roundTrip_iff (t : IBLT) (hsize : t.numCells ≤ 65535) :
    (∃ b, t.toBytes = .ok b ∧ fromBytes b = .ok t) ↔
      ∀ c ∈ t.cells, 0 ≤ c.count.toInt ∧ c.count.toInt ≤ 255 := by
  have hcells : t.cells.map IBLTCell.byteCount = t.cells ↔
      ∀ c ∈ t.cells, 0 ≤ c.count.toInt ∧ c.count.toInt ≤ 255 := by
    have hsame := @map_inj_left _ _ t.cells IBLTCell.byteCount id
    rw [map_id] at hsame
    rw [hsame]
    exact forall₂_congr fun c _ => c.byteCount_eq_self_iff
  obtain ⟨b, hb⟩ := t.toBytes_isOk_iff.mpr hsize
  obtain ⟨u, hu, hnum, hread⟩ := fromBytes_toBytes hb
  rw [← hcells, ← hread]
  constructor
  · grind
  · intro h
    refine ⟨b, hb, ?_⟩
    obtain ⟨cells', numCells', _⟩ := t
    cases hnum
    cases h
    exact hu

/-- A table of three cells from which a key has been removed that was never in it. -/
def removedOnce : IBLT := (IBLT.new 1).remove (fun i _ => i.toUInt64) (.replicate 16 7)

theorem IBLT.roundTrip_iff_removedOnce :
    removedOnce.numCells ≤ 65535 ∧
    ((∃ b, removedOnce.toBytes = .ok b ∧ fromBytes b = .ok removedOnce) ↔
      ∀ c ∈ removedOnce.cells, 0 ≤ c.count.toInt ∧ c.count.toInt ≤ 255) :=
  ⟨by decide, roundTrip_iff removedOnce (by decide)⟩

/-- A count of minus one comes back as 255. -/
theorem IBLT.negative_count_lost :
    removedOnce.numCells = 3 ∧ (removedOnce.cells.map fun c => c.count) = [-1, -1, -1] ∧
    ∃ b u, removedOnce.toBytes = .ok b ∧ fromBytes b = .ok u ∧ u ≠ removedOnce ∧
      (u.cells.map fun c => c.count) = [255, 255, 255] := by
  obtain ⟨u, hu, -, hread⟩ := fromBytes_toBytes (t := removedOnce) rfl
  have hcounts : (u.cells.map fun c => c.count) = [255, 255, 255] := by
    rw [hread]
    decide
  refine ⟨rfl, by decide, _, u, rfl, hu, ?_, hcounts⟩
  rintro rfl
  exact absurd hcounts (by decide)

/-! ## Tables as functions of the cell index -/

/-- The table of `n` cells that `f` gives. -/
def tabulate (n : Nat) (f : Nat → IBLTCell) : List IBLTCell := (List.range n).map f

@[simp] theorem length_tabulate (n : Nat) (f : Nat → IBLTCell) : (tabulate n f).length = n := by
  simp [tabulate]

theorem getD_tabulate {n i : Nat} (f : Nat → IBLTCell) (c : IBLTCell) (hi : i < n) :
    (tabulate n f).getD i c = f i := by
  simp [tabulate, hi]

theorem tabulate_congr {n : Nat} {f g : Nat → IBLTCell} (h : ∀ i < n, f i = g i) :
    tabulate n f = tabulate n g :=
  map_congr_left fun i hi => h i (mem_range.mp hi)

theorem replicate_eq_tabulate (n : Nat) :
    List.replicate n IBLTCell.new = tabulate n fun _ => 0 := by
  simp only [tabulate, List.map_const', length_range]
  rfl

section
variable (n j : Nat) (f : Nat → IBLTCell)

theorem modify_tabulate (g : IBLTCell → IBLTCell) :
    (tabulate n f).modify j g = tabulate n fun i => if j = i then g (f i) else f i := by
  apply ext_getElem
  · simp
  · grind [tabulate]

theorem set_tabulate (c : IBLTCell) :
    (tabulate n f).set j c = tabulate n fun i => if j = i then c else f i := by
  apply ext_getElem
  · simp
  · intro i h₁ h₂
    simp [tabulate, getElem_set]

theorem zipWith_tabulate (g : Nat → IBLTCell) (op : IBLTCell → IBLTCell → IBLTCell) :
    List.zipWith op (tabulate n f) (tabulate n g) = tabulate n fun i => op (f i) (g i) := by
  simp [tabulate, zipWith_map, zipWith_self]

end

/-! ## Every table operation is addition -/

section
variable (hash : CellHash) (n : Nat)

/-- How often `key` hashes to cell `i`. -/
def hits (key : MessageId) (i : Nat) : Nat :=
  ((List.range hashCount).filter fun hashIdx => hashToCell hash n key hashIdx = i).length

/-- What inserting `key` adds to cell `i`. -/
def image (i : Nat) (key : MessageId) : IBLTCell := hits hash n key i • IBLTCell.single 1 key

/-- Cell `i` of the table that has `alice` inserted and `bob` removed. -/
def tableCell (alice bob : List MessageId) (i : Nat) : IBLTCell :=
  sketch (image hash n i) alice - sketch (image hash n i) bob

theorem addKey_tabulate (f : Nat → IBLTCell) (delta : Int32) (key : MessageId) :
    addKey hash n delta key (tabulate n f)
      = tabulate n fun i => f i + hits hash n key i • IBLTCell.single delta key := by
  have hloop : ∀ (is : List Nat) (f : Nat → IBLTCell),
      is.foldl (fun cells hashIdx =>
          cells.modify (hashToCell hash n key hashIdx) (·.add delta key)) (tabulate n f)
        = tabulate n fun i => f i +
          (is.filter fun hashIdx => hashToCell hash n key hashIdx = i).length •
            IBLTCell.single delta key := by
    intro is
    induction is with
    | nil => intro f; simp
    | cons hashIdx is ih =>
      intro f
      rw [foldl_cons, modify_tabulate, ih]
      apply tabulate_congr
      intro i _
      by_cases h : hashToCell hash n key hashIdx = i
      · rw [if_pos h, filter_cons_of_pos (by simpa using h), length_cons,
          IBLTCell.add_eq, succ_nsmul']
        abel
      · rw [if_neg h, filter_cons_of_neg (by simpa using h)]
  exact hloop (List.range hashCount) f

@[simp] theorem IBLT.numCells_insert (t : IBLT) (key : MessageId) :
    (t.insert hash key).numCells = t.numCells := rfl

/-- The insertion loops of `SyncSession`: every id of a store, in the order the
store lists them. -/
def IBLT.insertAll (t : IBLT) (keys : List MessageId) : IBLT := keys.foldl (IBLT.insert hash) t

@[simp] theorem IBLT.numCells_insertAll (t : IBLT) (keys : List MessageId) :
    (t.insertAll hash keys).numCells = t.numCells := by
  unfold IBLT.insertAll
  induction keys generalizing t with
  | nil => rfl
  | cons k keys ih => rw [foldl_cons, ih, IBLT.numCells_insert]

section
variable (t : IBLT) (f : Nat → IBLTCell) (keys : List MessageId)

theorem IBLT.insertAll_cells (ht : t.cells = tabulate t.numCells f) :
    (t.insertAll hash keys).cells
      = tabulate t.numCells fun i => f i + sketch (image hash t.numCells i) keys := by
  induction keys generalizing t f with
  | nil => simpa [insertAll] using ht
  | cons k keys ih =>
    have hstep : (t.insert hash k).cells
        = tabulate t.numCells fun i => f i + image hash t.numCells i k := by
      show addKey hash t.numCells 1 k t.cells = _
      rw [ht, addKey_tabulate]
      rfl
    have hrest := ih (t.insert hash k) _ hstep
    rw [IBLT.numCells_insert] at hrest
    show ((t.insert hash k).insertAll hash keys).cells = _
    rw [hrest]
    apply tabulate_congr
    intro i _
    rw [sketch_cons, add_assoc]

/-- A table of `n` cells with the keys inserted is their sketch in every cell. -/
theorem IBLT.insertAll_withCells (hn : 1 ≤ n) (keys : List MessageId) :
    ((IBLT.withCells n).insertAll hash keys).cells
      = tabulate n fun i => sketch (image hash n i) keys := by
  have hmax : max n 1 = n := by omega
  have hnew : (IBLT.withCells n).cells = tabulate (IBLT.withCells n).numCells fun _ => 0 :=
    replicate_eq_tabulate _
  rw [IBLT.insertAll_cells hash _ _ keys hnew]
  show tabulate (max n 1) (fun i => 0 + sketch (image hash (max n 1) i) keys) = _
  rw [hmax]
  apply tabulate_congr
  intro i _
  rw [zero_add]

theorem IBLT.subtract_tabulate {t u : IBLT} {f g : Nat → IBLTCell} (hn : 1 ≤ n)
    (ht : t.numCells = n) (hu : u.numCells = n) (hf : t.cells = tabulate n f)
    (hg : u.cells = tabulate n g) :
    ∃ d, t.subtract u = .ok d ∧ d.numCells = n ∧ d.cells = tabulate n fun i => f i - g i := by
  have hsize : ¬ t.numCells ≠ u.numCells := by omega
  have hmax : max n 1 = n := by omega
  unfold subtract
  rw [dif_neg hsize]
  refine ⟨_, rfl, ?_, ?_⟩
  · show max t.numCells 1 = n
    rw [ht, hmax]
  · show List.zipWith IBLTCell.diff t.cells u.cells ++
      List.replicate (max t.numCells 1 - t.numCells) IBLTCell.new = _
    rw [ht, hmax, Nat.sub_self, hf, hg, zipWith_tabulate]
    exact append_nil _

/-- **The difference of two sketches is the sketch of the differences.** -/
theorem tableCell_only {alice bob : List MessageId} (ha : alice.Nodup) (hb : bob.Nodup) (i : Nat) :
    tableCell hash n alice bob i = tableCell hash n (only alice bob) (only bob alice) i :=
  sketch_sub_sketch ha hb

variable (i : Nat) (key : MessageId)

theorem consistent_image : (image hash n i key).Consistent := by
  unfold image
  generalize hits hash n key i = k
  induction k with
  | zero =>
    exact IBLTCell.consistent_zero
  | succ k ih =>
    exact ih.add (IBLTCell.consistent_single 1 key)

theorem consistent_sketch (keys : List MessageId) : (sketch (image hash n i) keys).Consistent := by
  induction keys with
  | nil => exact IBLTCell.consistent_zero
  | cons k keys ih =>
    exact (consistent_image hash n i k).add ih

/-- The check word of a cell is a function of its key sum, whatever was put in:
the decoder's `key_check` test never refuses a table built by insertions. -/
theorem consistent_tableCell (alice bob : List MessageId) (i : Nat) :
    (tableCell hash n alice bob i).Consistent :=
  (consistent_sketch hash n i alice).sub (consistent_sketch hash n i bob)

/-! ## How many insertions a cell has seen -/

/-- How many insertions cell `i` has seen when `keys` went in. -/
def insertions (keys : List MessageId) (i : Nat) : Nat := (keys.map (hits hash n · i)).sum

theorem insertions_le : insertions hash n keys i ≤ hashCount * keys.length := by
  induction keys with
  | nil => exact Nat.zero_le _
  | cons k keys ih => grind [hits, hashCount, insertions]

theorem count_image : (image hash n i key).count = Int32.ofNat (hits hash n key i) := by
  unfold image
  generalize hits hash n key i = k
  induction k with
  | zero => rfl
  | succ k ih =>
    rw [Int32.ofNat_add, ← ih]
    rfl

theorem count_sketch :
    (sketch (image hash n i) keys).count = Int32.ofNat (insertions hash n keys i) := by
  induction keys with
  | nil => rfl
  | cons k keys ih =>
    rw [insertions, map_cons, sum_cons, Int32.ofNat_add,
      ← count_image hash n i k, ← insertions, ← ih]
    rfl

end

end

/-! ## The decoder commutes with a change of sign -/

section
variable (c : IBLTCell)

theorem IBLTCell.count_neg_eq_one : (-c).count = 1 ↔ c.count = -1 :=
  Int32.neg_inj (b := -1)

theorem IBLTCell.isPure_neg : (-c).isPure = c.isPure := by
  have hneg : (-c).count = -1 ↔ c.count = 1 := Int32.neg_inj
  rw [Bool.eq_iff_iff]
  simp [IBLTCell.isPure, c.count_neg_eq_one, hneg, or_comm]

theorem IBLTCell.isEmpty_neg : (-c).isEmpty = c.isEmpty := by
  have hzero : (-c).count = 0 ↔ c.count = 0 := Int32.neg_inj (b := 0)
  simp [IBLTCell.isEmpty, hzero]

theorem IBLTCell.add_neg (delta : Int32) (key : MessageId) :
    (-c).add (-delta) key = -(c.add delta key) := by
  rw [IBLTCell.add_eq, IBLTCell.add_eq, ← IBLTCell.neg_single, neg_add]

end

theorem addKey_neg (n : Nat) (delta : Int32) (key : MessageId) (cells : List IBLTCell) :
    addKey hash n (-delta) key (cells.map (-·)) = (addKey hash n delta key cells).map (-·) := by
  have hmodify (cells : List IBLTCell) (i : Nat) :
      (cells.map (-·)).modify i (·.add (-delta) key)
        = (cells.modify i (·.add delta key)).map (-·) := by
    apply ext_getElem
    · simp
    · intro j h₁ h₂
      simp only [getElem_modify, getElem_map]
      split
      · exact IBLTCell.add_neg _ _ _
      · rfl
  unfold addKey
  generalize List.range hashCount = is
  induction is generalizing cells with
  | nil => rfl
  | cons i is ih => rw [foldl_cons, foldl_cons, hmodify, ih]

/-- Negating every cell swaps the two answers: the decoder stops at the same
cells, reads the same keys and files each under the other side. -/
theorem decodeLoop_neg (n : Nat) (fuel : Nat) :
    ∀ (cells : List IBLTCell) (aliceOnly bobOnly : List MessageId),
      decodeLoop hash n fuel (cells.map (-·)) aliceOnly bobOnly
        = (decodeLoop hash n fuel cells bobOnly aliceOnly).map Prod.swap := by
  induction fuel with
  | zero => intro cells aliceOnly bobOnly; rfl
  | succ fuel ih =>
    intro cells aliceOnly bobOnly
    have hfind : (cells.map (-·)).findIdx? IBLTCell.isPure = cells.findIdx? IBLTCell.isPure := by
      rw [List.findIdx?_map]
      congr 1
      funext c
      exact c.isPure_neg
    have hall : (cells.map (-·)).all IBLTCell.isEmpty = cells.all IBLTCell.isEmpty := by
      rw [all_map]
      congr 1
      funext c
      exact c.isEmpty_neg
    rw [decodeLoop, decodeLoop, hfind, hall]
    cases hidx : cells.findIdx? IBLTCell.isPure with
    | none =>
      simp only
      split <;> rfl
    | some idx =>
      obtain ⟨hlt, hpure, _⟩ := List.findIdx?_eq_some_iff_getElem.mp hidx
      have hget : (cells.map (-·)).getD idx IBLTCell.new = -(cells.getD idx IBLTCell.new) := by
        simp [hlt]
      have hcount : (cells.getD idx IBLTCell.new).count = 1 ∨
          (cells.getD idx IBLTCell.new).count = -1 := by
        simpa [IBLTCell.isPure, hlt] using hpure
      simp only [hget]
      generalize cells.getD idx IBLTCell.new = c at hcount ⊢
      have hpeeled : (addKey hash n (-(-c).count) (-c).keySum (cells.map (-·))).set idx IBLTCell.new
          = ((addKey hash n (-c.count) c.keySum cells).set idx IBLTCell.new).map (-·) := by
        rw [map_set, addKey_neg]
        rfl
      rw [hpeeled]
      show (if c.keyCheck ≠ checkOf c.keySum then _ else _) = _
      by_cases hcheck : c.keyCheck ≠ checkOf c.keySum
      · rw [if_pos hcheck, if_pos hcheck]
        rfl
      · rw [if_neg hcheck, if_neg hcheck]
        rcases hcount with hone | hneg
        · rw [if_neg (by rw [c.count_neg_eq_one, hone]; decide), if_pos hone, ih]
          rfl
        · rw [if_pos (c.count_neg_eq_one.mpr hneg), if_neg (by rw [hneg]; decide), ih]
          rfl

end Scm.Drift
