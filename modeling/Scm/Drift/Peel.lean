import Scm.Drift.Sketch

/-!
# What the peeling decoder returns — `IBLT::decode`

`IBLT::decode` sees a table of sums; what it *means* to recover is a pair of key
lists. `verdict` runs the same peeling on the lists themselves: it looks for the
cell the decoder would look at, and asks what that cell really holds. A run of
the decoder on the difference of two sketches ends in one of six ways.

* `recovered` — every key was peeled from a cell that held it alone.
* `stuck`, `exhausted` — the decoder refuses.
* `cancelled` — all counts are zero while keys remain: one key of each side in
  the same cells is enough, because `is_empty` looks at the count only.
* `wrongKey` — a cell with count `±1` holds several keys, and their exclusive or
  is taken for a key. The check word does not notice: it is linear in the key
  (`consistent_tableCell`), so it is right for every sum of keys.
* `mixedCell` — the key sum happens to be a key of the right side, but the cell
  is not a cell that holds it once; clearing it then loses the rest.

`decodeLoop_describes` says what the decoder returns in each case. Which pairs of
sets are safe whatever the table is the subject of `Scm.Drift.Reconcile`.
-/

namespace Scm.Drift

open List LinearSketch IBLTCell

/-- How peeling the true difference goes. -/
inductive Verdict where
  | recovered
  | stuck
  | exhausted
  | cancelled
  | wrongKey
  | mixedCell
  deriving DecidableEq, Repr

section
variable (hash : CellHash) (n : Nat)

/-- The difference table with `alice` and `bob` still to be recovered. -/
def table (alice bob : List MessageId) : List IBLTCell := tabulate n (tableCell hash n alice bob)

/-- Peel the key lists themselves, cell by cell in the decoder's order. -/
def verdict : Nat → List MessageId → List MessageId → Verdict
  | 0, _, _ => .exhausted
  | fuel + 1, alice, bob =>
    match (table hash n alice bob).findIdx? isPure with
    | none =>
      if (table hash n alice bob).all isEmpty then
        if alice = [] ∧ bob = [] then .recovered else .cancelled
      else .stuck
    | some idx =>
      let cell := tableCell hash n alice bob idx
      if cell.count = 1 then
        if cell.keySum ∉ alice then .wrongKey
        else if hits hash n cell.keySum idx ≠ 1 then .mixedCell
        else verdict fuel (alice.erase cell.keySum) bob
      else
        if cell.keySum ∉ bob then .wrongKey
        else if hits hash n cell.keySum idx ≠ 1 then .mixedCell
        else verdict fuel alice (bob.erase cell.keySum)

/-- `r` is `aliceOnly` and `bobOnly` continued by exactly the keys of `alice` and
`bob`. -/
def Completes (aliceOnly bobOnly alice bob : List MessageId)
    (r : List MessageId × List MessageId) : Prop :=
  ∃ x y, r = (aliceOnly ++ x, bobOnly ++ y) ∧ x.Perm alice ∧ y.Perm bob

/-- What a verdict says about the decoder's answer, `exact` being the answers
that list exactly the difference. -/
def Verdict.Describes (out : Except DriftError (List MessageId × List MessageId))
    (exact : List MessageId × List MessageId → Prop) : Verdict → Prop
  | .recovered => ∃ r, out = .ok r ∧ exact r
  | .stuck => ∃ e, out = .error e
  | .exhausted => ∃ e, out = .error e
  | .cancelled => ∃ r, out = .ok r ∧ ¬ exact r
  | .wrongKey => ∀ r, out = .ok r → ¬ exact r
  | .mixedCell => True

/-! ## One peeling step -/

variable {delta : Int32} {alice aliceOnly bob bobOnly : List MessageId}
  {r : List MessageId × List MessageId} {k : MessageId} {idx : Nat}

theorem tableCell_of_pure (hcount : (tableCell hash n alice bob idx).count = delta) :
    tableCell hash n alice bob idx
      = single delta (tableCell hash n alice bob idx).keySum :=
  IBLTCell.ext hcount rfl (consistent_tableCell hash n alice bob idx)

theorem tableCell_erase_left (hk : k ∈ alice) (i : Nat) :
    tableCell hash n (alice.erase k) bob i
      = tableCell hash n alice bob i + hits hash n k i • single (-1) k := by
  rw [tableCell, sketch_erase hk, tableCell, image, ← neg_single, neg_nsmul]
  abel

theorem tableCell_erase_right (hk : k ∈ bob) (i : Nat) :
    tableCell hash n alice (bob.erase k) i
      = tableCell hash n alice bob i + hits hash n k i • single 1 k := by
  rw [tableCell, sketch_erase hk, tableCell]
  abel

variable {alice' bob' : List MessageId}

/-- What the decoder does to the table in one step: a key is taken out of its
cells, and the cell it was found in is cleared. -/
theorem cleared_eq_table (h : ∀ i < n, tableCell hash n alice' bob' i = if idx = i then IBLTCell.new
      else tableCell hash n alice bob i + hits hash n k i • single delta k) :
    (addKey hash n delta k (table hash n alice bob)).set idx IBLTCell.new
      = table hash n alice' bob' := by
  rw [table, addKey_tabulate, set_tabulate]
  exact tabulate_congr fun i hi => (h i hi).symm

/-- Removing the key of a cell that holds exactly that key leaves the table of
the remaining keys: the cell the decoder clears is empty already. -/
theorem peeled_eq_table (hcell : tableCell hash n alice bob idx = single delta k)
    (hone : hits hash n k idx = 1) (hrest : ∀ i, tableCell hash n alice' bob' i
      = tableCell hash n alice bob i + hits hash n k i • single (-delta) k) :
    (addKey hash n (-delta) k (table hash n alice bob)).set idx IBLTCell.new
      = table hash n alice' bob' := by
  apply cleared_eq_table
  intro i _
  by_cases hi : idx = i
  · rw [if_pos hi, ← hi, hrest, hcell, hone, one_nsmul, ← neg_single]
    exact add_neg_cancel _
  · rw [if_neg hi, hrest]

variable {hash n}

/-- The cell the decoder stops at is inside the table and has count `±1`. -/
theorem pure_of_findIdx (h : (table hash n alice bob).findIdx? isPure = some idx) :
    idx < n ∧ ((tableCell hash n alice bob idx).count = 1 ∨
      (tableCell hash n alice bob idx).count = -1) := by
  obtain ⟨hlt, hpure, _⟩ := List.findIdx?_eq_some_iff_getElem.mp h
  have hn : idx < n := by simpa [table] using hlt
  refine ⟨hn, ?_⟩
  simpa [table, tabulate, isPure] using hpure

/-- The decoder's step at the cell it found: the check word passes, the key sum
is taken for a key of the side the count names. -/
theorem decodeLoop_found {fuel : Nat} (h : (table hash n alice bob).findIdx? isPure = some idx) :
    decodeLoop hash n (fuel + 1) (table hash n alice bob) aliceOnly bobOnly =
      if (tableCell hash n alice bob idx).count = 1 then
        decodeLoop hash n fuel
          ((addKey hash n (-(tableCell hash n alice bob idx).count)
            (tableCell hash n alice bob idx).keySum (table hash n alice bob)).set idx IBLTCell.new)
          (aliceOnly ++ [(tableCell hash n alice bob idx).keySum]) bobOnly
      else
        decodeLoop hash n fuel
          ((addKey hash n (-(tableCell hash n alice bob idx).count)
            (tableCell hash n alice bob idx).keySum (table hash n alice bob)).set idx IBLTCell.new)
          aliceOnly (bobOnly ++ [(tableCell hash n alice bob idx).keySum]) := by
  have hcell : (table hash n alice bob).getD idx IBLTCell.new = tableCell hash n alice bob idx :=
    getD_tabulate _ _ (pure_of_findIdx h).1
  have hcheck : (tableCell hash n alice bob idx).keyCheck
      = checkOf (tableCell hash n alice bob idx).keySum :=
    consistent_tableCell hash n alice bob idx
  rw [decodeLoop, h]
  simp only [hcell]
  rw [if_neg (by rw [hcheck]; simp)]

/-- Whatever the table, the decoder only ever extends its two lists. -/
theorem decodeLoop_extends (fuel : Nat) :
    ∀ (cells : List IBLTCell) (aliceOnly bobOnly : List MessageId),
      decodeLoop hash n fuel cells aliceOnly bobOnly = .ok r →
        aliceOnly <+: r.1 ∧ bobOnly <+: r.2 := by
  induction fuel with
  | zero => intro cells aliceOnly bobOnly h; cases h
  | succ fuel ih =>
    intro cells aliceOnly bobOnly h
    rw [decodeLoop] at h
    split at h
    next => grind
    next idx _ =>
      simp only at h
      split at h
      next => cases h
      split at h
      next =>
        obtain ⟨ha, hb⟩ := ih _ _ _ h
        exact ⟨(prefix_append _ _).trans ha, hb⟩
      obtain ⟨ha, hb⟩ := ih _ _ _ h
      exact ⟨ha, (prefix_append _ _).trans hb⟩

theorem completes_push_left (hk : k ∈ alice) (r : List MessageId × List MessageId)
    (hr : aliceOnly ++ [k] <+: r.1) :
    Completes aliceOnly bobOnly alice bob r ↔
      Completes (aliceOnly ++ [k]) bobOnly (alice.erase k) bob r := by
  constructor
  · rintro ⟨x, y, rfl, hx, hy⟩
    obtain ⟨x', hx'⟩ := hr
    have hcons : k :: x' = x := by simpa using hx'
    refine ⟨x', y, by simp [← hcons], ?_, hy⟩
    rw [← hcons] at hx
    exact (cons_perm_iff_perm_erase.mp hx).2
  · rintro ⟨x, y, rfl, hx, hy⟩
    exact ⟨k :: x, y, by simp, cons_perm_iff_perm_erase.mpr ⟨hk, hx⟩, hy⟩

theorem completes_swap :
    Completes aliceOnly bobOnly alice bob r ↔ Completes bobOnly aliceOnly bob alice r.swap := by
  constructor
  · rintro ⟨x, y, rfl, hx, hy⟩
    exact ⟨y, x, rfl, hy, hx⟩
  · rintro ⟨y, x, hr, hy, hx⟩
    exact ⟨x, y, by rw [← Prod.swap_swap r, hr]; rfl, hx, hy⟩

theorem completes_push_right (hk : k ∈ bob) (r : List MessageId × List MessageId)
    (hr : bobOnly ++ [k] <+: r.2) :
    Completes aliceOnly bobOnly alice bob r ↔
      Completes aliceOnly (bobOnly ++ [k]) alice (bob.erase k) r :=
  completes_swap.trans ((completes_push_left hk r.swap hr).trans completes_swap.symm)

/-- A key that is not there cannot be among the keys that complete the lists. -/
theorem not_completes_of_not_mem (hk : k ∉ alice) (hr : aliceOnly ++ [k] <+: r.1) :
    ¬ Completes aliceOnly bobOnly alice bob r := by
  rintro ⟨x, y, rfl, hx, _⟩
  obtain ⟨x', hx'⟩ := hr
  have hcons : k :: x' = x := by simpa using hx'
  exact hk (hx.mem_iff.mp (by rw [← hcons]; exact mem_cons_self))

/-- With keys left over, the lists as they stand are not complete. -/
theorem not_completes_self (h : ¬ (alice = [] ∧ bob = [])) :
    ¬ Completes aliceOnly bobOnly alice bob (aliceOnly, bobOnly) := by
  rintro ⟨x, y, hr, hx, hy⟩
  rw [Prod.mk.injEq] at hr
  have hxnil : x = [] := by simpa using hr.1
  have hynil : y = [] := by simpa using hr.2
  subst hxnil hynil
  exact h ⟨hx.symm.eq_nil, hy.symm.eq_nil⟩

theorem Verdict.Describes.congr {out : Except DriftError (List MessageId × List MessageId)}
    {P Q : List MessageId × List MessageId → Prop} {v : Verdict}
    (hPQ : ∀ r, out = .ok r → (P r ↔ Q r)) (h : v.Describes out Q) : v.Describes out P := by
  cases v with
  | recovered =>
    obtain ⟨r, hr, hq⟩ := h
    exact ⟨r, hr, (hPQ r hr).mpr hq⟩
  | cancelled =>
    obtain ⟨r, hr, hq⟩ := h
    exact ⟨r, hr, fun hp => hq ((hPQ r hr).mp hp)⟩
  | wrongKey => exact fun r hr hp => h r hr ((hPQ r hr).mp hp)
  | stuck => exact h
  | exhausted => exact h
  | mixedCell => trivial

/-! ## The whole run -/

/-- The decoder's answer on the difference table, described by the verdict on the
key lists. By induction on the iterations left; a clean step of the decoder is a
step of `verdict` on shorter lists (`peeled_eq_table`). -/
theorem decodeLoop_describes (fuel : Nat) :
    ∀ (alice bob aliceOnly bobOnly : List MessageId),
      (verdict hash n fuel alice bob).Describes
        (decodeLoop hash n fuel (table hash n alice bob) aliceOnly bobOnly)
        (Completes aliceOnly bobOnly alice bob) := by
  induction fuel with
  | zero => intro alice bob aliceOnly bobOnly; exact ⟨_, rfl⟩
  | succ fuel ih =>
    intro alice bob aliceOnly bobOnly
    rw [verdict]
    cases hidx : (table hash n alice bob).findIdx? isPure with
    | none =>
      rw [decodeLoop, hidx]
      by_cases hall : (table hash n alice bob).all isEmpty
      · simp only [if_pos hall]
        by_cases hnil : alice = [] ∧ bob = []
        · rw [if_pos hnil]
          exact ⟨_, rfl, [], [], by simp, by rw [hnil.1], by rw [hnil.2]⟩
        · rw [if_neg hnil]
          exact ⟨_, rfl, not_completes_self hnil⟩
      · simp only [if_neg hall]
        exact ⟨_, rfl⟩
    | some idx =>
      obtain ⟨_, hcount⟩ := pure_of_findIdx hidx
      rw [decodeLoop_found hidx]
      simp only
      by_cases hone : (tableCell hash n alice bob idx).count = 1
      · rw [if_pos hone, if_pos hone, hone]
        have hcell := tableCell_of_pure hash n hone
        generalize (tableCell hash n alice bob idx).keySum = k at hcell ⊢
        by_cases hk : k ∉ alice
        · -- the decoder reports a key that nobody put in
          rw [if_pos hk]
          exact fun r hr => not_completes_of_not_mem hk (decodeLoop_extends _ _ _ _ hr).1
        · rw [if_neg hk]
          -- removing a key that hits this cell twice leaves the table of no key list
          by_cases hhits : hits hash n k idx ≠ 1
          · rw [if_pos hhits]; trivial
          · have hk := Classical.not_not.mp hk
            rw [if_neg hhits, peeled_eq_table hash n hcell (Classical.not_not.mp hhits)
              (tableCell_erase_left hash n hk)]
            exact (ih _ _ _ _).congr fun r hr =>
              completes_push_left hk r (decodeLoop_extends _ _ _ _ hr).1
      · have hneg : (tableCell hash n alice bob idx).count = -1 := hcount.resolve_left hone
        rw [if_neg hone, if_neg hone, hneg]
        have hcell := tableCell_of_pure hash n hneg
        generalize (tableCell hash n alice bob idx).keySum = k at hcell ⊢
        by_cases hk : k ∉ bob
        · rw [if_pos hk]
          exact fun r hr h => not_completes_of_not_mem hk (decodeLoop_extends _ _ _ _ hr).2
            (completes_swap.mp h)
        · rw [if_neg hk]
          by_cases hhits : hits hash n k idx ≠ 1
          · rw [if_pos hhits]; trivial
          · have hk := Classical.not_not.mp hk
            rw [if_neg hhits, peeled_eq_table hash n hcell (Classical.not_not.mp hhits)
              (tableCell_erase_right hash n hk)]
            exact (ih _ _ _ _).congr fun r hr =>
              completes_push_right hk r (decodeLoop_extends _ _ _ _ hr).2

variable (hash n)

/-- Decode the table of `alice` minus the table of `bob`, both of `n` cells. -/
def reconcile (alice bob : List MessageId) :
    Except DriftError (List MessageId × List MessageId) :=
  match ((IBLT.withCells n).insertAll hash alice).subtract
      ((IBLT.withCells n).insertAll hash bob) with
  | .error e => .error e
  | .ok d => d.decode hash

/-- `x` lists exactly the keys of `xs` that `ys` lacks, each once. -/
def ListsExactly (x xs ys : List MessageId) : Prop := x.Nodup ∧ ∀ k, k ∈ x ↔ k ∈ xs ∧ k ∉ ys

theorem listsExactly_iff_perm {x xs ys : List MessageId} (hxs : xs.Nodup) :
    ListsExactly x xs ys ↔ x.Perm (only xs ys) := by
  constructor
  · rintro ⟨hx, hmem⟩
    exact (perm_ext_iff_of_nodup hx (nodup_only hxs)).mpr fun k => by rw [hmem, mem_only]
  · intro h
    exact ⟨h.symm.nodup (nodup_only hxs), fun k => by rw [h.mem_iff, mem_only]⟩

theorem reconcile_eq (hn : 1 ≤ n) (ha : alice.Nodup) (hb : bob.Nodup) :
    reconcile hash n alice bob
      = decodeLoop hash n (n * 10) (table hash n (only alice bob) (only bob alice)) [] [] := by
  have hmax : max n 1 = n := by omega
  obtain ⟨d, hd, hsize, hcells⟩ := IBLT.subtract_tabulate n hn
    ((IBLT.numCells_insertAll hash (IBLT.withCells n) alice).trans hmax)
    ((IBLT.numCells_insertAll hash (IBLT.withCells n) bob).trans hmax)
    (IBLT.insertAll_withCells hash n hn alice) (IBLT.insertAll_withCells hash n hn bob)
  unfold reconcile
  rw [hd]
  show decodeLoop hash d.numCells (d.numCells * 10) d.cells [] [] = _
  have htable : d.cells = table hash n (only alice bob) (only bob alice) :=
    hcells.trans (tabulate_congr fun i _ => tableCell_only hash n ha hb i)
  rw [hsize, htable]

/-- The decoder's `Ok` can be trusted on these sets, at this size and placement. -/
def SoundAt (alice bob : List MessageId) : Prop :=
  ∀ x y, reconcile hash n alice bob = .ok (x, y) →
    ListsExactly x alice bob ∧ ListsExactly y bob alice

/-- The verdicts of a peeling that never misreads a cell. -/
def Verdict.clean : Verdict → Bool
  | .recovered => true
  | .stuck => true
  | .exhausted => true
  | .cancelled => false
  | .wrongKey => false
  | .mixedCell => false

theorem completes_iff_listsExactly {x y : List MessageId} (ha : alice.Nodup) (hb : bob.Nodup) :
    Completes [] [] (only alice bob) (only bob alice) (x, y) ↔
      ListsExactly x alice bob ∧ ListsExactly y bob alice := by
  rw [listsExactly_iff_perm ha, listsExactly_iff_perm hb]
  constructor
  · rintro ⟨x', y', hr, hx, hy⟩
    cases hr
    exact ⟨hx, hy⟩
  · rintro ⟨hx, hy⟩
    exact ⟨x, y, rfl, hx, hy⟩

section
variable {n} {alice bob : List MessageId} (hn : 1 ≤ n) (ha : alice.Nodup) (hb : bob.Nodup)
include hn ha hb

/-- The verdict on the true difference describes the whole reconciliation. -/
theorem reconcile_describes :
    (verdict hash n (n * 10) (only alice bob) (only bob alice)).Describes
      (reconcile hash n alice bob) (Completes [] [] (only alice bob) (only bob alice)) := by
  rw [reconcile_eq hash n hn ha hb]
  exact decodeLoop_describes _ _ _ _ _

/-- A peeling that misreads no cell ends in the exact answer or in a refusal. -/
theorem soundAt_of_clean
    (h : (verdict hash n (n * 10) (only alice bob) (only bob alice)).clean = true) :
    SoundAt hash n alice bob := by
  have hdesc := reconcile_describes hash hn ha hb
  intro x y hxy
  rw [hxy] at hdesc
  generalize verdict hash n (n * 10) (only alice bob) (only bob alice) = v at h hdesc
  cases v with
  | recovered =>
    obtain ⟨r, hr, hexact⟩ := hdesc
    cases hr
    exact (completes_iff_listsExactly ha hb).mp hexact
  | stuck =>
    obtain ⟨e, hr⟩ := hdesc
    cases hr
  | exhausted =>
    obtain ⟨e, hr⟩ := hdesc
    cases hr
  | cancelled => cases h
  | wrongKey => cases h
  | mixedCell => cases h

theorem not_exact_of_wrongKey
    (h : verdict hash n (n * 10) (only alice bob) (only bob alice) = .wrongKey)
    {x y : List MessageId} (hxy : reconcile hash n alice bob = .ok (x, y)) :
    ¬ (ListsExactly x alice bob ∧ ListsExactly y bob alice) := by
  have hdesc := reconcile_describes hash hn ha hb
  rw [h] at hdesc
  exact fun hexact => hdesc _ hxy ((completes_iff_listsExactly ha hb).mpr hexact)

/-- Counts that cancel are reported as an answer, and it lacks keys. -/
theorem not_soundAt_of_cancelled
    (h : verdict hash n (n * 10) (only alice bob) (only bob alice) = .cancelled) :
    ¬ SoundAt hash n alice bob := by
  have hdesc := reconcile_describes hash hn ha hb
  rw [h] at hdesc
  obtain ⟨r, hr, hnot⟩ := hdesc
  exact fun hsound => hnot ((completes_iff_listsExactly ha hb).mpr (hsound r.1 r.2 hr))

end

end

/-- The id `[b, 0, …, 0]`. -/
def idOfByte (b : UInt8) : MessageId := .ofFn fun i => if i = 0 then b else 0

/-- A placement that spreads every key over three neighbouring cells. -/
def neighbourHash (hashIdx : UInt8) (key : MessageId) : UInt64 :=
  (hashIdx + key.head).toUInt64

end Scm.Drift
