import Scm.Drift.Peel

/-!
# Which sets can be reconciled — `IBLT::decode`

`Scm.Drift.Peel` follows the decoder on one table. Here the question is about the
two sets alone: on which pairs is an `Ok` of the decoder right *whatever* the
number of cells and the placement hash are?

* If one set contains the other, every cell counts the insertions of one side,
  so a count of one means one key, once, and a table of zero counts is empty
  (`clean_verdict_nil`). The only way out is the `i32` count itself: it wraps to
  `-1` after `2^32 - 1` insertions into one cell.
* If each set has a key the other lacks, some placement fools the decoder
  (`exists_unsound_of_two_sided`). `spread` puts the surplus of the larger side into
  cells of its own, where it is peeled properly, and everything else into the
  last cell, where as many insertions as removals count as nothing.
* The same placement shows that the bound on the size is the right one
  (`exists_unsound_of_wrap`).
-/

namespace Scm.Drift

open List LinearSketch IBLTCell

/-! ## Counts of one side -/

theorem ofNat_eq_ofNat_iff (a b : Nat) :
    Int32.ofNat a = Int32.ofNat b ↔ a % 2 ^ 32 = b % 2 ^ 32 := by
  constructor
  · intro h
    have hbits := congrArg (fun c : Int32 => c.toBitVec.toNat) h
    simpa using hbits
  · intro h
    apply Int32.toBitVec_inj.mp
    apply BitVec.eq_of_toNat_eq
    simpa using h

section
variable (hash : CellHash) {n : Nat}

theorem insertions_cons (k : MessageId) (keys : List MessageId) (i : Nat) :
    insertions hash n (k :: keys) i = hits hash n k i + insertions hash n keys i := by
  rw [insertions, map_cons, sum_cons, insertions]

variable {alice bob keys : List MessageId} {i : Nat}

theorem sketch_eq_zero (h : ∀ k ∈ keys, hits hash n k i = 0) :
    sketch (image hash n i) keys = 0 := by
  induction keys with
  | nil => rfl
  | cons k keys ih => simp_all [sketch_cons, image]

theorem hits_eq_zero_of_insertions (h : insertions hash n keys i = 0) :
    ∀ k ∈ keys, hits hash n k i = 0 := by
  induction keys with
  | nil => intro k hk; cases hk
  | cons k keys ih => simp_all [insertions_cons]

theorem sketch_eq_single (h : insertions hash n keys i = 1) :
    ∃ k ∈ keys, hits hash n k i = 1 ∧ sketch (image hash n i) keys = single 1 k := by
  induction keys with
  | nil => cases h
  | cons k keys ih =>
    rw [insertions_cons] at h
    by_cases hk : hits hash n k i = 0
    · simp_all [sketch_cons, image]
    · have hone : hits hash n k i = 1 := by omega
      have hnone : insertions hash n keys i = 0 := by omega
      have hrest := sketch_eq_zero hash (hits_eq_zero_of_insertions hash hnone)
      refine ⟨k, mem_cons_self, hone, ?_⟩
      rw [sketch_cons, image, hone, one_nsmul, hrest, add_zero]

theorem count_tableCell (alice bob : List MessageId) (i : Nat) :
    (tableCell hash n alice bob i).count
      = Int32.ofNat (insertions hash n alice i) - Int32.ofNat (insertions hash n bob i) := by
  rw [← count_sketch, ← count_sketch]
  rfl

theorem tableCell_nil (keys : List MessageId) (i : Nat) :
    tableCell hash n keys [] i = sketch (image hash n i) keys := by
  rw [tableCell, sketch_nil, sub_zero]

/-- One hit for each of the three hash functions that names the cell. -/
theorem hits_eq (k : MessageId) (i : Nat) :
    hits hash n k i = (if hashToCell hash n k 0 = i then 1 else 0)
      + (if hashToCell hash n k 1 = i then 1 else 0)
      + if hashToCell hash n k 2 = i then 1 else 0 := by
  rw [hits, hashCount, ← countP_eq_length_filter]
  simp only [range_succ, range_zero, nil_append, countP_append, countP_singleton, decide_eq_true_eq]

theorem exists_hits (hn : 1 ≤ n) (k : MessageId) : ∃ i < n, hits hash n k i ≠ 0 := by
  refine ⟨hashToCell hash n k 0, Nat.mod_lt _ hn, ?_⟩
  rw [hits_eq, if_pos rfl]
  omega

/-- **One side alone is never misread**, as long as no count wraps around. -/
theorem clean_verdict_nil (hn : 1 ≤ n) (fuel : Nat) :
    ∀ alice : List MessageId, hashCount * alice.length < 2 ^ 32 - 1 →
      (verdict hash n fuel alice []).clean = true := by
  induction fuel with
  | zero => intro alice _; rfl
  | succ fuel ih =>
    intro alice hsize
    have hcount (i : Nat) : (tableCell hash n alice [] i).count
        = Int32.ofNat (insertions hash n alice i) := by
      rw [tableCell_nil, count_sketch]
    have hbound (i : Nat) : insertions hash n alice i < 2 ^ 32 - 1 :=
      Nat.lt_of_le_of_lt (insertions_le hash n alice i) hsize
    rw [verdict]
    cases hidx : (table hash n alice []).findIdx? isPure with
    | none =>
      by_cases hall : (table hash n alice []).all isEmpty
      · simp only [if_pos hall]
        cases alice with
        | nil => rfl
        | cons k keys =>
          -- `k` is in some cell, and that cell's count is not zero
          obtain ⟨i, hi, hhits⟩ := exists_hits hash hn k
          have hempty : (tableCell hash n (k :: keys) [] i).count = Int32.ofNat 0 := by
            have hcell := all_eq_true.mp hall (tableCell hash n (k :: keys) [] i)
              (mem_map_of_mem (mem_range.mpr hi))
            simpa [IBLTCell.isEmpty] using hcell
          rw [hcount, ofNat_eq_ofNat_iff] at hempty
          have hlt := hbound i
          have hnone : insertions hash n (k :: keys) i = 0 := by omega
          exact absurd (hits_eq_zero_of_insertions hash hnone k mem_cons_self) hhits
      · simp only [if_neg hall]
        rfl
    | some idx =>
      obtain ⟨_, hpure⟩ := pure_of_findIdx hidx
      have hlt := hbound idx
      have hone : insertions hash n alice idx = 1 := by
        rcases hpure with hpos | hneg
        · have hmod := (ofNat_eq_ofNat_iff _ 1).mp ((hcount idx).symm.trans hpos)
          omega
        · have hmod := (ofNat_eq_ofNat_iff _ (2 ^ 32 - 1)).mp ((hcount idx).symm.trans hneg)
          omega
      obtain ⟨k, hk, hhits, hsketch⟩ := sketch_eq_single hash hone
      have hcell : tableCell hash n alice [] idx = single 1 k := by
        rw [tableCell_nil, hsketch]
      have hshorter : (alice.erase k).length = alice.length - 1 := length_erase_of_mem hk
      simp only [hcell, single, if_true, hk, not_true_eq_false, if_false, hhits, ne_eq]
      refine ih _ (Nat.lt_of_le_of_lt (Nat.mul_le_mul_left _ ?_) hsize)
      omega

/-! ## Swapping the sides -/

section
variable (hn : 1 ≤ n) (ha : alice.Nodup) (hb : bob.Nodup)
include hn ha hb

theorem reconcile_swap :
    reconcile hash n bob alice = (reconcile hash n alice bob).map Prod.swap := by
  have hneg : table hash n (only bob alice) (only alice bob)
      = (table hash n (only alice bob) (only bob alice)).map (-·) := by
    rw [table, table, tabulate, tabulate, map_map]
    exact map_congr_left fun i _ => (neg_sub _ _).symm
  rw [reconcile_eq hash n hn hb ha, reconcile_eq hash n hn ha hb, hneg, decodeLoop_neg]

theorem SoundAt.swap (h : SoundAt hash n alice bob) : SoundAt hash n bob alice := by
  intro x y hxy
  rw [reconcile_swap hash hn ha hb] at hxy
  cases hr : reconcile hash n alice bob with
  | error e => rw [hr] at hxy; cases hxy
  | ok r =>
    rw [hr] at hxy
    cases hxy
    exact (h r.1 r.2 hr).symm

/-- A side that lacks nothing is on the safe side, if no count wraps around. -/
theorem soundAt_of_subset (hsub : bob ⊆ alice)
    (hsize : hashCount * (only alice bob).length < 2 ^ 32 - 1) : SoundAt hash n alice bob := by
  apply soundAt_of_clean hash hn ha hb
  rw [only_eq_nil_iff.mpr hsub]
  exact clean_verdict_nil hash hn _ _ hsize

end

end

/-! ## A placement that fools the decoder -/

/-- Each key of `first` gets two cells of its own, in order: one that it goes into
twice and one that it goes into once. Every other key goes into the last cell. -/
def spread (first : List MessageId) (hashIdx : UInt8) (key : MessageId) : UInt64 :=
  UInt64.ofNat (2 * first.idxOf key + if hashIdx = 2 ∧ key ∈ first then 1 else 0)

section
variable {first : List MessageId} {n : Nat} (hlen : first.length < 2 ^ 32)
  (hn : n = 2 * first.length + 1)
include hlen hn

theorem hashToCell_spread (key : MessageId) {hashIdx : Nat} (hidx : hashIdx < 3) :
    hashToCell (spread first) n key hashIdx
      = 2 * first.idxOf key + if hashIdx = 2 ∧ key ∈ first then 1 else 0 := by
  have hbyte : UInt8.ofNat hashIdx = 2 ↔ hashIdx = 2 := by
    have hall : ∀ m < 3, UInt8.ofNat m = 2 ↔ m = 2 := by decide
    exact hall hashIdx hidx
  have hle : first.idxOf key ≤ first.length := idxOf_le_length
  have hlast : key ∈ first → first.idxOf key < first.length := idxOf_lt_length_of_mem
  unfold hashToCell spread
  simp only [UInt64.toNat_ofNat', hbyte]
  split
  next h =>
    have hlt := hlast h.2
    rw [Nat.mod_eq_of_lt (by omega), Nat.mod_eq_of_lt (by omega)]
  next => rw [Nat.mod_eq_of_lt (by omega), Nat.mod_eq_of_lt (by omega)]

variable {bob keys : List MessageId} {key : MessageId} {i : Nat}

theorem hits_spread_mem (hkey : key ∈ first) (i : Nat) :
    hits (spread first) n key i
      = if i = 2 * first.idxOf key then 2 else if i = 2 * first.idxOf key + 1 then 1 else 0 := by
  rw [hits_eq, hashToCell_spread hlen hn key (by omega), hashToCell_spread hlen hn key (by omega),
    hashToCell_spread hlen hn key (by omega)]
  generalize first.idxOf key = p
  by_cases htwice : i = 2 * p
  · simp [hkey, htwice]
  · grind

theorem hits_spread_not_mem (hkey : key ∉ first) (i : Nat) :
    hits (spread first) n key i = if i = 2 * first.length then 3 else 0 := by
  rw [hits_eq, hashToCell_spread hlen hn key (by omega), hashToCell_spread hlen hn key (by omega),
    hashToCell_spread hlen hn key (by omega), idxOf_eq_length hkey]
  by_cases hi : i = 2 * first.length
  · simp [hkey, hi]
  · simp [hkey, hi, Ne.symm hi]

theorem hits_spread_lt (hi : i < 2 * first.idxOf key) :
    hits (spread first) n key i = 0 := by
  by_cases hkey : key ∈ first
  · rw [hits_spread_mem hlen hn hkey, if_neg (by omega), if_neg (by omega)]
  · grind [hits_spread_not_mem]

theorem sketch_spread_lt (hi : ∀ k ∈ keys, i < 2 * first.idxOf k) :
    sketch (image (spread first) n i) keys = 0 :=
  sketch_eq_zero _ fun k hk => hits_spread_lt hlen hn (hi k hk)

/-- The decoder peels a key of `first` from the cell that holds it once, if the
other keys come later. -/
theorem decodeLoop_spread_cons {k : MessageId} (hk : k ∈ first)
    (hkeys : ∀ k' ∈ keys, first.idxOf k < first.idxOf k')
    (hbob : ∀ k' ∈ bob, first.idxOf k < first.idxOf k') (fuel : Nat)
    (aliceOnly bobOnly : List MessageId) :
    decodeLoop (spread first) n (fuel + 1)
        (table (spread first) n (k :: keys) bob) aliceOnly bobOnly
      = decodeLoop (spread first) n fuel
        (table (spread first) n keys bob) (aliceOnly ++ [k]) bobOnly := by
  have hhits := hits_spread_mem hlen hn hk
  have hlt : first.idxOf k < first.length := idxOf_lt_length_of_mem hk
  -- up to its second cell, only `k` has been anywhere
  have hcell {i : Nat} (hi : i ≤ 2 * first.idxOf k + 1) :
      tableCell (spread first) n (k :: keys) bob i
        = hits (spread first) n k i • single 1 k := by
    have hlater : sketch (image (spread first) n i) keys = 0 :=
      sketch_spread_lt hlen hn fun k' hk' => by have := hkeys k' hk'; omega
    have hother : sketch (image (spread first) n i) bob = 0 :=
      sketch_spread_lt hlen hn fun k' hk' => by have := hbob k' hk'; omega
    rw [tableCell, sketch_cons, hlater, hother, add_zero, sub_zero, image]
  have honce : hits (spread first) n k (2 * first.idxOf k + 1) = 1 := by
    rw [hhits, if_neg (by omega), if_pos rfl]
  have hown : tableCell (spread first) n (k :: keys) bob
      (2 * first.idxOf k + 1) = single 1 k := by
    rw [hcell (Nat.le_refl _), honce, one_nsmul]
  have hfind : (table (spread first) n (k :: keys) bob).findIdx?
      isPure = some (2 * first.idxOf k + 1) := by
    refine List.findIdx?_eq_some_iff_getElem.mpr ⟨by simp [table]; omega, ?_, fun j hj => ?_⟩
    · simp [table, tabulate, hown, isPure, single]
    · simp only [table, tabulate, getElem_map, getElem_range]
      rw [hcell (by omega), hhits]
      by_cases heven : j = 2 * first.idxOf k
      · rw [if_pos heven]
        exact Bool.false_ne_true
      · rw [if_neg heven, if_neg (by omega)]
        exact Bool.false_ne_true
  have hrest (i : Nat) : tableCell (spread first) n keys bob i
      = tableCell (spread first) n (k :: keys) bob i
        + hits (spread first) n k i • single (-1) k := by
    rw [tableCell, tableCell, sketch_cons, image, ← neg_single, neg_nsmul]
    abel
  rw [decodeLoop_found hfind, hown, ← peeled_eq_table _ _ hown honce hrest]
  exact if_pos rfl

theorem decodeLoop_spread {rest : List MessageId} (hrest : ∀ k ∈ rest, k ∉ first)
    (hbob : ∀ k ∈ bob, k ∉ first) (fuel : Nat) (bobOnly keys : List MessageId) :
    ∀ aliceOnly, (∀ k ∈ keys, k ∈ first) →
      keys.Pairwise (fun a b => first.idxOf a < first.idxOf b) →
      decodeLoop (spread first) n (keys.length + fuel)
          (table (spread first) n (keys ++ rest) bob) aliceOnly bobOnly
        = decodeLoop (spread first) n fuel
          (table (spread first) n rest bob) (aliceOnly ++ keys) bobOnly := by
  induction keys with
  | nil => simp
  | cons k keys ih =>
    intro aliceOnly hmem hsorted
    obtain ⟨hlater, hsorted⟩ := pairwise_cons.mp hsorted
    have hk : k ∈ first := hmem k mem_cons_self
    have hlast {k' : MessageId} (hk' : k' ∉ first) : first.idxOf k < first.idxOf k' := by grind
    have hkeys : ∀ k' ∈ keys ++ rest, first.idxOf k < first.idxOf k' := by grind
    rw [length_cons, Nat.add_right_comm, cons_append,
      decodeLoop_spread_cons hlen hn hk hkeys fun k' hk' => hlast (hbob k' hk'),
      ih _ (fun k' hk' => hmem k' (mem_cons_of_mem _ hk')) hsorted, append_assoc]
    rfl

theorem insertions_spread (hkeys : ∀ k ∈ keys, k ∉ first) (i : Nat) :
    insertions (spread first) n keys i
      = if i = 2 * first.length then 3 * keys.length else 0 := by
  induction keys with
  | nil => simp [insertions]
  | cons k keys ih => grind [insertions_cons, hits_spread_not_mem]

theorem tableCell_spread_lt {rest : List MessageId} (hrest : ∀ k ∈ rest, k ∉ first)
    (hbob : ∀ k ∈ bob, k ∉ first) (hi : i < 2 * first.length) :
    tableCell (spread first) n rest bob i = 0 := by
  have hnone {keys : List MessageId} (hkeys : ∀ k ∈ keys, k ∉ first) :
      sketch (image (spread first) n i) keys = 0 :=
    sketch_spread_lt hlen hn fun k hk => by rwa [idxOf_eq_length (hkeys k hk)]
  rw [tableCell, hnone hrest, hnone hbob, sub_zero]

end

theorem pairwise_idxOf {keys : List MessageId} (h : keys.Nodup) :
    keys.Pairwise (fun a b => keys.idxOf a < keys.idxOf b) := by
  rw [pairwise_iff_getElem]
  intro i j hi hj hij
  rwa [h.idxOf_getElem i hi, h.idxOf_getElem j hj]

variable {alice bob : List MessageId}

theorem decodeLoop_zero (hash : CellHash) {n fuel : Nat} {aliceOnly bobOnly : List MessageId}
    (h : ∀ i < n, (tableCell hash n alice bob i).count = 0) :
    decodeLoop hash n (fuel + 1) (table hash n alice bob) aliceOnly bobOnly
      = .ok (aliceOnly, bobOnly) := by
  have hcells : ∀ c ∈ table hash n alice bob, c.count = 0 := by
    intro c hc
    obtain ⟨i, hi, rfl⟩ := mem_map.mp hc
    exact h i (mem_range.mp hi)
  have hnone : (table hash n alice bob).findIdx? isPure = none := by
    refine List.findIdx?_eq_none_iff.mpr fun c hc => ?_
    rw [isPure, hcells c hc]
    rfl
  have hall : (table hash n alice bob).all isEmpty = true :=
    all_eq_true.mpr fun c hc => by rw [IBLTCell.isEmpty, hcells c hc]; rfl
  rw [decodeLoop, hnone]
  exact if_pos hall

theorem exists_split_at {r : Nat} {keys : List MessageId} (hr : r ≤ keys.length) :
    ∃ first rest, keys = first ++ rest ∧ first.length = r ∧ rest.length = keys.length - r :=
  ⟨keys.take r, keys.drop r, (take_append_drop r keys).symm, length_take_of_le hr,
    length_drop⟩

section
variable {alice bob first rest : List MessageId} (ha : alice.Nodup) (hb : bob.Nodup)
  (hsplit : only alice bob = first ++ rest)

include ha hsplit in
theorem not_mem_first_of_mem_rest : ∀ k ∈ rest, k ∉ first := by
  have hnodup : (first ++ rest).Nodup := hsplit ▸ nodup_only ha
  exact fun k hk hfirst => (nodup_append.mp hnodup).2.2 k hfirst k hk rfl

include hsplit in
theorem not_mem_first_of_mem_other : ∀ k ∈ only bob alice, k ∉ first := by
  intro k hk hfirst
  have hmem : k ∈ only alice bob := hsplit ▸ mem_append_left _ hfirst
  exact (mem_only.mp hk).2 (mem_only.mp hmem).1

include ha hb hsplit in
/-- Under `spread`, a reconciliation comes down to the keys in the last cell. -/
theorem reconcile_spread (hlen : first.length < 2 ^ 32) :
    reconcile (spread first) (2 * first.length + 1) alice bob
      = decodeLoop (spread first) (2 * first.length + 1) (19 * first.length + 10)
        (table (spread first) (2 * first.length + 1) rest (only bob alice)) first [] := by
  have hnodup : (first ++ rest).Nodup := hsplit ▸ nodup_only ha
  have hother : ∀ k ∈ only bob alice, k ∉ first := not_mem_first_of_mem_other hsplit
  have hrun := decodeLoop_spread hlen rfl (not_mem_first_of_mem_rest ha hsplit) hother
    (19 * first.length + 10) [] first [] (fun _ hk => hk)
    (pairwise_idxOf (nodup_append.mp hnodup).1)
  rw [nil_append] at hrun
  rw [reconcile_eq _ _ (Nat.le_add_left _ _) ha hb, hsplit, ← hrun]
  congr 1
  omega

end

/-- **Two-sided differences can cancel.** If both sides have a key of their own,
there are a table size and a placement at which the decoder's `Ok` is wrong. -/
theorem exists_unsound_of_two_sided (ha : alice.Nodup) (hb : bob.Nodup)
    (hother : only bob alice ≠ []) (hle : (only bob alice).length ≤ (only alice bob).length) :
    ∃ hash n, 1 ≤ n ∧ ¬ SoundAt hash n alice bob := by
  -- what is left in the last cell is as many keys on each side, up to multiples of `2^32`
  generalize hr : ((only alice bob).length - (only bob alice).length) % 2 ^ 32 = r at *
  obtain ⟨first, rest, hsplit, hfirst, hrest⟩ := exists_split_at
    (show r ≤ (only alice bob).length by omega)
  have hlen : first.length < 2 ^ 32 := by omega
  have hin := not_mem_first_of_mem_rest ha hsplit
  have hout : ∀ k ∈ only bob alice, k ∉ first := not_mem_first_of_mem_other hsplit
  refine ⟨spread first, 2 * first.length + 1, Nat.le_add_left _ _, fun hsound => ?_⟩
  have hzero : ∀ i < 2 * first.length + 1,
      (tableCell (spread first) (2 * first.length + 1) rest (only bob alice) i).count = 0 := by
    intro i hi
    by_cases hlast : i = 2 * first.length
    · have hcount : Int32.ofNat (3 * rest.length) = Int32.ofNat (3 * (only bob alice).length) :=
        (ofNat_eq_ofNat_iff _ _).mpr (by omega)
      rw [count_tableCell, insertions_spread hlen rfl hin, insertions_spread hlen rfl hout,
        if_pos hlast, if_pos hlast, hcount, Int32.sub_self]
    · rw [tableCell_spread_lt hlen rfl hin hout (by omega)]
      rfl
  have hok := (reconcile_spread ha hb hsplit hlen).trans (decodeLoop_zero _ hzero)
  obtain ⟨k, hk⟩ := exists_mem_of_ne_nil _ hother
  exact absurd (((hsound _ _ hok).2.2 k).mpr (mem_only.mp hk)) not_mem_nil

/-- The key sum of the last cell is taken for a key of the empty side; if it is a
key of `first`, it is peeled a second time. -/
theorem decodeLoop_spread_wrap {first rest : List MessageId} {n : Nat}
    (hlen : first.length < 2 ^ 32)
    (hn : n = 2 * first.length + 1) (hin : ∀ k ∈ rest, k ∉ first)
    (hwrap : 3 * rest.length % 2 ^ 32 = 2 ^ 32 - 1) (fuel : Nat)
    (aliceOnly : List MessageId) :
    ∃ x k, decodeLoop (spread first) n (fuel + 3)
      (table (spread first) n rest []) aliceOnly [] = .ok (x, [k]) := by
  have hnil : ∀ k ∈ ([] : List MessageId), k ∉ first := fun k hk => absurd hk not_mem_nil
  have hbefore {i : Nat} (hi : i < 2 * first.length) :
      tableCell (spread first) n rest [] i = 0 :=
    tableCell_spread_lt hlen hn hin hnil hi
  have hcount : (tableCell (spread first) n rest [] (2 * first.length)).count
      = -1 := by
    rw [tableCell_nil, count_sketch, insertions_spread hlen hn hin, if_pos rfl]
    exact (ofNat_eq_ofNat_iff _ (2 ^ 32 - 1)).mpr hwrap
  have hfind : (table (spread first) n rest []).findIdx? isPure
      = some (2 * first.length) := by
    refine List.findIdx?_eq_some_iff_getElem.mpr ⟨by simp [table]; omega, ?_, fun j hj => ?_⟩
    · simp [table, tabulate, isPure, hcount]
    · simp only [table, tabulate, getElem_map, getElem_range]
      rw [hbefore hj]
      exact Bool.false_ne_true
  rw [decodeLoop_found hfind, hcount, if_neg (by decide)]
  generalize (tableCell (spread first) n rest [] (2 * first.length)).keySum = k
  -- what the wrong key leaves: its own cells, and the last one cleared
  by_cases hk : k ∈ first
  · have hagain : (addKey (spread first) n (- -1) k
          (table (spread first) n rest [])).set (2 * first.length) IBLTCell.new
        = table (spread first) n [k] [] := by
      refine cleared_eq_table _ _ fun i hi => ?_
      rw [tableCell_nil, sketch_cons, sketch_nil, add_zero, image]
      have hlt := idxOf_lt_length_of_mem hk
      split
      next =>
        rw [hits_spread_mem hlen hn hk, if_neg (by omega), if_neg (by omega)]
        rfl
      next hne => grind
    rw [hagain, decodeLoop_spread_cons hlen hn hk (fun _ h => absurd h not_mem_nil)
      (fun _ h => absurd h not_mem_nil), decodeLoop_zero _ fun i _ => by
        rw [tableCell_nil]; rfl]
    exact ⟨_, k, rfl⟩
  · have hgone : (addKey (spread first) n (- -1) k
          (table (spread first) n rest [])).set (2 * first.length) IBLTCell.new
        = table (spread first) n [] [] := by
      refine cleared_eq_table _ _ fun i hi => ?_
      rw [tableCell_nil, sketch_nil]
      split
      next => rfl
      next hne =>
        rw [hbefore (by omega), hits_spread_not_mem hlen hn hk, if_neg (Ne.symm hne), zero_nsmul,
          add_zero]
    rw [hgone, decodeLoop_zero _ fun i _ => by rw [tableCell_nil]; rfl]
    exact ⟨_, k, rfl⟩

/-- **A wrapped count is misread.** With `2^32 - 1` insertions or more there are a
table size and a placement at which a key is reported for the side that lacks none. -/
theorem exists_unsound_of_wrap (ha : alice.Nodup) (hb : bob.Nodup) (hnone : only bob alice = [])
    (hlarge : 2 ^ 32 - 1 ≤ hashCount * (only alice bob).length) :
    ∃ hash n, 1 ≤ n ∧ ¬ SoundAt hash n alice bob := by
  rw [hashCount] at hlarge
  have hdiv := Nat.div_add_mod ((only alice bob).length - 1431655765) (2 ^ 32)
  generalize hr : ((only alice bob).length - 1431655765) % 2 ^ 32 = r at *
  obtain ⟨first, rest, hsplit, hfirst, hrest⟩ := exists_split_at
    (show r ≤ (only alice bob).length by omega)
  have hlen : first.length < 2 ^ 32 := by omega
  refine ⟨spread first, 2 * first.length + 1, Nat.le_add_left _ _, fun hsound => ?_⟩
  obtain ⟨x, k, hok⟩ := decodeLoop_spread_wrap hlen rfl (not_mem_first_of_mem_rest ha hsplit)
    (by omega) (19 * first.length + 7) first
  have hrun := reconcile_spread ha hb hsplit hlen
  rw [hnone] at hrun
  have hexact := (hsound _ _ (hrun.trans hok)).2
  have hk : k ∈ only bob alice := mem_only.mpr ((hexact.2 k).mp mem_cons_self)
  rw [hnone] at hk
  cases hk

/-- **When the decoder's `Ok` can be trusted.** For every number of cells and every
placement exactly when one set contains the other and no count can wrap around.
At one size and placement it is enough that peeling the true difference misreads
no cell; when its counts cancel the answer is wrong, and after a wrong key no
answer is right. -/
theorem reconcile_sound_iff (alice bob : List MessageId) (ha : alice.Nodup) (hb : bob.Nodup) :
    ((∀ hash n, 1 ≤ n → SoundAt hash n alice bob) ↔
      (alice ⊆ bob ∨ bob ⊆ alice) ∧
        hashCount * ((only alice bob).length + (only bob alice).length) < 2 ^ 32 - 1) ∧
    ∀ hash n, 1 ≤ n →
      ((verdict hash n (n * 10) (only alice bob) (only bob alice)).clean = true →
        SoundAt hash n alice bob) ∧
      (verdict hash n (n * 10) (only alice bob) (only bob alice) = .cancelled →
        ¬ SoundAt hash n alice bob) ∧
      (verdict hash n (n * 10) (only alice bob) (only bob alice) = .wrongKey →
        ∀ x y, reconcile hash n alice bob = .ok (x, y) →
          ¬ (ListsExactly x alice bob ∧ ListsExactly y bob alice)) := by
  refine ⟨⟨fun hsound => ?_, ?_⟩, fun hash n hn => ⟨soundAt_of_clean hash hn ha hb,
    not_soundAt_of_cancelled hash hn ha hb, fun h x y => not_exact_of_wrongKey hash hn ha hb h⟩⟩
  · -- no placement is unsound, in either order of the two sets
    have hall {P : Prop} (h : ∃ hash n, 1 ≤ n ∧ ¬ SoundAt hash n alice bob) : P := by grind
    have hall' {P : Prop} (h : ∃ hash n, 1 ≤ n ∧ ¬ SoundAt hash n bob alice) : P := by
      obtain ⟨hash, n, hn, hnot⟩ := h
      exact absurd ((hsound hash n hn).swap hash hn ha hb) hnot
    by_cases hA : only alice bob = []
    · refine ⟨.inl (only_eq_nil_iff.mp hA), Nat.lt_of_not_le fun hlarge => ?_⟩
      rw [hA, length_nil, Nat.zero_add] at hlarge
      exact hall' (exists_unsound_of_wrap hb ha hA hlarge)
    · by_cases hB : only bob alice = []
      · grind [only_eq_nil_iff, exists_unsound_of_wrap]
      · rcases Nat.le_total (only bob alice).length (only alice bob).length with hle | hle
        · exact hall (exists_unsound_of_two_sided ha hb hB hle)
        · exact hall' (exists_unsound_of_two_sided hb ha hA hle)
  · rintro ⟨hsub | hsub, hsize⟩ hash n hn
    · rw [only_eq_nil_iff.mpr hsub, length_nil, Nat.zero_add] at hsize
      exact (soundAt_of_subset hash hn hb ha hsub hsize).swap hash hn hb ha
    · grind [soundAt_of_subset]

theorem reconcile_sound_neighbour :
    verdict neighbourHash 24 240 [idOfByte 1] [idOfByte 9] = .recovered ∧
      SoundAt neighbourHash 24 [idOfByte 1, idOfByte 2] [idOfByte 2, idOfByte 9] ∧
      ∀ hash n, 1 ≤ n → SoundAt hash n [idOfByte 1, idOfByte 2] [idOfByte 2] := by
  have hv : verdict neighbourHash 24 240 [idOfByte 1] [idOfByte 9] = .recovered := by
    decide +kernel
  have hA : only [idOfByte 1, idOfByte 2] [idOfByte 2, idOfByte 9] = [idOfByte 1] := by decide
  have hB : only [idOfByte 2, idOfByte 9] [idOfByte 1, idOfByte 2] = [idOfByte 9] := by decide
  refine ⟨hv, ?_, ?_⟩
  · refine ((reconcile_sound_iff [idOfByte 1, idOfByte 2] [idOfByte 2, idOfByte 9] (by decide)
      (by decide)).2 neighbourHash 24 (by decide)).1 ?_
    rw [hA, hB, hv]
    rfl
  · exact (reconcile_sound_iff [idOfByte 1, idOfByte 2] [idOfByte 2] (by decide)
      (by decide)).1.mpr ⟨.inr (by decide), by decide⟩

/-- One message on each side, placed in the same three of 24 cells: the counts
cancel and the decoder reports two equal stores. Two messages against one: the
exclusive or of the three ids is reported as a message of the first side. -/
theorem reconcile_unsound :
    (reconcile (fun hashIdx _ => hashIdx.toUInt64) 24 [idOfByte 1] [idOfByte 2] = .ok ([], []) ∧
        ¬ ListsExactly [] [idOfByte 1] [idOfByte 2]) ∧
      reconcile (fun hashIdx _ => hashIdx.toUInt64) 24 [idOfByte 1, idOfByte 2] [idOfByte 4]
        = .ok ([idOfByte 7], []) ∧
        ¬ ListsExactly [idOfByte 7] [idOfByte 1, idOfByte 2] [idOfByte 4] := by
  refine ⟨⟨rfl, fun h => ?_⟩, by decide +kernel, fun h => ?_⟩
  · exact absurd ((h.2 (idOfByte 1)).mpr (by decide)) (by decide)
  · exact absurd ((h.2 (idOfByte 7)).mp (by decide)) (by decide)

end Scm.Drift
