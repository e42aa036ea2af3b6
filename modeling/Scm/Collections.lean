import Mathlib.Data.List.AList
import Mathlib.Data.List.Perm.Subperm
import Mathlib.Algebra.Ring.Nat
import Mathlib.Order.Lattice

/-!
# Rust collections

A `HashMap` is Mathlib's `AList`: distinct keys, in a list whose order stands
for the map's iteration order. Here are the pieces of the `std` API that Mathlib
has no name for: the number of entries, `retain`, counting the values that pass a
test or adding up their sizes, and `Iterator::min_by`.
-/

namespace Scm.Collections

open List AList

variable {α β : Type} [DecidableEq α]

/-- `HashMap::len`. -/
def len (m : AList fun _ : α => β) : Nat := m.entries.length

variable (m : AList fun _ : α => β)

omit [DecidableEq α] in
theorem length_keys : m.keys.length = len m := by
  rw [AList.keys, List.keys, length_map, len]

theorem len_erase_le (k : α) : len (m.erase k) ≤ len m := by
  rw [← length_keys, ← length_keys, keys_erase]
  exact erase_sublist.length_le

section
variable {m} {k key : α} {v value : β}

theorem len_erase (h : k ∈ m) : len (m.erase k) = len m - 1 := by
  rw [← length_keys, ← length_keys, keys_erase]
  exact @length_erase_of_mem _ instBEqOfDecidableEq _ _ _ (AList.mem_keys.mp h)

theorem len_insert_of_notMem (v : β) (h : k ∉ m) : len (m.insert k v) = len m + 1 := by
  rw [len, entries_insert_of_notMem h]
  rfl

theorem len_insert_of_mem (v : β) (h : k ∈ m) : len (m.insert k v) = len m := by
  have hkeys : k ∈ m.keys := AList.mem_keys.mp h
  have hpos := length_pos_of_mem hkeys
  rw [← length_keys, ← length_keys, keys_insert, length_cons, length_erase_of_mem hkeys]
  omega

theorem keys_insert_of_notMem (v : β) (h : k ∉ m) :
    (m.insert k v).keys = k :: m.keys := by
  rw [keys_insert, erase_of_not_mem fun hmem => h (AList.mem_keys.mpr hmem)]

/-- Removing a key that is there changes the map. -/
theorem erase_ne_self (h : k ∈ m) : m.erase k ≠ m := by
  intro heq
  rw [← heq] at h
  exact (mem_erase.mp h).1 rfl

/-- Removing a key takes out its one entry. -/
theorem entries_perm_erase (h : m.lookup k = some v) :
    m.entries.Perm (⟨k, v⟩ :: (m.erase k).entries) := by
  have hmem : k ∈ m.entries.keys := mem_keys_of_mem (mem_lookup_iff.mp h)
  obtain ⟨v', front, back, hfront, hentries, herase⟩ := exists_of_kerase hmem
  have hv : v' = v := by
    have hentry : (⟨k, v'⟩ : Sigma fun _ : α => β) ∈ m.entries := by grind
    exact Option.some.inj ((mem_lookup_iff.mpr hentry).symm.trans h)
  show m.entries.Perm (⟨k, v⟩ :: List.kerase k m.entries)
  rw [herase]
  nth_rewrite 1 [hentries]
  rw [hv]
  exact perm_middle

theorem lookup_of_lookup_erase (h : (m.erase k).lookup key = some value) :
    m.lookup key = some value := by
  by_cases hkey : key = k
  · rw [hkey, lookup_erase] at h
    cases h
  · rwa [lookup_erase_ne hkey] at h

theorem lookup_insert_cases (h : (m.insert k v).lookup key = some value) :
    key = k ∧ value = v ∨ key ≠ k ∧ m.lookup key = some value := by
  by_cases hkey : key = k
  · grind [lookup_insert]
  · simp_all

end

/-- What a map holds after entries of different keys are put in one after another. -/
theorem lookup_foldl_insert {entries : List (Sigma fun _ : α => β)} (hkeys : entries.NodupKeys)
    (m : AList fun _ : α => β) (key : α) :
    (entries.foldl (fun m entry => m.insert entry.1 entry.2) m).lookup key
      = (entries.dlookup key).or (m.lookup key) := by
  induction entries generalizing m with
  | nil => rfl
  | cons entry entries ih =>
    obtain ⟨hnew, hrest⟩ := nodupKeys_cons.mp hkeys
    rw [foldl_cons, ih hrest]
    by_cases hkey : entry.1 = key
    · subst hkey
      rw [lookup_insert, dlookup_cons_eq, dlookup_eq_none.mpr hnew]
      rfl
    · rw [lookup_insert_ne (Ne.symm hkey), dlookup_cons_ne _ _ (Ne.symm hkey)]

/-- What a value put in among others is found as, when the others of its key are the same. -/
theorem lookup_foldl_insert_key {key : β → α} {v : β} {l : List β}
    (hsame : ∀ b ∈ l, key b = key v → b = v) (m : AList fun _ : α => β)
    (h : v ∈ l ∨ m.lookup (key v) = some v) :
    (l.foldl (fun m b => m.insert (key b) b) m).lookup (key v) = some v := by
  induction l generalizing m with
  | nil => exact h.resolve_left nofun
  | cons b l ih =>
    obtain ⟨hb, hrest⟩ := forall_mem_cons.mp hsame
    refine ih hrest _ ?_
    by_cases hkey : key b = key v
    · right
      rw [hb hkey, lookup_insert]
    · grind [lookup_insert_ne]

/-- Values put in one after another, each under its own key, are all there at the end exactly
when no two different ones share a key. -/
theorem forall_lookup_foldl_insert_iff (key : β → α) (l : List β) (m : AList fun _ : α => β) :
    (∀ v ∈ l, (l.foldl (fun m b => m.insert (key b) b) m).lookup (key v) = some v) ↔
      ∀ a ∈ l, ∀ b ∈ l, key a = key b → a = b := by
  constructor
  · grind
  · intro h v hv
    exact lookup_foldl_insert_key (fun b hb hkey => h b hb v hv hkey) m (.inl hv)

/-- `HashMap::retain`. -/
def retain (m : AList fun _ : α => β) (keep : α → β → Bool) : AList fun _ : α => β :=
  ⟨m.entries.filter fun entry => keep entry.1 entry.2, m.nodupKeys.sublist filter_sublist⟩

section
variable {m : AList fun _ : α => β} {keep : α → β → Bool} {key : α}

omit [DecidableEq α] in
theorem mem_of_mem_retain (h : key ∈ retain m keep) : key ∈ m := by
  obtain ⟨entry, hentry, rfl⟩ := mem_map.mp (AList.mem_keys.mp h)
  exact AList.mem_keys.mpr (mem_map_of_mem (mem_of_mem_filter hentry))

theorem lookup_retain {value : β} :
    (retain m keep).lookup key = some value ↔
      m.lookup key = some value ∧ keep key value = true := by
  constructor
  · intro h
    obtain ⟨hentry, hkeep⟩ := mem_filter.mp (mem_lookup_iff.mp h)
    exact ⟨mem_lookup_iff.mpr hentry, hkeep⟩
  · rintro ⟨h, hkeep⟩
    exact mem_lookup_iff.mpr (mem_filter.mpr ⟨mem_lookup_iff.mp h, hkeep⟩)

end

omit [DecidableEq α] in
theorem len_retain_le (keep : α → β → Bool) : len (retain m keep) ≤ len m :=
  length_filter_le _ _

/-- How many values pass a test. -/
def countValues (m : AList fun _ : α => β) (test : β → Bool) : Nat :=
  m.entries.countP fun entry => test entry.2

/-- A map whose passing values all sit at keys where the other's pass has no more of them. -/
theorem countValues_le {m m' : AList fun _ : α => β} {test test' : β → Bool}
    (h : ∀ k v', m'.lookup k = some v' → test' v' = true →
      ∃ v, m.lookup k = some v ∧ test v = true) :
    countValues m' test' ≤ countValues m test := by
  have hcount : ∀ (m : AList fun _ : α => β) (test : β → Bool),
      countValues m test = ((m.entries.filter fun entry => test entry.2).map Sigma.fst).length := by
    grind [countValues]
  rw [hcount, hcount]
  have hnodup : ((m'.entries.filter fun entry => test' entry.2).map Sigma.fst).Nodup :=
    List.Nodup.sublist (filter_sublist.map _) m'.nodupKeys
  refine (hnodup.subperm ?_).length_le
  intro k hk
  obtain ⟨⟨k, v'⟩, hmem, rfl⟩ := mem_map.mp hk
  obtain ⟨hentry, htest⟩ := mem_filter.mp hmem
  obtain ⟨v, hv, hpass⟩ := h k v' (mem_lookup_iff.mpr hentry) htest
  exact mem_map.mpr ⟨⟨k, v⟩, mem_filter.mpr ⟨mem_lookup_iff.mp hv, hpass⟩, rfl⟩

theorem countValues_insert_le (k : α) (v : β) (test : β → Bool) :
    countValues (m.insert k v) test ≤ countValues m test + (if test v then 1 else 0) := by
  rw [countValues, entries_insert, countP_cons]
  exact Nat.add_le_add_right ((kerase_sublist k m.entries).countP_le) _

/-- The sizes of the values, added up. -/
def sumValues (m : AList fun _ : α => β) (size : β → Nat) : Nat :=
  (m.entries.map fun entry => size entry.2).sum

theorem sumValues_erase {m : AList fun _ : α => β} {k : α} {v : β} (h : m.lookup k = some v)
    (size : β → Nat) : sumValues m size = size v + sumValues (m.erase k) size := by
  have hperm := (entries_perm_erase h).map fun entry => size entry.2
  exact hperm.sum_nat

/-- A value that is put in replaces the one under its key, if there is one. -/
theorem sumValues_insert (k : α) (v : β) (size : β → Nat) :
    sumValues (m.insert k v) size + ((m.lookup k).map size).getD 0 = sumValues m size + size v := by
  have hinsert : sumValues (m.insert k v) size = size v + sumValues (m.erase k) size := by
    rw [sumValues]
    rfl
  rw [hinsert]
  cases hlookup : m.lookup k with
  | none =>
    have hnotMem : k ∉ m.entries.keys := lookup_eq_none.mp hlookup
    have herase : sumValues (m.erase k) size = sumValues m size := by
      show ((List.kerase k m.entries).map fun entry => size entry.2).sum = _
      rw [kerase_of_notMem_keys hnotMem]
      rfl
    rw [herase, Option.map_none, Option.getD_none]
    omega
  | some old => grind [sumValues_erase]

omit [DecidableEq α] in
theorem sumValues_add (f g : β → Nat) :
    sumValues m (fun v => f v + g v) = sumValues m f + sumValues m g := by
  unfold sumValues
  induction m.entries with
  | nil => rfl
  | cons entry entries ih => grind

omit [DecidableEq α] in
/-- Values of no size can be left out. -/
theorem sumValues_retain_of_zero {m : AList fun _ : α => β} {keep : α → β → Bool} {size : β → Nat}
    (h : ∀ k v, keep k v = false → size v = 0) :
    sumValues (retain m keep) size = sumValues m size := by
  show ((m.entries.filter fun entry => keep entry.1 entry.2).map fun entry => size entry.2).sum
    = (m.entries.map fun entry => size entry.2).sum
  induction m.entries with
  | nil => rfl
  | cons entry entries ih => grind

/-- `for value in map.values_mut()`, with the same change for every value. -/
def mapValues (m : AList fun _ : α => β) (f : β → β) : AList fun _ : α => β :=
  ⟨m.entries.map fun entry => ⟨entry.1, f entry.2⟩, by
    have hkeys := m.nodupKeys
    rw [List.NodupKeys, List.keys] at hkeys ⊢
    rw [map_map]
    exact hkeys⟩

omit [DecidableEq α] in
theorem sumValues_mapValues (f : β → β) (size : β → Nat) :
    sumValues (mapValues m f) size = sumValues m fun v => size (f v) := by
  unfold sumValues mapValues
  rw [map_map]
  rfl

theorem lookup_mapValues (f : β → β) (key : α) :
    (mapValues m f).lookup key = (m.lookup key).map f := by
  show List.dlookup key (m.entries.map fun entry => (⟨entry.1, f entry.2⟩ : Sigma fun _ : α => β))
    = Option.map f (List.dlookup (β := fun _ : α => β) key m.entries)
  induction m.entries with
  | nil => rfl
  | cons entry entries ih =>
    obtain ⟨k, v⟩ := entry
    rw [map_cons]
    by_cases hkey : k = key
    · grind
    · rw [dlookup_cons_ne _ _ (Ne.symm hkey), dlookup_cons_ne _ _ (Ne.symm hkey), ih]

/-- Where every list is cut and the empty ones are dropped, each key has its list cut. -/
theorem getD_lookup_retain_mapValues {γ : Type} (m : AList fun _ : α => List γ)
    {f : List γ → List γ} (hf : f [] = []) (key : α) :
    ((retain (mapValues m f) fun _ l => !l.isEmpty).lookup key).getD []
      = f ((m.lookup key).getD []) := by
  have hmapped := lookup_mapValues m f key
  cases hfound : (retain (mapValues m f) fun _ l => !l.isEmpty).lookup key with
  | some l =>
    rw [(lookup_retain.mp hfound).1] at hmapped
    obtain ⟨stored, hstored, rfl⟩ := Option.map_eq_some_iff.mp hmapped.symm
    rw [hstored, Option.getD_some, Option.getD_some]
  | none =>
    cases hstored : m.lookup key with
    | none => exact hf.symm
    | some stored =>
      -- it was dropped, so it is empty
      rw [hstored] at hmapped
      by_contra hne
      have hkept : (retain (mapValues m f) fun _ l => !l.isEmpty).lookup key = some (f stored) :=
        lookup_retain.mpr ⟨hmapped, by simpa using Ne.symm hne⟩
      cases hkept.symm.trans hfound

/-- A map of lists that sorts the elements of one list by their keys has those elements. -/
theorem flatMap_perm_of_filter {key : β → α} :
    ∀ {entries : List (Sigma fun _ : α => List β)}, entries.NodupKeys → ∀ {l : List β},
      (∀ k, (entries.dlookup k).getD [] = l.filter fun b => key b = k) →
      (entries.flatMap fun entry => entry.2).Perm l
  | [], _, l, h => by
    have hnil : l = [] := by simp_all [eq_nil_iff_forall_not_mem, mem_filter]
    rw [hnil]
    exact List.Perm.nil
  | ⟨k, values⟩ :: entries, hkeys, l, h => by
    obtain ⟨hnew, hrest⟩ := nodupKeys_cons.mp hkeys
    -- the first entry has the elements of its key, the others have the rest
    have hfirst : values = l.filter fun b => key b = k := by
      have hk := h k
      rwa [dlookup_cons_eq] at hk
    have hothers : ∀ k', (entries.dlookup k').getD []
        = (l.filter fun b => !decide (key b = k)).filter fun b => key b = k' := by
      intro k'
      rw [filter_filter]
      by_cases hk : k' = k
      · grind [dlookup_eq_none, filter_eq_nil_iff]
      · have hk' := h k'
        rw [dlookup_cons_ne _ _ hk] at hk'
        rw [hk']
        refine filter_congr fun b _ => ?_
        by_cases hb : key b = k'
        · simp [hb, hk]
        · simp [hb]
    exact ((List.Perm.of_eq hfirst).append (flatMap_perm_of_filter hrest hothers)).trans
      (filter_append_perm _ l)

/-- Counting over the values of such a map is counting over the list. -/
theorem sumValues_countP_of_filter {key : β → α} {m : AList fun _ : α => List β} {l : List β}
    (h : ∀ k, (m.lookup k).getD [] = l.filter fun b => key b = k) (p : β → Bool) :
    sumValues m (List.countP p) = l.countP p := by
  rw [← (flatMap_perm_of_filter m.nodupKeys h).countP_eq p, countP_flatMap]
  rfl

/-! ## Loops that can fail -/

theorem mapM_eq_ok_iff {α β ε : Type} {f : α → Except ε β} {xs : List α} {ys : List β} :
    xs.mapM f = .ok ys ↔ xs.map f = ys.map .ok := by
  induction xs generalizing ys with
  | nil => cases ys <;> simp [pure, Except.pure]
  | cons x xs ih =>
    rw [mapM_cons, map_cons]
    cases f x with
    | error e => cases ys <;> simp [bind, Except.bind]
    | ok y =>
      cases ys with
      | nil => cases xs.mapM f <;> simp [bind, Except.bind, pure, Except.pure]
      | cons z zs =>
        rw [map_cons, List.cons.injEq, ← ih]
        cases xs.mapM f <;> simp [bind, Except.bind, pure, Except.pure]

/-! ## Other orders of a list -/

/-- An order in which a list may be gone through, as a map or a backend happens to do it. -/
structure Reordering (α : Type) where
  order : List α → List α
  perm : ∀ l, (order l).Perm l

/-- The order of the list. -/
def Reordering.same {α : Type} : Reordering α := ⟨id, fun _ => .refl _⟩

theorem Reordering.mem_order {α : Type} (r : Reordering α) {l : List α} {a : α} :
    a ∈ r.order l ↔ a ∈ l :=
  (r.perm l).mem_iff

/-- Listing images in another order is listing the images of another order. -/
theorem exists_perm_map {α β : Type} {f : α → β} {l : List α} {listing : List β}
    (h : listing.Perm (l.map f)) : ∃ l' : List α, l'.Perm l ∧ listing = l'.map f := by
  have hcomp : Relation.Comp (fun listing (l' : List α) => listing = l'.map f)
      (fun l' l : List α => l'.Perm l) listing l := by
    rw [eq_map_comp_perm]
    exact h
  obtain ⟨l', hlisting, hperm⟩ := hcomp
  exact ⟨l', hperm, hlisting⟩

/-- A list can be put in an order with the given element at the given place. -/
theorem exists_perm_at {α : Type} [DecidableEq α] {x : α} {l : List α} {j : Nat} (hx : x ∈ l)
    (hj : j < l.length) : ∃ front back, (front ++ x :: back).Perm l ∧ front.length = j := by
  refine ⟨(l.erase x).take j, (l.erase x).drop j, ?_, ?_⟩
  · refine perm_middle.trans ?_
    rw [take_append_drop]
    exact (perm_cons_erase hx).symm
  · grind

/-! ## The smallest element -/

/-- `Iterator::min_by`: of equal elements the first is kept. -/
def minBy {α : Type} (cmp : α → α → Ordering) : List α → Option α
  | [] => none
  | x :: xs => some (xs.foldl (fun a b => if cmp a b = .gt then b else a) x)

section
variable {α : Type} {cmp : α → α → Ordering}

theorem minBy_mem {l : List α} {a : α} (h : minBy cmp l = some a) : a ∈ l := by
  have hfold : ∀ (xs : List α) (x : α),
      xs.foldl (fun a b => if cmp a b = .gt then b else a) x ∈ x :: xs := by
    intro xs
    induction xs with
    | nil => intro x; simp
    | cons y ys ih =>
      intro x
      rw [foldl_cons]
      split
      · exact mem_cons_of_mem x (ih y)
      · rcases mem_cons.mp (ih x) with hx | hys
        · rw [hx]
          exact mem_cons_self
        · exact mem_cons_of_mem x (mem_cons_of_mem y hys)
  cases l with
  | nil => cases h
  | cons x xs =>
    cases h
    exact hfold xs x

theorem minBy_eq_none {l : List α} (h : minBy cmp l = none) : l = [] := by
  cases l with
  | nil => rfl
  | cons x xs => cases h

theorem minBy_eq_none_iff {l : List α} : minBy cmp l = none ↔ l = [] :=
  ⟨minBy_eq_none, fun h => by rw [h]; rfl⟩

/-- The first comparison of the search. -/
theorem minBy_cons_cons {α : Type} (cmp : α → α → Ordering) (a b : α) (l : List α) :
    minBy cmp (a :: b :: l) = minBy cmp ((if cmp a b = .gt then b else a) :: l) := rfl

/-- What is preferred to everything else, whichever of the two is met first, is what the search
picks from. -/
theorem minBy_of_preferred {p : α → Prop} {m : α} (l : List α)
    (hprefers : ∀ x ∈ l, p x → ∀ y ∈ l, ¬ p y → cmp y x = .gt ∧ cmp x y ≠ .gt)
    (hsome : ∃ x ∈ l, p x) (hmin : minBy cmp l = some m) : p m := by
  cases l with
  | nil => cases hmin
  | cons first l =>
    induction l generalizing first with
    | nil =>
      obtain ⟨x, hx, hp⟩ := hsome
      cases hmin
      rw [mem_singleton.mp hx] at hp
      exact hp
    | cons second l ih =>
      rw [minBy_cons_cons] at hmin
      obtain ⟨x, hx, hp⟩ := hsome
      have hfirst := hprefers first mem_cons_self
      have hsecond := hprefers second (mem_cons_of_mem _ mem_cons_self)
      refine ih _ (fun x hx hp y hy => ?_) ?_ hmin
      · have hsub : ∀ z ∈ (if cmp first second = .gt then second else first) :: l,
            z ∈ first :: second :: l := by
          intro z hz
          rcases mem_cons.mp hz with rfl | hz
          · split
            · exact mem_cons_of_mem _ mem_cons_self
            · exact mem_cons_self
          · exact mem_cons_of_mem _ (mem_cons_of_mem _ hz)
        exact hprefers x (hsub x hx) hp y (hsub y hy)
      · -- of the first two the one that is left has the property, if either has
        by_cases hpfirst : p first <;> by_cases hpsecond : p second
        · exact ⟨_, mem_cons_self, by split <;> assumption⟩
        · grind
        · grind
        · rcases mem_cons.mp hx with rfl | hx
          · exact absurd hp hpfirst
          rcases mem_cons.mp hx with rfl | hx
          · exact absurd hp hpsecond
          exact ⟨x, mem_cons_of_mem _ hx, hp⟩

/-- Where being above is a strict order, which may leave elements incomparable, the element that
is picked is not above any other. -/
theorem minBy_not_gt (hirrefl : ∀ a, cmp a a ≠ .gt)
    (htrans : ∀ a b c, cmp a b = .gt → cmp b c = .gt → cmp a c = .gt) {l : List α} {a : α}
    (h : minBy cmp l = some a) : ∀ b ∈ l, cmp a b ≠ .gt := by
  have hfold : ∀ (xs : List α) (x : α),
      let picked := xs.foldl (fun a b => if cmp a b = .gt then b else a) x
      (picked = x ∨ cmp x picked = .gt) ∧ ∀ b ∈ x :: xs, cmp picked b ≠ .gt := by
    intro xs
    induction xs with
    | nil =>
      refine fun x => ⟨.inl rfl, fun b hb => ?_⟩
      rw [mem_singleton.mp hb]
      exact hirrefl x
    | cons y ys ih =>
      intro x
      dsimp only
      rw [foldl_cons]
      by_cases hgt : cmp x y = .gt
      · rw [if_pos hgt]
        obtain ⟨hbelow, hlowest⟩ := ih y
        refine ⟨.inr ?_, fun b hb => ?_⟩
        · rcases hbelow with heq | hlt
          · rw [heq]
            exact hgt
          · exact htrans _ _ _ hgt hlt
        · rcases mem_cons.mp hb with rfl | hrest
          · exact fun habove => hlowest y mem_cons_self (htrans _ _ _ habove hgt)
          · exact hlowest b hrest
      · rw [if_neg hgt]
        obtain ⟨hbelow, hlowest⟩ := ih x
        refine ⟨hbelow, fun b hb => ?_⟩
        rcases mem_cons.mp hb with rfl | hrest
        · exact hlowest b mem_cons_self
        · rcases mem_cons.mp hrest with rfl | hys
          · intro habove
            rcases hbelow with heq | hlt
            · rw [heq] at habove
              exact hgt habove
            · exact hgt (htrans _ _ _ hlt habove)
          · exact hlowest b (mem_cons_of_mem x hys)
  cases l with
  | nil => cases h
  | cons x xs =>
    cases h
    exact (hfold xs x).2

theorem minBy_isLE [Std.TransCmp cmp] {l : List α} {a : α} (h : minBy cmp l = some a) :
    ∀ b ∈ l, (cmp a b).isLE = true := fun b hb =>
  Ordering.ne_gt_iff_isLE.mp (minBy_not_gt (fun _ => by simp [Std.ReflCmp.compare_self])
    (fun _ _ _ => Std.TransCmp.gt_trans) h b hb)

/-- A first element that is above no other is the one picked. -/
theorem minBy_cons_of_not_gt {x : α} {xs : List α} (h : ∀ b ∈ xs, cmp x b ≠ .gt) :
    minBy cmp (x :: xs) = some x := by
  refine congrArg some ?_
  induction xs with
  | nil => rfl
  | cons y ys ih =>
    rw [foldl_cons, if_neg (h y mem_cons_self)]
    exact ih fun b hb => h b (mem_cons_of_mem y hb)

end

/-! ## Dropping from the front until enough is gone -/

section DropCovering

variable {γ : Type} (size : γ → Nat)

/-- Drop elements until their sizes add up to `required`, or none is left. -/
def dropCovering : List γ → Nat → List γ
  | [], _ => []
  | x :: xs, required => if required = 0 then x :: xs else dropCovering xs (required - size x)

@[simp] theorem dropCovering_zero (l : List γ) : dropCovering size l 0 = l := by
  cases l with
  | nil => rfl
  | cons x xs => exact if_pos rfl

section
variable (l : List γ) (required : Nat)

theorem dropCovering_suffix : dropCovering size l required <:+ l := by
  induction l generalizing required with
  | nil => exact suffix_refl []
  | cons x xs ih =>
    unfold dropCovering
    split
    next => exact suffix_refl _
    next => exact (ih _).trans (suffix_cons x xs)

theorem sum_le_of_suffix {l tail : List γ} (h : tail <:+ l) :
    (tail.map size).sum ≤ (l.map size).sum := by
  obtain ⟨front, rfl⟩ := h
  rw [map_append, sum_append]
  exact Nat.le_add_left _ _

/-- What is left is smaller by the required amount. -/
theorem sum_dropCovering_le :
    ((dropCovering size l required).map size).sum ≤ (l.map size).sum - required := by
  induction l generalizing required with
  | nil => exact Nat.zero_le _
  | cons x xs ih => grind [dropCovering]

/-- And no more is dropped than has to be: any tail that small is still there. -/
theorem suffix_dropCovering {l tail : List γ} {required : Nat} (htail : tail <:+ l)
    (hsum : (tail.map size).sum + required ≤ (l.map size).sum) :
    tail <:+ dropCovering size l required := by
  induction l generalizing required with
  | nil => exact htail
  | cons x xs ih =>
    unfold dropCovering
    split
    next => exact htail
    next hrequired =>
      rcases suffix_cons_iff.mp htail with rfl | hxs
      · omega
      · have hle := sum_le_of_suffix size hxs
        rw [map_cons, sum_cons] at hsum
        exact ih hxs (by omega)

/-- What is dropped is an initial part that covers the required amount, or everything,
and is not enough without its last element. -/
theorem dropCovering_split :
    ∃ front, l = front ++ dropCovering size l required ∧
      (required ≤ (front.map size).sum ∨ dropCovering size l required = []) ∧
      ∀ start last, start ++ [last] = front → (start.map size).sum < required := by
  induction l generalizing required with
  | nil => exact ⟨[], rfl, .inr rfl, fun start last h => absurd h (by simp)⟩
  | cons x xs ih =>
    unfold dropCovering
    split
    next hzero => simp_all
    next hrequired =>
      obtain ⟨front, hfront, hcovers, hshort⟩ := ih (required - size x)
      refine ⟨x :: front, ?_, ?_, ?_⟩
      · rw [cons_append, ← hfront]
      · grind
      · intro start last h
        cases start with
        | nil => grind
        | cons y start => grind

end

end DropCovering

/-! ## Lexicographic orders -/

section Lex

variable {γ κ : Type} [LinearOrder κ] (key : γ → κ) {le : γ → γ → Prop}

/-- First by a key, then by an order on the elements. -/
def lexLe (key : γ → κ) (le : γ → γ → Prop) (a b : γ) : Prop :=
  key a < key b ∨ key a = key b ∧ le a b

theorem lexLe_total (h : Std.Total le) : Std.Total (lexLe key le) := by
  refine ⟨fun a b => ?_⟩
  rcases lt_trichotomy (key a) (key b) with hlt | heq | hgt
  · exact .inl (.inl hlt)
  · exact (h.total a b).imp (fun hle => .inr ⟨heq, hle⟩) fun hle => .inr ⟨heq.symm, hle⟩
  · exact .inr (.inl hgt)

theorem lexLe_trans (h : IsTrans γ le) : IsTrans γ (lexLe key le) := by
  refine ⟨fun a b c hab hbc => ?_⟩
  rcases hab with hab | ⟨hab, hab'⟩
  · rcases hbc with hbc | ⟨hbc, _⟩
    · exact .inl (hab.trans hbc)
    · exact .inl (hbc ▸ hab)
  · rcases hbc with hbc | ⟨hbc, hbc'⟩
    · exact .inl (hab ▸ hbc)
    · exact .inr ⟨hab.trans hbc, h.trans a b c hab' hbc'⟩

end Lex

/-! ## Parts of a text -/

/-- A number is read back from its decimal digits. -/
theorem toString_inj {n m : Nat} (h : toString n = toString m) : n = m := by
  have hdigits := congrArg String.toList h
  simp only [Nat.toString_eq_repr, Nat.toList_repr] at hdigits
  calc
    n = Nat.ofDigitChars 10 (Nat.toDigits 10 n) 0 := Nat.ofDigitChars_ten_toDigits.symm
    _ = Nat.ofDigitChars 10 (Nat.toDigits 10 m) 0 := by rw [hdigits]
    _ = m := Nat.ofDigitChars_ten_toDigits

/-- Text before the first separator is determined by the whole. -/
theorem eq_of_cons_append_eq {α : Type} {sep : α} {a b x y : List α} (ha : sep ∉ a) (hb : sep ∉ b)
    (h : a ++ sep :: x = b ++ sep :: y) : a = b ∧ x = y := by
  rcases append_eq_append_iff.mp h with ⟨c, hb', hc⟩ | ⟨c, ha', hc⟩
  · cases c with
    | nil => exact ⟨by rw [hb', append_nil], (List.cons.inj hc).2⟩
    | cons d c => grind
  · cases c with
    | nil => exact ⟨by rw [ha', append_nil], (List.cons.inj hc).2.symm⟩
    | cons d c => grind

/-- Text after the last separator is determined by the whole. -/
theorem eq_of_append_cons_eq {α : Type} {sep : α} {a b x y : List α} (hx : sep ∉ x) (hy : sep ∉ y)
    (h : a ++ sep :: x = b ++ sep :: y) : x = y := by
  rcases append_eq_append_iff.mp h with ⟨c, _, hc⟩ | ⟨c, _, hc⟩
  · cases c with
    | nil => exact (List.cons.inj hc).2
    | cons d c => grind
  · cases c with
    | nil => exact (List.cons.inj hc).2.symm
    | cons d c => simp_all

end Scm.Collections
