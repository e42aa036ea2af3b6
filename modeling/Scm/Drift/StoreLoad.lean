import Scm.Drift.StoreMerge

/-!
# Loading a mesh store — `core/src/drift/store.rs`, `MeshStore::load`

`load` inserts one row of the backend after another into a store with a capacity. Rows come in
the order the backend lists them in, the scores are those of the clock at each insertion, and
the map may iterate in another order every time.

Here the rows are envelopes of different ids. What a load has made of the rows so far is said
by `LoadedFrom`: none but these, and as many as there is room for. Which ones is a matter of
the eviction. A row beyond the capacity takes none of the `held` messages away as long as every
other row is `Below` all of them (`Keeps.insertIn`). `restores_iff` says that nothing less will
do.
-/

namespace Scm.Drift

open List AList Collections StoredEnvelope

namespace MeshStore

/-- A row of the loop in `load`: the value read, and inserted. -/
def loadRow (order : Nat → MeshStore → MeshStore) (cmp : Nat → Comparison) :
    Nat × MeshStore → Bytes × Nat → Nat × MeshStore
  | (loaded, s), (value, k) =>
    match Bincode.deserialize read value with
    | none => (loaded, s)
    | some envelope =>
      let (isNew, s') := s.insertIn (order k) (cmp k) envelope
      (if isNew then loaded + 1 else loaded, s')

/-- `MeshStore::load` with a clock that goes on and a map that moves: `order k` and `cmp k` are
the iteration order and the comparison of scores at row `k`. -/
def loadIn (order : Nat → MeshStore → MeshStore) (cmp : Nat → Comparison) (s : MeshStore)
    (values : List Bytes) : Nat × MeshStore :=
  values.zipIdx.foldl (loadRow order cmp) (0, s)

/-- Whichever of the two the search for the lowest message meets first, it prefers `x`. -/
def Below (cmp : Comparison) (x y : StoredEnvelope) : Prop :=
  cmp y x = .gt ∧ cmp x y ≠ .gt

/-- `HashMap::values`. -/
def envelopes (s : MeshStore) : List StoredEnvelope := s.messages.entries.map Sigma.snd

section
variable {s : MeshStore} {id : MessageId} {e : StoredEnvelope}

theorem messageId_of_get (h : s.get id = some e) : e.messageId = id :=
  s.keyed ⟨id, e⟩ (mem_lookup_iff.mp h)

theorem mem_envelopes : e ∈ s.envelopes ↔ s.get e.messageId = some e := by
  unfold envelopes
  rw [mem_map]
  constructor
  · rintro ⟨⟨id, e⟩, hentry, rfl⟩
    have hid : e.messageId = id := s.keyed _ hentry
    show s.get e.messageId = some e
    rw [hid]
    exact mem_lookup_iff.mpr hentry
  · exact fun h => ⟨⟨e.messageId, e⟩, mem_lookup_iff.mp h, rfl⟩

theorem messageId_envelopes (s : MeshStore) :
    s.envelopes.map messageId = s.messageIds := by
  unfold envelopes messageIds
  rw [map_map]
  exact map_congr_left s.keyed

theorem nodup_envelopes (s : MeshStore) : (s.envelopes.map messageId).Nodup := by
  rw [messageId_envelopes]
  exact s.messages.keys_nodup

theorem length_envelopes (s : MeshStore) : s.envelopes.length = s.len := length_map _

/-- A message after an insertion is the one inserted, or was there before. -/
theorem get_of_get_insertIn {order : MeshStore → MeshStore} {cmp : Comparison} {r : StoredEnvelope}
    (horder : Reorders order) (hbudget : s.len ≤ s.maxMessages)
    (h : (s.insertIn order cmp r).2.get id = some e) : e = r ∨ s.get id = some e := by
  cases hnew : s.get r.messageId with
  | some _ =>
    rw [insertIn, hnew] at h
    exact .inr h
  | none =>
    have hput : (s.put r).get id = some e := by
      rw [← horder.get (s.put r)]
      rcases insertIn_outcome cmp r horder hbudget hnew with
        ⟨_, hout⟩ | ⟨_, lowest, _, hout⟩
      · rwa [hout] at h
      · rw [hout] at h
        exact lookup_of_lookup_erase h
    exact (lookup_insert_cases hput).imp (·.2) (·.2)

end

/-! ## One insertion after another -/

/-- The insertions of a load, from row `k` on. -/
def insertFrom (order : Nat → MeshStore → MeshStore) (cmp : Nat → Comparison) :
    Nat → MeshStore → List StoredEnvelope → MeshStore
  | _, s, [] => s
  | k, s, r :: rows => insertFrom order cmp (k + 1) (s.insertIn (order k) (cmp k) r).2 rows

section
variable {order : Nat → MeshStore → MeshStore}
  {cmp : Nat → Comparison}

theorem foldl_loadRow {rows : List StoredEnvelope} :
    ∀ (loaded k : Nat) (s : MeshStore),
      (∀ r ∈ rows, Bincode.deserialize read r.serialize = some r) →
      (((rows.map serialize).zipIdx k).foldl (loadRow order cmp) (loaded, s)).2
        = insertFrom order cmp k s rows := by
  induction rows with
  | nil => exact fun _ _ _ _ => rfl
  | cons r rows ih =>
    intro loaded k s hread
    obtain ⟨hr, hrows⟩ := forall_mem_cons.mp hread
    rw [map_cons, zipIdx_cons, foldl_cons, loadRow, hr]
    exact ih _ (k + 1) _ hrows

theorem loadIn_serialize (s : MeshStore) {rows : List StoredEnvelope}
    (hread : ∀ r ∈ rows, Bincode.deserialize read r.serialize = some r) :
    (s.loadIn order cmp (rows.map serialize)).2 = insertFrom order cmp 0 s rows :=
  foldl_loadRow 0 0 s hread

theorem insertFrom_append (more : List StoredEnvelope) (rows : List StoredEnvelope) :
    ∀ (k : Nat) (s : MeshStore), insertFrom order cmp k s (rows ++ more)
      = insertFrom order cmp (k + rows.length) (insertFrom order cmp k s rows) more := by
  induction rows with
  | nil => exact fun _ _ => rfl
  | cons r rows ih =>
    intro k s
    rw [length_cons, ← Nat.add_assoc, Nat.add_right_comm]
    exact ih _ _

/-- What holds of the rows done and the store they made, row by row, holds at the end. -/
theorem insertFrom_induction {P : List StoredEnvelope → MeshStore → Prop}
    (rows : List StoredEnvelope) : ∀ (done : List StoredEnvelope) (s : MeshStore), P done s →
      (∀ before r after s, done ++ rows = before ++ r :: after → P before s →
        P (before ++ [r]) (s.insertIn (order before.length) (cmp before.length) r).2) →
      P (done ++ rows) (insertFrom order cmp done.length s rows) := by
  induction rows with
  | nil =>
    intro done s hs _
    rw [append_nil]
    exact hs
  | cons r rows ih =>
    intro done s hs hstep
    have hnext := hstep done r rows s rfl hs
    rw [append_cons] at hstep ⊢
    have hrest := ih (done ++ [r]) _ hnext hstep
    rw [length_append] at hrest
    exact hrest

/-! ## What a load has made of its rows -/

/-- A store of capacity `c` that was empty, after the rows. -/
structure LoadedFrom (c : Nat) (rows : List StoredEnvelope) (t : MeshStore) : Prop where
  capacity : t.maxMessages = c
  len : t.len = min c rows.length
  sub : ∀ id e, t.get id = some e → e ∈ rows

/-- Of the messages held, those among the rows are there. -/
def Keeps (held : MeshStore) (rows : List StoredEnvelope) (t : MeshStore) : Prop :=
  ∀ y ∈ rows, held.get y.messageId = some y → t.get y.messageId = some y

section
variable {c k : Nat} {held t : MeshStore} {rows : List StoredEnvelope} {r : StoredEnvelope}

theorem loadedFrom_withCapacity (c : Nat) : LoadedFrom c [] (withCapacity c) :=
  ⟨rfl, (Nat.min_zero c).symm, nofun⟩

theorem LoadedFrom.within (h : LoadedFrom c rows t) : t.len ≤ t.maxMessages := by
  rw [h.len, h.capacity]
  exact Nat.min_le_left _ _

theorem LoadedFrom.get_eq_none (h : LoadedFrom c rows t)
    (hnew : r.messageId ∉ rows.map messageId) : t.get r.messageId = none := by
  cases hget : t.get r.messageId with
  | none => rfl
  | some e =>
    have hid := messageId_of_get hget
    exact absurd (hid ▸ mem_map_of_mem (h.sub _ _ hget)) hnew

section
variable (horder : Reorders (order k)) (h : LoadedFrom c rows t)
include horder h

theorem LoadedFrom.insertIn (hnew : r.messageId ∉ rows.map messageId) :
    LoadedFrom c (rows ++ [r]) (t.insertIn (order k) (cmp k) r).2 := by
  have hget := h.get_eq_none hnew
  refine ⟨?_, ?_, fun id e he => ?_⟩
  · rw [insertIn_of_new hget, maxMessages_evict, (horder _).2]
    exact h.capacity
  · have hput : (t.put r).len = t.len + 1 := len_insert_of_notMem _ (lookup_eq_none.mp hget)
    rw [insertIn_of_new hget, len_evict, (horder _).2, horder.len, hput, maxMessages_put,
      h.capacity, h.len, length_append, length_singleton]
    omega
  · rcases get_of_get_insertIn horder h.within he with rfl | hold
    · exact mem_append_right _ mem_cons_self
    · exact mem_append_left _ (h.sub id e hold)

/-- **A row takes no held message away** when every other message is below the held ones. -/
theorem Keeps.insertIn (hkeeps : Keeps held rows t) (hnew : r.messageId ∉ rows.map messageId)
    (hheld : held.len ≤ c)
    (hbelow : c ≤ rows.length → ∀ x ∈ rows ++ [r], held.get x.messageId ≠ some x →
      ∀ y, held.get y.messageId = some y → Below (cmp k) x y) :
    Keeps held (rows ++ [r]) (t.insertIn (order k) (cmp k) r).2 := by
  have hget := h.get_eq_none hnew
  -- before the eviction they are all there
  have hput : ∀ y ∈ rows ++ [r], held.get y.messageId = some y →
      (order k (t.put r)).get y.messageId = some y := by
    intro y hy hyheld
    rw [horder.get]
    rcases mem_append.mp hy with hy | hy
    · have hne : y.messageId ≠ r.messageId := fun heq => hnew (heq ▸ mem_map_of_mem hy)
      exact (lookup_insert_ne hne).trans (hkeeps y hy hyheld)
    · rw [mem_singleton.mp hy]
      exact lookup_insert _
  rcases insertIn_outcome (cmp k) r horder h.within hget with
    ⟨_, hout⟩ | ⟨hfull, lowest, hmin, hout⟩
  · rw [hout]
    exact hput
  · have hrow : ∀ entry ∈ (order k (t.put r)).messages.entries,
        entry.2.messageId = entry.1 ∧ entry.2 ∈ rows ++ [r] := by
      intro entry hentry
      refine ⟨(order k (t.put r)).keyed entry hentry, ?_⟩
      have hlookup : (t.put r).get entry.1 = some entry.2 := by
        rw [← horder.get]
        exact mem_lookup_iff.mpr hentry
      rcases lookup_insert_cases hlookup with ⟨_, heq⟩ | ⟨_, hold⟩
      · grind
      · exact mem_append_left _ (h.sub _ _ hold)
    have hmany : c ≤ rows.length := by
      have hlen := h.len
      have hcap := h.capacity
      omega
    -- one message too many, so not all of them are held
    have hother : ∃ entry ∈ (order k (t.put r)).messages.entries,
        held.get entry.1 ≠ some entry.2 := by
      by_contra hall
      have hsub : (t.put r).ids ⊆ held.ids := by
        intro id hid
        rw [← horder.ids, mem_ids] at hid
        obtain ⟨e, he⟩ := Option.isSome_iff_exists.mp hid
        rw [mem_ids]
        by_contra hnone
        refine hall ⟨⟨id, e⟩, mem_lookup_iff.mp he, fun hheld => hnone ?_⟩
        rw [hheld]
        rfl
      have hcard := Finset.card_le_card hsub
      have hlen : (t.put r).len = t.len + 1 := len_insert_of_notMem _ (lookup_eq_none.mp hget)
      have hcap := h.capacity
      rw [card_ids, card_ids] at hcard
      omega
    have hlowest : held.get lowest.1 ≠ some lowest.2 := by
      refine minBy_of_preferred (p := fun entry : Sigma fun _ : MessageId => StoredEnvelope =>
        held.get entry.1 ≠ some entry.2) _ (fun x hx hxout y hy hyheld => ?_) hother hmin
      obtain ⟨hxid, hxrow⟩ := hrow x hx
      obtain ⟨hyid, _⟩ := hrow y hy
      refine hbelow hmany x.2 hxrow (by rwa [hxid]) y.2 ?_
      rw [hyid]
      exact not_not.mp hyheld
    rw [hout]
    intro y hy hyheld
    have hne : y.messageId ≠ lowest.1 := by
      intro heq
      have hstays := hput y hy hyheld
      rw [heq] at hstays hyheld
      have hthere : (order k (t.put r)).get lowest.1 = some lowest.2 :=
        mem_lookup_iff.mpr (minBy_mem hmin)
      rw [Option.some.inj (hstays.symm.trans hthere)] at hyheld
      exact hlowest hyheld
    exact (lookup_erase_ne hne).trans (hput y hy hyheld)

end

theorem messageId_notMem_of_nodup {before after : List StoredEnvelope}
    (h : ((before ++ r :: after).map messageId).Nodup) :
    r.messageId ∉ before.map messageId := by
  rw [map_append, nodup_append] at h
  exact fun hmem => h.2.2 _ hmem _ mem_cons_self rfl

variable (horder : ∀ k, Reorders (order k))
include horder

theorem loadedFrom_insertFrom (c : Nat) (cmp : Nat → Comparison)
    (hids : (rows.map messageId).Nodup) :
    LoadedFrom c rows (insertFrom order cmp 0 (withCapacity c) rows) := by
  refine insertFrom_induction (P := LoadedFrom c) rows [] _ (loadedFrom_withCapacity c)
    fun before r after s hsplit hs => ?_
  rw [nil_append] at hsplit
  rw [hsplit] at hids
  exact hs.insertIn (horder _) (messageId_notMem_of_nodup hids)

theorem keeps_insertFrom (hids : (rows.map messageId).Nodup) (hheld : held.len ≤ c)
    (hbelow : ∀ k, c ≤ k → k < rows.length → ∀ x ∈ rows, held.get x.messageId ≠ some x →
      ∀ y, held.get y.messageId = some y → Below (cmp k) x y) :
    Keeps held rows (insertFrom order cmp 0 (withCapacity c) rows) := by
  refine (insertFrom_induction (P := fun done t => LoadedFrom c done t ∧ Keeps held done t) rows []
    _ ⟨loadedFrom_withCapacity c, nofun⟩ fun before r after s hsplit hs => ?_).2
  rw [nil_append] at hsplit
  rw [hsplit] at hids hbelow
  have hnew := messageId_notMem_of_nodup hids
  refine ⟨hs.1.insertIn (horder _) hnew, hs.2.insertIn (horder _) hs.1 hnew hheld
    fun hmany x hx => hbelow _ hmany ?_ x ?_⟩
  · simp
  · grind

theorem get_insertFrom_eq_none {id : MessageId} :
    ∀ {k : Nat} {s : MeshStore}, s.len ≤ s.maxMessages → s.get id = none →
      (∀ r ∈ rows, r.messageId ≠ id) → (insertFrom order cmp k s rows).get id = none := by
  induction rows with
  | nil => exact fun _ hnone _ => hnone
  | cons r rows ih =>
    intro k s hbudget hnone hids
    obtain ⟨hr, hrows⟩ := forall_mem_cons.mp hids
    refine ih (len_insertIn_le (horder k) hbudget) ?_ hrows
    cases hget : (s.insertIn (order k) (cmp k) r).2.get id with
    | none => rfl
    | some e =>
      rcases get_of_get_insertIn (horder k) hbudget hget with rfl | hold
      · exact absurd (messageId_of_get hget) hr
      · rw [hnone] at hold
        cases hold

end

end

/-! ## Who is evicted when the order is bad -/

/-- The map in the order that begins with this message. -/
def bringFirst (id : MessageId) (s : MeshStore) : MeshStore :=
  match s.get id with
  | some e => s.put e
  | none => s

section
variable {s : MeshStore} {id : MessageId} {e : StoredEnvelope}

theorem entries_bringFirst (h : s.get id = some e) :
    (bringFirst id s).messages.entries = ⟨id, e⟩ :: s.messages.entries.kerase id := by
  obtain rfl := messageId_of_get h
  rw [bringFirst, h]
  exact entries_insert

theorem reorders_bringFirst (id : MessageId) : Reorders (bringFirst id) := by
  intro s
  cases h : s.get id with
  | none =>
    rw [bringFirst, h]
    exact ⟨.refl _, rfl⟩
  | some e =>
    refine ⟨?_, by rw [bringFirst, h]; rfl⟩
    rw [entries_bringFirst h]
    exact (entries_perm_erase h).symm

theorem Reorders.comp {f g : MeshStore → MeshStore} (hf : Reorders f) (hg : Reorders g) :
    Reorders (f ∘ g) := fun s =>
  ⟨(hf (g s)).1.trans (hg s).1, (hf (g s)).2.trans (hg s).2⟩

theorem entries_bringFirst_comp {id' : MessageId} {e' : StoredEnvelope} (hne : id ≠ id')
    (h : s.get id = some e) (h' : s.get id' = some e') :
    ((bringFirst id ∘ bringFirst id') s).messages.entries
      = ⟨id, e⟩ :: ⟨id', e'⟩ :: (s.messages.entries.kerase id').kerase id := by
  have hget : (bringFirst id' s).get id = some e := ((reorders_bringFirst id').get s id).trans h
  rw [Function.comp_apply, entries_bringFirst hget, entries_bringFirst h']
  exact congrArg _ (kerase_cons_ne hne)

/-- A message that is not below another need not be the one evicted. -/
theorem exists_order_of_not_below {cmp : Comparison} {x y : StoredEnvelope}
    (hne : x.messageId ≠ y.messageId) (hnot : ¬ Below cmp x y) :
    ∃ order, Reorders order ∧ ∀ s lowest, s.get x.messageId = some x →
      s.get y.messageId = some y →
      minBy (fun a b => cmp a.2 b.2) (order s).messages.entries = some lowest →
      lowest.1 ≠ x.messageId := by
  have hrest : ∀ {s : MeshStore} {rest : List (Sigma fun _ : MessageId => StoredEnvelope)}
      {lowest : Sigma fun _ : MessageId => StoredEnvelope},
      rest.keys ⊆ (s.messages.entries.kerase x.messageId).keys →
      lowest ∈ ⟨y.messageId, y⟩ :: rest → lowest.1 ≠ x.messageId := by
    intro s rest lowest hsub hmem heq
    rcases mem_cons.mp hmem with rfl | hmem
    · exact hne heq.symm
    · have hkey := hsub (mem_keys_of_mem hmem)
      rw [heq] at hkey
      exact notMem_keys_kerase _ s.messages.nodupKeys hkey
  by_cases hfirst : cmp y x = .gt
  · -- `x` is met first, and gives way to `y`
    have hsecond : cmp x y = .gt := by
      by_contra hle
      exact hnot ⟨hfirst, hle⟩
    refine ⟨bringFirst x.messageId ∘ bringFirst y.messageId,
      (reorders_bringFirst _).comp (reorders_bringFirst _), fun s lowest hx hy hmin => ?_⟩
    rw [entries_bringFirst_comp hne hx hy, minBy_cons_cons, if_pos hsecond] at hmin
    refine hrest (s := s) ?_ (minBy_mem hmin)
    rw [kerase_comm]
    exact kerase_keys_subset _ _
  · -- `y` is met first, and stays
    refine ⟨bringFirst y.messageId ∘ bringFirst x.messageId,
      (reorders_bringFirst _).comp (reorders_bringFirst _), fun s lowest hx hy hmin => ?_⟩
    rw [entries_bringFirst_comp (Ne.symm hne) hy hx, minBy_cons_cons, if_neg hfirst] at hmin
    exact hrest (s := s) (kerase_keys_subset _ _) (minBy_mem hmin)

/-- When the newcomer to a full store is not the one evicted, another is. -/
theorem exists_lost {order : MeshStore → MeshStore} (cmp : Comparison) {x : StoredEnvelope}
    (horder : Reorders order) (hfull : s.len = s.maxMessages) (hnew : s.get x.messageId = none)
    (hother : ∀ lowest, minBy (fun a b => cmp a.2 b.2) (order (s.put x)).messages.entries
      = some lowest → lowest.1 ≠ x.messageId) :
    ∃ id ∈ s.ids, (s.insertIn order cmp x).2.get id = none := by
  rcases insertIn_outcome cmp x horder (Nat.le_of_eq hfull) hnew with
    ⟨hroom, _⟩ | ⟨_, lowest, hmin, hout⟩
  · omega
  · refine ⟨lowest.1, ?_, ?_⟩
    · have hthere : (s.put x).get lowest.1 = some lowest.2 := by
        rw [← horder.get]
        exact mem_lookup_iff.mpr (minBy_mem hmin)
      have hold : s.get lowest.1 = some lowest.2 :=
        (lookup_insert_ne (hother lowest hmin)).symm.trans hthere
      rw [mem_ids, hold]
      rfl
    · rw [hout]
      exact lookup_erase _ _

end

/-! ## When exactly the held messages come back -/

section
variable {c : Nat} {held t : MeshStore} {leftovers rows : List StoredEnvelope}
  {cmp : Nat → Comparison}

/-- Loading the rows brings back what was held, in whatever order they come and the map
iterates. -/
def Restores (c : Nat) (cmp : Nat → Comparison)
    (held : MeshStore) (rows : List StoredEnvelope) : Prop :=
  ∀ order, (∀ k, Reorders (order k)) → ∀ listed, listed.Perm rows → ∀ id,
    (insertFrom order cmp 0 (withCapacity c) listed).get id = held.get id

/-- A store that keeps all of the held messages, and has no more of them, has no other. -/
theorem Keeps.ids_eq (h : Keeps held rows t) (hall : ∀ y ∈ held.envelopes, y ∈ rows)
    (hlen : t.len ≤ held.len) : t.ids = held.ids := by
  refine (Finset.eq_of_subset_of_card_le (fun id hid => ?_) ?_).symm
  · obtain ⟨y, hy⟩ := Option.isSome_iff_exists.mp (mem_ids.mp hid)
    obtain rfl := messageId_of_get hy
    rw [mem_ids, h y (hall y (mem_envelopes.mpr hy)) hy]
    rfl
  · rw [card_ids, card_ids]
    exact hlen

variable (hids : ((held.envelopes ++ leftovers).map messageId).Nodup)
include hids

theorem get_eq_none_of_leftover {x : StoredEnvelope} (hx : x ∈ leftovers) :
    held.get x.messageId = none := by
  cases hget : held.get x.messageId with
  | none => rfl
  | some e =>
    rw [map_append, nodup_append] at hids
    have hid := messageId_of_get hget
    have he : e ∈ held.envelopes := mem_envelopes.mpr (hid ▸ hget)
    exact absurd hid (hids.2.2 _ (mem_map_of_mem he) _ (mem_map_of_mem hx))

theorem restores_of_below (hheld : held.len ≤ c) (hfull : leftovers = [] ∨ held.len = c)
    (hbelow : ∀ k, c ≤ k → k < held.len + leftovers.length →
      ∀ x ∈ leftovers, ∀ y ∈ held.envelopes, Below (cmp k) x y) :
    Restores c cmp held (held.envelopes ++ leftovers) := by
  intro order horder listed hperm id
  have hnodup := (hperm.map messageId).nodup_iff.mpr hids
  have hloaded := loadedFrom_insertFrom horder c cmp hnodup
  have hlength : listed.length = held.len + leftovers.length := by
    rw [hperm.length_eq, length_append, length_envelopes]
  have hmem : ∀ e ∈ listed, held.get e.messageId = some e ∨ e ∈ leftovers := fun e he =>
    (mem_append.mp (hperm.mem_iff.mp he)).imp_left mem_envelopes.mp
  have hkeeps : Keeps held listed (insertFrom order cmp 0 (withCapacity c) listed) := by
    refine keeps_insertFrom horder hnodup hheld fun k hk hlt x hx hxout y hy => ?_
    exact hbelow k hk (hlength ▸ hlt) x ((hmem x hx).resolve_left hxout) y (mem_envelopes.mpr hy)
  have hall : ∀ y ∈ held.envelopes, y ∈ listed := fun y hy =>
    hperm.mem_iff.mpr (mem_append_left _ hy)
  cases hget : held.get id with
  | some y =>
    obtain rfl := messageId_of_get hget
    exact hkeeps y (hall y (mem_envelopes.mpr hget)) hget
  | none =>
    cases hthere : (insertFrom order cmp 0 (withCapacity c) listed).get id with
    | none => rfl
    | some e =>
      rcases hfull with hnone | hfull
      · obtain rfl := messageId_of_get hthere
        rcases hmem e (hloaded.sub _ _ hthere) with he | he
        · rw [hget] at he
          cases he
        · rw [hnone] at he
          cases he
      · have hle : (insertFrom order cmp 0 (withCapacity c) listed).len ≤ held.len := by
          rw [hloaded.len, hfull]
          exact Nat.min_le_left _ _
        have hmemIds : id ∈ held.ids := by
          rw [← hkeeps.ids_eq hall hle, mem_ids, hthere]
          rfl
        rw [mem_ids, hget] at hmemIds
        cases hmemIds

theorem Restores.len_eq (hsome : leftovers ≠ [])
    (h : Restores c cmp held (held.envelopes ++ leftovers)) : held.len = c := by
  have hget := h (fun _ => id) (fun _ => reorders_id) _ (.refl _)
  have hloaded := loadedFrom_insertFrom (fun _ => reorders_id) c cmp hids
  have hsame : (insertFrom (fun _ => id) cmp 0 (withCapacity c)
      (held.envelopes ++ leftovers)).ids = held.ids := by
    ext other
    rw [mem_ids, mem_ids, hget]
  have hlen := hloaded.len
  rw [← card_ids, hsame, card_ids, length_append, length_envelopes] at hlen
  have hpos := length_pos_iff.mpr hsome
  omega

/-- While all before is as it should be the store holds what was held when row `k` comes; then a
row that is not below can take a held message's place. -/
theorem Restores.below (hfull : held.len = c)
    (h : Restores c cmp held (held.envelopes ++ leftovers)) (k : Nat) :
    c ≤ k → k < c + leftovers.length →
      ∀ x ∈ leftovers, ∀ y ∈ held.envelopes, Below (cmp k) x y := by
  induction k using Nat.strong_induction_on with
  | _ k ih =>
    intro hk hlt x hx y hy
    by_contra hnot
    have hxnone := get_eq_none_of_leftover hids hx
    have hyheld := mem_envelopes.mp hy
    have hne : x.messageId ≠ y.messageId := by grind
    obtain ⟨order, horder, hother⟩ := exists_order_of_not_below hne hnot
    -- the held messages, other leftovers up to row `k`, then `x`
    obtain ⟨front, back, hsplit, hfront⟩ := exists_perm_at hx (j := k - c) (by omega)
    have hperm : (held.envelopes ++ front ++ x :: back).Perm (held.envelopes ++ leftovers) := by
      grind
    have hnodup := (hperm.map messageId).nodup_iff.mpr hids
    have hlength : (held.envelopes ++ front).length = k := by
      rw [length_append, length_envelopes]
      omega
    have hdone : ((held.envelopes ++ front).map messageId).Nodup := by grind
    have hloaded := loadedFrom_insertFrom (fun _ => horder) c cmp hdone
    have hkeeps : Keeps held (held.envelopes ++ front)
        (insertFrom (fun _ => order) cmp 0 (withCapacity c) (held.envelopes ++ front)) := by
      refine keeps_insertFrom (fun _ => horder) hdone (Nat.le_of_eq hfull)
        fun k' hk' hlt' x' hx' hxout y' hy' => ?_
      rw [hlength] at hlt'
      refine ih k' hlt' hk' (by omega) x' ?_ y' (mem_envelopes.mpr hy')
      rcases mem_append.mp hx' with hx' | hx'
      · exact absurd (mem_envelopes.mp hx') hxout
      · exact hsplit.mem_iff.mp (mem_append_left _ hx')
    have hfinal := h (fun _ => order) (fun _ => horder) _ hperm
    rw [insertFrom_append, Nat.zero_add, hlength] at hfinal
    generalize insertFrom (fun _ => order) cmp 0 (withCapacity c) (held.envelopes ++ front) = t
      at hloaded hkeeps hfinal
    have hlen : t.len = c := by
      rw [hloaded.len]
      omega
    have htids : t.ids = held.ids :=
      hkeeps.ids_eq (fun y hy => mem_append_left _ hy) (by omega)
    obtain ⟨id, hid, hlost⟩ := exists_lost (cmp k) horder (hlen.trans hloaded.capacity.symm)
      (hloaded.get_eq_none (messageId_notMem_of_nodup hnodup)) fun lowest =>
        hother (t.put x) lowest (lookup_insert _) ((lookup_insert_ne (Ne.symm hne)).trans
          (hkeeps y (mem_append_left _ hy) hyheld))
    rw [htids] at hid
    -- it is gone, and no later row brings it back
    have hgone : (insertFrom (fun _ => order) cmp k t (x :: back)).get id = none := by
      refine get_insertFrom_eq_none (k := k + 1) (fun _ => horder)
        (len_insertIn_le horder hloaded.within) hlost fun r hr heq => ?_
      have hrest : r ∈ leftovers :=
        hsplit.mem_iff.mp (mem_append_right _ (mem_cons_of_mem _ hr))
      rw [← heq, mem_ids, get_eq_none_of_leftover hids hrest] at hid
      cases hid
    rw [mem_ids, ← hfinal, hgone] at hid
    cases hid

/-- **When exactly the held messages come back.** The leftovers are rows beside them. There are
none, or the store is full of held messages and every leftover is below each of them at every
row beyond the capacity. -/
theorem restores_iff (hheld : held.len ≤ c) :
    Restores c cmp held (held.envelopes ++ leftovers) ↔
      leftovers = [] ∨ held.len = c ∧ ∀ k, c ≤ k → k < c + leftovers.length →
        ∀ x ∈ leftovers, ∀ y ∈ held.envelopes, Below (cmp k) x y := by
  constructor
  · intro h
    by_cases hnone : leftovers = []
    · exact .inl hnone
    · have hfull := h.len_eq hids hnone
      exact .inr ⟨hfull, h.below hids hfull⟩
  · rintro (rfl | ⟨hfull, hbelow⟩)
    · exact restores_of_below hids hheld (.inl rfl) fun _ _ _ x hx => nomatch hx
    · exact restores_of_below hids hheld (.inr hfull) (hfull ▸ hbelow)

end

end MeshStore

end Scm.Drift
