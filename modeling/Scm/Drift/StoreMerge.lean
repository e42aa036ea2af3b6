import Scm.Drift.Store
import Scm.TopSelection
import Mathlib.Algebra.Order.Field.Rat

/-!
# Stores that evict still converge — `core/src/drift/store.rs`, `MeshStore::merge`

The mesh store calls itself a grow-only set, with the caveat that eviction breaks that: what
one store has dropped, a merge may bring back. What eviction does not break is agreement:
at a fixed reading of the clock, with scores that tell the messages apart, a store of
capacity `c` holds the `c` of highest score it was ever given (`merge_converges`).

The argument is about sets of message ids. `ids_evict` says that the eviction loop leaves
the top of what is there, whatever order the map iterates in; `Scm.TopSelection` says that
tops can be taken early or late.
-/

namespace Scm.Drift

open List AList Collections TopSelection

/-- `StoredEnvelope::priority_score` at the clock reading `now`, in rational arithmetic;
`exp` is the exponential. -/
def StoredEnvelope.priorityScore (exp : ℚ → ℚ) (now : Nat) (e : StoredEnvelope) : ℚ :=
  let ageHours : ℚ := ((now : ℚ) - e.createdAt.toNat) / 3600
  let recency := exp (-ageHours / 24)
  let hopPenalty : ℚ := 1 / (1 + e.hopCount.toNat)
  let ttlFactor : ℚ :=
    if e.ttlExpiry = 0 then 1
    else
      let totalLifetime : ℚ := (e.ttlExpiry.toNat : ℚ) - e.createdAt.toNat
      let remaining : ℚ := (e.ttlExpiry.toNat : ℚ) - now
      if totalLifetime ≤ 0 ∨ remaining ≤ 0 then 0
      else max 0 (min 1 (remaining / totalLifetime))
  (e.priority.toNat : ℚ) * recency * hopPenalty * ttlFactor

namespace MeshStore

/-- `MeshStore::merge` for a map that iterates in the given order once the other store's
messages are in it. -/
def mergeIn (order : MeshStore → MeshStore) (cmp : Comparison) (s other : MeshStore) : MeshStore :=
  (order (other.messages.entries.foldl
    (fun s entry => if (s.get entry.1).isSome then s else s.put entry.2) s)).evictIfOverBudget cmp

/-- The messages of a family, inserted one after another, each into a map in some order. -/
def insertAll (env : MessageId → StoredEnvelope) (cmp : Comparison) (s : MeshStore)
    (arrivals : List ((MeshStore → MeshStore) × MessageId)) : MeshStore :=
  arrivals.foldl (fun s arrival => (s.insertIn arrival.1 cmp (env arrival.2)).2) s

/-! ## The ids of a store -/

def ids (s : MeshStore) : Finset MessageId := s.messages.keys.toFinset

section
variable {s t : MeshStore} {id : MessageId}

theorem mem_ids : id ∈ s.ids ↔ (s.get id).isSome = true := by
  unfold ids
  rw [mem_toFinset]
  exact lookup_isSome.symm

variable (s : MeshStore)

theorem card_ids : s.ids.card = s.len := by
  unfold ids len Collections.len
  rw [toFinset_card_of_nodup s.messages.keys_nodup]
  exact length_map _

theorem ids_erase (id : MessageId) : (s.erase id).ids = s.ids.erase id := by
  ext other
  rw [Finset.mem_erase, mem_ids, mem_ids]
  show (AList.lookup other (s.messages.erase id)).isSome = true ↔
    other ≠ id ∧ (AList.lookup other s.messages).isSome = true
  rw [lookup_isSome, lookup_isSome, mem_erase]

theorem ids_put (e : StoredEnvelope) : (s.put e).ids = Insert.insert e.messageId s.ids := by
  ext other
  rw [Finset.mem_insert, mem_ids, mem_ids]
  show (AList.lookup other (s.messages.insert e.messageId e)).isSome = true ↔
    other = e.messageId ∨ (AList.lookup other s.messages).isSome = true
  rw [lookup_isSome, lookup_isSome, mem_insert]

theorem Reorders.ids {order : MeshStore → MeshStore} (h : Reorders order) (s : MeshStore) :
    (order s).ids = s.ids := by
  ext other
  rw [mem_ids, mem_ids, h.get]

end

/-! ## Stores filled from a family -/

section
variable (env : MessageId → StoredEnvelope) (family : Set MessageId)

/-- The store holds members of the family, under their ids. -/
def Holds (s : MeshStore) : Prop := ∀ id e, s.get id = some e → id ∈ family ∧ e = env id

/-- A store of capacity `c` that was filled from the family. -/
structure FilledFrom (c : Nat) (s : MeshStore) : Prop where
  capacity : s.maxMessages = c
  within : s.len ≤ c
  holds : s.Holds env family

/-- The store holds, of the set, the `c` members of highest score, and nothing else. -/
def HoldsHighest {δ : Type} [LinearOrder δ] (score : StoredEnvelope → δ) (c : Nat)
    (S : Finset MessageId) (s : MeshStore) : Prop :=
  ∃ T ⊆ S, T.card = min c S.card ∧
    (∀ kept ∈ T, ∀ other ∈ S, other ∉ T → score (env other) < score (env kept)) ∧
    ∀ id, s.get id = if id ∈ T then some (env id) else none

variable {env family} {s t : MeshStore} {id : MessageId}

theorem Holds.get_eq (h : s.Holds env family) (id : MessageId) :
    s.get id = if id ∈ s.ids then some (env id) else none := by
  cases hget : s.get id with
  | none => simp_all [mem_ids]
  | some e =>
    rw [if_pos (mem_ids.mpr (by rw [hget]; rfl)), (h id e hget).2]

theorem Holds.subset (h : s.Holds env family) : ↑s.ids ⊆ family := by
  intro id hid
  obtain ⟨e, he⟩ := Option.isSome_iff_exists.mp (mem_ids.mp (Finset.mem_coe.mp hid))
  exact (h id e he).1

/-- Two stores filled from one family hold the same when they have the same ids. -/
theorem Holds.get_congr (hs : s.Holds env family) (ht : t.Holds env family) (h : s.ids = t.ids)
    (id : MessageId) : s.get id = t.get id := by
  rw [hs.get_eq, ht.get_eq, h]

theorem Holds.erase (h : s.Holds env family) (id : MessageId) : (s.erase id).Holds env family :=
  fun other e he => h other e (lookup_of_lookup_erase he)

theorem Holds.put (h : s.Holds env family) (hid : id ∈ family) (henv : (env id).messageId = id) :
    (s.put (env id)).Holds env family := by
  intro other e he
  rcases lookup_insert_cases he with ⟨rfl, rfl⟩ | ⟨-, hold⟩
  · rw [henv]
    exact ⟨hid, rfl⟩
  · exact h other e hold

theorem Holds.order {order : MeshStore → MeshStore} (horder : Reorders order)
    (h : s.Holds env family) : (order s).Holds env family := by
  intro id e he
  rw [horder.get] at he
  exact h id e he

end

/-! ## What eviction leaves -/

section
variable {δ : Type} [LinearOrder δ] {score : StoredEnvelope → δ} {env : MessageId → StoredEnvelope}
  {family : Set MessageId} {s t : MeshStore} {id : MessageId}

section
variable (hinj : Set.InjOn (fun id => score (env id)) family)
include hinj

/-- The loop takes out the lowest message, again and again, and so leaves the top. -/
theorem evictLoop_top (fuel : Nat) :
    ∀ s : MeshStore, s.Holds env family → s.len ≤ s.maxMessages + fuel →
      (evictLoop (byScore score) fuel s).ids
        = top (fun id => score (env id)) s.maxMessages s.ids ∧
      (evictLoop (byScore score) fuel s).Holds env family := by
  induction fuel with
  | zero =>
    intro s hs hlen
    refine ⟨?_, hs⟩
    rw [top_of_card_le (by rw [card_ids]; omega)]
    rfl
  | succ fuel ih =>
    intro s hs hlen
    rw [evictLoop]
    by_cases hover : s.len > s.maxMessages
    · rw [if_pos hover]
      cases hmin : minBy (fun a b => byScore score a.2 b.2) s.messages.entries with
      | none =>
        have hzero : s.len = 0 := by rw [len, Collections.len, minBy_eq_none hmin, length_nil]
        omega
      | some lowest =>
        have hget : s.get lowest.1 = some lowest.2 := mem_lookup_iff.mpr (minBy_mem hmin)
        have hmem : lowest.1 ∈ s.ids := mem_ids.mpr (by rw [hget]; rfl)
        -- its score is the lowest of all ids in the store
        have hlow : ∀ other ∈ s.ids, score (env lowest.1) ≤ score (env other) := by
          intro other hother
          obtain ⟨e, he⟩ := Option.isSome_iff_exists.mp (mem_ids.mp hother)
          have hle := le_of_not_gt
            (not_lt_of_minBy score hmin ⟨other, e⟩ (mem_lookup_iff.mp he))
          rw [(hs _ _ hget).2, (hs _ _ he).2] at hle
          exact hle
        have hlen' : (s.erase lowest.1).len = s.len - 1 := by
          rw [← card_ids, ← card_ids, ids_erase, Finset.card_erase_of_mem hmem]
        obtain ⟨hids, hholds⟩ := ih (s.erase lowest.1) (hs.erase _)
          (by rw [maxMessages_erase]; omega)
        refine ⟨?_, hholds⟩
        rw [hids, ids_erase]
        exact top_erase_lowest (hinj.mono hs.subset) hmem hlow (by rw [card_ids]; exact hover)
    · grind [top_of_card_le, card_ids]

theorem ids_evict (hs : s.Holds env family) :
    (s.evictIfOverBudget (byScore score)).ids
      = top (fun id => score (env id)) s.maxMessages s.ids :=
  (evictLoop_top hinj s.len s hs (by omega)).1

theorem Holds.evict (hs : s.Holds env family) :
    (s.evictIfOverBudget (byScore score)).Holds env family :=
  (evictLoop_top hinj s.len s hs (by omega)).2

section
variable {c : Nat} {S : Finset MessageId} (hS : ↑S ⊆ family)
include hS

/-- A store whose ids are the top of a set of members is within the capacity. -/
theorem filledFrom_of_top (hcap : s.maxMessages = c) (hs : s.Holds env family)
    (hids : s.ids = top (fun id => score (env id)) c S) : s.FilledFrom env family c := by
  refine ⟨hcap, ?_, hs⟩
  rw [← card_ids, hids, card_top (hinj.mono hS)]
  exact Nat.min_le_left _ _

theorem holdsHighest_of_top (hs : s.Holds env family)
    (hids : s.ids = top (fun id => score (env id)) c S) : s.HoldsHighest env score c S := by
  refine ⟨top (fun id => score (env id)) c S, top_subset, card_top (hinj.mono hS), ?_, ?_⟩
  · intro kept hkept other hother hout
    have habove := lt_of_mem_of_notMem hkept hother hout
    exact habove
  · rw [← hids]
    exact hs.get_eq

end

end

/-! ## Insertions and merges -/

theorem filledFrom_withCapacity (c : Nat) : (withCapacity c).FilledFrom env family c :=
  ⟨rfl, Nat.zero_le c, nofun⟩

theorem arrivals_subset {arrivals : List ((MeshStore → MeshStore) × MessageId)}
    (harrivals : ∀ arrival ∈ arrivals, Reorders arrival.1 ∧ arrival.2 ∈ family) :
    ↑(arrivals.map Prod.snd).toFinset ⊆ family := by
  intro id hid
  obtain ⟨arrival, harrival, rfl⟩ := mem_map.mp (mem_toFinset.mp hid)
  exact (harrivals arrival harrival).2

section
variable (hid : ∀ id ∈ family, (env id).messageId = id)
include hid

theorem mergeLoop_spec (entries : List (Sigma fun _ : MessageId => StoredEnvelope)) :
    ∀ s : MeshStore, s.Holds env family →
      (∀ entry ∈ entries, entry.1 ∈ family ∧ entry.2 = env entry.1) →
      (entries.foldl (fun s entry => if (s.get entry.1).isSome then s else s.put entry.2) s).ids
        = s.ids ∪ entries.keys.toFinset ∧
      (entries.foldl (fun s entry => if (s.get entry.1).isSome then s else s.put entry.2)
        s).Holds env family := by
  induction entries with
  | nil => exact fun s hs _ => ⟨(Finset.union_empty _).symm, hs⟩
  | cons entry entries ih =>
    intro s hs hentries
    obtain ⟨⟨hmember, hentry⟩, hrest⟩ := forall_mem_cons.mp hentries
    rw [foldl_cons, keys_cons, toFinset_cons, Finset.union_insert]
    by_cases hhas : (s.get entry.1).isSome = true
    · grind [mem_ids]
    · rw [if_neg hhas, hentry]
      obtain ⟨hids, hholds⟩ := ih _ (hs.put hmember (hid _ hmember)) hrest
      refine ⟨?_, hholds⟩
      rw [hids, ids_put, hid _ hmember, Finset.insert_union]

variable (hinj : Set.InjOn (fun id => score (env id)) family) {c : Nat}
include hinj

section
variable {order : MeshStore → MeshStore} (horder : Reorders order) (hs : s.Holds env family)
include horder hs

theorem mergeIn_spec (ht : t.Holds env family) :
    (s.mergeIn order (byScore score) t).ids
      = top (fun id => score (env id)) s.maxMessages (s.ids ∪ t.ids) ∧
    (s.mergeIn order (byScore score) t).Holds env family ∧
    (s.mergeIn order (byScore score) t).maxMessages = s.maxMessages := by
  obtain ⟨hids, hholds⟩ := mergeLoop_spec hid t.messages.entries s hs fun entry hentry =>
    ht entry.1 entry.2 (mem_lookup_iff.mpr hentry)
  have hmax := maxMessages_mergeLoop t.messages.entries s
  unfold mergeIn
  refine ⟨?_, (hholds.order horder).evict hinj, ?_⟩
  · rw [ids_evict hinj (hholds.order horder), horder.ids, hids, (horder _).2, hmax]
    rfl
  · rw [maxMessages_evict, (horder _).2, hmax]

theorem insertIn_spec (hwithin : s.len ≤ s.maxMessages) (hmember : id ∈ family) :
    (s.insertIn order (byScore score) (env id)).2.ids
      = top (fun id => score (env id)) s.maxMessages (Insert.insert id s.ids) ∧
    (s.insertIn order (byScore score) (env id)).2.Holds env family ∧
    (s.insertIn order (byScore score) (env id)).2.maxMessages = s.maxMessages := by
  unfold insertIn
  rw [hid id hmember]
  by_cases hhas : (s.get id).isSome = true
  · simp_all [mem_ids, top_of_card_le, card_ids]
  · have hput := hs.put hmember (hid id hmember)
    rw [if_neg hhas]
    refine ⟨?_, (hput.order horder).evict hinj, ?_⟩
    · rw [ids_evict hinj (hput.order horder), horder.ids, (horder _).2, ids_put, hid id hmember]
      rfl
    · rw [maxMessages_evict, (horder _).2]
      rfl

end

/-- The run of insertions: at its end the store is the top of all that was in it or came. -/
theorem insertAll_spec (arrivals : List ((MeshStore → MeshStore) × MessageId)) :
    ∀ s : MeshStore, s.FilledFrom env family c →
      (∀ arrival ∈ arrivals, Reorders arrival.1 ∧ arrival.2 ∈ family) →
      (insertAll env (byScore score) s arrivals).FilledFrom env family c ∧
      (insertAll env (byScore score) s arrivals).ids = top (fun id => score (env id)) c
        (s.ids ∪ (arrivals.map Prod.snd).toFinset) := by
  induction arrivals with
  | nil =>
    intro s hs _
    refine ⟨hs, ?_⟩
    rw [map_nil, toFinset_nil, Finset.union_empty,
      top_of_card_le (by rw [card_ids]; exact hs.within)]
    rfl
  | cons arrival arrivals ih =>
    intro s hs harrivals
    obtain ⟨⟨horder, hmember⟩, hrest⟩ := forall_mem_cons.mp harrivals
    obtain ⟨hids, hholds, hcap⟩ := insertIn_spec hid hinj horder hs.holds
      (by rw [hs.capacity]; exact hs.within) hmember
    rw [hs.capacity] at hids hcap
    have hS : ↑(Insert.insert arrival.2 s.ids) ⊆ family := by
      rw [Finset.coe_insert]
      exact Set.insert_subset hmember hs.holds.subset
    obtain ⟨hfilled, htop⟩ := ih _ (filledFrom_of_top hinj hS hcap hholds hids) hrest
    refine ⟨hfilled, ?_⟩
    rw [map_cons, toFinset_cons, Finset.union_insert, ← Finset.insert_union,
      ← top_union_top (hinj.mono hS), ← hids]
    exact htop

theorem insertAll_withCapacity (c : Nat) {arrivals : List ((MeshStore → MeshStore) × MessageId)}
    (harrivals : ∀ arrival ∈ arrivals, Reorders arrival.1 ∧ arrival.2 ∈ family) :
    (insertAll env (byScore score) (withCapacity c) arrivals).FilledFrom env family c ∧
    (insertAll env (byScore score) (withCapacity c) arrivals).ids
      = top (fun id => score (env id)) c (arrivals.map Prod.snd).toFinset := by
  obtain ⟨hfilled, hids⟩ := insertAll_spec hid hinj arrivals _ (filledFrom_withCapacity c) harrivals
  refine ⟨hfilled, ?_⟩
  rw [hids]
  exact congrArg _ (Finset.empty_union _)

/-! ## Merging filled stores -/

section
variable {order : MeshStore → MeshStore} (horder : Reorders order) (hs : s.FilledFrom env family c)
  (ht : t.FilledFrom env family c)
include horder hs ht

theorem FilledFrom.ids_merge :
    (s.mergeIn order (byScore score) t).ids
      = top (fun id => score (env id)) c (s.ids ∪ t.ids) := by
  rw [(mergeIn_spec hid hinj horder hs.holds ht.holds).1, hs.capacity]

theorem FilledFrom.merge : (s.mergeIn order (byScore score) t).FilledFrom env family c := by
  obtain ⟨-, hholds, hcap⟩ := mergeIn_spec hid hinj horder hs.holds ht.holds
  refine filledFrom_of_top hinj ?_ (hcap.trans hs.capacity) hholds
    (hs.ids_merge hid hinj horder ht)
  rw [Finset.coe_union]
  exact Set.union_subset hs.holds.subset ht.holds.subset

end

/-- Taking the top of two stores first, in one order of merging or the other, loses nothing. -/
theorem FilledFrom.ids_merge_merge {order order' : MeshStore → MeshStore} {u : MeshStore}
    (horder : Reorders order) (horder' : Reorders order') (hs : s.FilledFrom env family c)
    (ht : t.FilledFrom env family c) (hu : u.FilledFrom env family c) :
    ((s.mergeIn order (byScore score) t).mergeIn order' (byScore score) u).ids
        = top (fun id => score (env id)) c (s.ids ∪ t.ids ∪ u.ids) ∧
    (u.mergeIn order' (byScore score) (s.mergeIn order (byScore score) t)).ids
        = top (fun id => score (env id)) c (s.ids ∪ t.ids ∪ u.ids) := by
  have hst := hs.merge hid hinj horder ht
  have hsub : ↑(s.ids ∪ t.ids) ⊆ family := by
    rw [Finset.coe_union]
    exact Set.union_subset hs.holds.subset ht.holds.subset
  have htop : top (fun id => score (env id)) c ((s.mergeIn order (byScore score) t).ids ∪ u.ids)
      = top (fun id => score (env id)) c (s.ids ∪ t.ids ∪ u.ids) := by
    rw [hs.ids_merge hid hinj horder ht, top_union_top (hinj.mono hsub)]
  refine ⟨?_, ?_⟩
  · rw [hst.ids_merge hid hinj horder' hu, htop]
  · rw [hu.ids_merge hid hinj horder' hst, Finset.union_comm, htop]

end

end

/-- **Convergence under eviction.** At a fixed clock reading, for stores of capacity `c`
filled from a family with one envelope for each id and no two scores alike, and whatever
orders the maps iterate in: merging is commutative, associative and idempotent; inserting
members of the family leaves the `c` of highest score, however they come; and so does
merging two stores made that way, of all their members together. -/
theorem merge_converges (exp : ℚ → ℚ) (now : Nat) (c : Nat) (env : MessageId → StoredEnvelope)
    (family : Set MessageId) (hid : ∀ id ∈ family, (env id).messageId = id)
    (hscore : Set.InjOn (fun id => (env id).priorityScore exp now) family) :
    (∀ order order' : MeshStore → MeshStore, Reorders order → Reorders order' →
      ∀ s t : MeshStore, s.FilledFrom env family c → t.FilledFrom env family c → ∀ id,
        (s.mergeIn order (byScore (StoredEnvelope.priorityScore exp now)) t).get id
          = (t.mergeIn order' (byScore (StoredEnvelope.priorityScore exp now)) s).get id) ∧
    (∀ order₁ order₂ order₃ order₄ : MeshStore → MeshStore, Reorders order₁ → Reorders order₂ →
      Reorders order₃ → Reorders order₄ → ∀ s t u : MeshStore, s.FilledFrom env family c →
        t.FilledFrom env family c → u.FilledFrom env family c → ∀ id,
        ((s.mergeIn order₁ (byScore (StoredEnvelope.priorityScore exp now)) t).mergeIn order₂
            (byScore (StoredEnvelope.priorityScore exp now)) u).get id
          = (s.mergeIn order₃ (byScore (StoredEnvelope.priorityScore exp now))
              (t.mergeIn order₄ (byScore (StoredEnvelope.priorityScore exp now)) u)).get id) ∧
    (∀ order : MeshStore → MeshStore, Reorders order → ∀ s : MeshStore,
      s.FilledFrom env family c → ∀ id,
        (s.mergeIn order (byScore (StoredEnvelope.priorityScore exp now)) s).get id = s.get id) ∧
    (∀ arrivals : List ((MeshStore → MeshStore) × MessageId),
      (∀ arrival ∈ arrivals, Reorders arrival.1 ∧ arrival.2 ∈ family) →
        (insertAll env (byScore (StoredEnvelope.priorityScore exp now)) (withCapacity c)
          arrivals).HoldsHighest env (StoredEnvelope.priorityScore exp now) c
            (arrivals.map Prod.snd).toFinset) ∧
    (∀ order : MeshStore → MeshStore, Reorders order →
      ∀ arrivals arrivals' : List ((MeshStore → MeshStore) × MessageId),
        (∀ arrival ∈ arrivals, Reorders arrival.1 ∧ arrival.2 ∈ family) →
        (∀ arrival ∈ arrivals', Reorders arrival.1 ∧ arrival.2 ∈ family) →
        ((insertAll env (byScore (StoredEnvelope.priorityScore exp now)) (withCapacity c)
            arrivals).mergeIn order (byScore (StoredEnvelope.priorityScore exp now))
          (insertAll env (byScore (StoredEnvelope.priorityScore exp now)) (withCapacity c)
            arrivals')).HoldsHighest env (StoredEnvelope.priorityScore exp now) c
            ((arrivals.map Prod.snd).toFinset ∪ (arrivals'.map Prod.snd).toFinset)) := by
  refine ⟨?_, ?_, ?_, ?_, ?_⟩
  · intro order order' ho ho' s t hs ht
    refine (hs.merge hid hscore ho ht).holds.get_congr (ht.merge hid hscore ho' hs).holds ?_
    rw [hs.ids_merge hid hscore ho ht, ht.ids_merge hid hscore ho' hs, Finset.union_comm]
  · intro order₁ order₂ order₃ order₄ ho₁ ho₂ ho₃ ho₄ s t u hs ht hu
    refine ((hs.merge hid hscore ho₁ ht).merge hid hscore ho₂ hu).holds.get_congr
      (hs.merge hid hscore ho₃ (ht.merge hid hscore ho₄ hu)).holds ?_
    rw [(hs.ids_merge_merge hid hscore ho₁ ho₂ ht hu).1,
      (ht.ids_merge_merge hid hscore ho₄ ho₃ hu hs).2, Finset.union_comm _ s.ids,
      Finset.union_assoc]
  · intro order ho s hs
    refine (hs.merge hid hscore ho hs).holds.get_congr hs.holds ?_
    rw [hs.ids_merge hid hscore ho hs, Finset.union_self,
      top_of_card_le (by rw [card_ids]; exact hs.within)]
  · intro arrivals harrivals
    obtain ⟨hfilled, hids⟩ := insertAll_withCapacity hid hscore c harrivals
    exact holdsHighest_of_top hscore (arrivals_subset harrivals) hfilled.holds hids
  · intro order ho arrivals arrivals' harrivals harrivals'
    obtain ⟨hs, hsids⟩ := insertAll_withCapacity hid hscore c harrivals
    obtain ⟨ht, htids⟩ := insertAll_withCapacity hid hscore c harrivals'
    have hsub := arrivals_subset harrivals
    have hsub' := arrivals_subset harrivals'
    refine holdsHighest_of_top hscore ?_ (hs.merge hid hscore ho ht).holds ?_
    · grind
    · -- the top of either set may be taken before the union or after it
      rw [hs.ids_merge hid hscore ho ht, hsids, htids, top_union_top (hscore.mono hsub),
        Finset.union_comm, top_union_top (hscore.mono hsub'), Finset.union_comm]

/-- Envelopes that differ in priority. -/
def rankedStored (id : MessageId) : StoredEnvelope :=
  { sampleStored 0 with messageId := id, priority := id[0] }

theorem merge_converges_demo :
    ((insertAll rankedStored (byScore (StoredEnvelope.priorityScore (fun _ => 1) 0))
        (withCapacity 2) [(id, idOfNat 1), (id, idOfNat 2)]).mergeIn id
      (byScore (StoredEnvelope.priorityScore (fun _ => 1) 0))
      (insertAll rankedStored (byScore (StoredEnvelope.priorityScore (fun _ => 1) 0))
        (withCapacity 2) [(id, idOfNat 3)])).HoldsHighest rankedStored
        (StoredEnvelope.priorityScore (fun _ => 1) 0) 2 {idOfNat 1, idOfNat 2, idOfNat 3} := by
  have hreorders : Reorders id := fun s => ⟨List.Perm.refl _, rfl⟩
  refine (merge_converges (fun _ => 1) 0 2 rankedStored {idOfNat 1, idOfNat 2, idOfNat 3}
    (fun _ _ => rfl) ?_).2.2.2.2 id hreorders [(id, idOfNat 1), (id, idOfNat 2)]
    [(id, idOfNat 3)] ?_ ?_
  · rintro a (rfl | rfl | rfl) b (rfl | rfl | rfl) h
    all_goals first | rfl | exact absurd h (by decide +kernel)
  · simp_all
  · simp_all

end MeshStore

end Scm.Drift
