import Scm.Drift.StoreLoad
import Scm.OrderedStore
import Scm.Runs

/-!
# A mesh store and its backend — `core/src/drift/store.rs`, `MeshStore::save`

`save` puts every message under `drift:<id>` and deletes nothing. So the backend holds, beside
what the store held at the last save, the leftovers: messages of earlier saves that were
removed, expired or evicted since (`Mirrors.save`). `load` inserts them all: a leftover comes
back, or one of the messages that should come back is evicted for it (`load_restores_iff`).

The backend does not fail. Where it lists its rows in no particular order (the one in memory),
a load may meet them in any; the theorem is about all orders.
-/

namespace Scm.Drift

open List Bytes Bincode Collections OrderedStore Runs StoredEnvelope MeshStore

/-- `b"drift:"`. -/
def driftPrefix : Bytes := utf8 "drift:"

/-- `[b"drift:", id.as_slice()].concat()`. -/
def driftKey (id : MessageId) : Bytes := driftPrefix ++ id.toList

theorem driftKey_inj {id id' : MessageId} (h : driftKey id = driftKey id') : id = id' :=
  Vector.toList_inj.mp (append_cancel_left h)

theorem driftPrefix_isPrefixOf (id : MessageId) : driftPrefix.isPrefixOf (driftKey id) = true := by
  rw [ isPrefixOf_iff_prefix]
  exact prefix_append _ _

namespace StoredEnvelope

/-- The length of the envelope's bytes fits a `usize`. -/
def Fits (e : StoredEnvelope) : Prop := e.envelopeData.length < 2 ^ 64

theorem deserialize_serialize {e : StoredEnvelope} (h : e.Fits) :
    deserialize read e.serialize = some e := by
  have hread : read e.serialize = some (e, []) := by
    unfold read serialize
    rw [← append_nil (leBytes 8 e.receivedAt.toNat)]
    simp only [append_assoc, cons_append, nil_append]
    simp only [bind_eq _ (bytes_append h _), bind_eq _ (array_append _ _),
      bind_eq _ (u32_append _ _), bind_eq _ (u8_append _ _), bind_eq _ (u64_append _ _)]
    rfl
  rw [deserialize, hread]
  rfl

/-- What `save` writes for it. -/
def row (e : StoredEnvelope) : Bytes × Bytes := (driftKey e.messageId, e.serialize)

end StoredEnvelope

namespace MeshStore

/-- `MeshStore::save`. -/
def save (s : MeshStore) (backend : ByteStore) : ByteStore :=
  s.messages.entries.foldl
    (fun backend entry => backend.put (driftKey entry.1) entry.2.serialize) backend

end MeshStore

/-! ## What the backend holds -/

/-- The backend holds these envelopes, each under its own id, and nothing else. -/
structure Mirrors (backend : ByteStore) (records : List StoredEnvelope) : Prop where
  rows : backend.entries.Perm (records.map row)
  ids : (records.map messageId).Nodup
  fits : ∀ e ∈ records, e.Fits

namespace Mirrors

variable {backend : ByteStore} {records records' : List StoredEnvelope}

theorem perm (h : Mirrors backend records) (hperm : records.Perm records') :
    Mirrors backend records' where
  rows := h.rows.trans (hperm.map _)
  ids := (hperm.map _).nodup_iff.mp h.ids
  fits e he := h.fits e (hperm.mem_iff.mpr he)

theorem put (h : Mirrors backend records) {e : StoredEnvelope} (he : e.Fits) :
    Mirrors (backend.put (driftKey e.messageId) e.serialize)
      (e :: records.filter fun r => r.messageId ≠ e.messageId) where
  rows := by
    refine Store.put_rows h.rows _ _ _ fun r _ => ?_
    rw [decide_eq_true_iff]
    exact ⟨fun hne heq => hne (driftKey_inj heq), fun hne heq => hne (congrArg driftKey heq)⟩
  ids := by
    rw [map_cons, nodup_cons]
    refine ⟨fun hmem => ?_, h.ids.sublist (filter_sublist.map _)⟩
    obtain ⟨r, hr, hid⟩ := mem_map.mp hmem
    exact of_decide_eq_true (mem_filter.mp hr).2 hid
  fits := forall_mem_cons.mpr ⟨he, fun r hr => h.fits r (mem_filter.mp hr).1⟩

theorem putAll {saved : List StoredEnvelope} :
    ∀ {backend : ByteStore} {records : List StoredEnvelope}, Mirrors backend records →
      (saved.map messageId).Nodup → (∀ e ∈ saved, e.Fits) →
      Mirrors (saved.foldl (fun backend e => backend.put (driftKey e.messageId) e.serialize)
        backend)
        (saved ++ records.filter fun r => r.messageId ∉ saved.map messageId) := by
  induction saved with
  | nil => simp
  | cons e saved ih =>
    intro backend records h hids hfits
    rw [map_cons, nodup_cons] at hids
    obtain ⟨he, hfits⟩ := forall_mem_cons.mp hfits
    refine (ih (h.put he) hids.2 hfits).perm ?_
    rw [filter_cons, if_pos (decide_eq_true hids.1), filter_filter]
    refine perm_middle.trans (.of_eq ?_)
    refine congrArg (e :: ·) (congrArg (saved ++ ·) (filter_congr fun r _ => ?_))
    rw [map_cons, ← Bool.decide_and, decide_eq_decide, mem_cons, not_or, and_comm]

section
variable (h : Mirrors backend records)
include h

theorem save {s : MeshStore} (hfits : ∀ e ∈ s.envelopes, e.Fits) :
    Mirrors (s.save backend)
      (s.envelopes ++ records.filter fun r => (s.get r.messageId).isNone) := by
  have hsave : s.save backend = s.envelopes.foldl
      (fun backend e => backend.put (driftKey e.messageId) e.serialize) backend := by
    unfold MeshStore.save envelopes
    rw [foldl_map]
    refine foldl_ext _ _ _ fun backend entry hentry => ?_
    rw [s.keyed entry hentry]
  rw [hsave]
  have hall := h.putAll s.nodup_envelopes hfits
  have hfilter : (records.filter fun r => r.messageId ∉ s.envelopes.map messageId)
      = records.filter fun r => (s.get r.messageId).isNone := by
    refine filter_congr fun r _ => ?_
    rw [messageId_envelopes, Bool.eq_iff_iff, decide_eq_true_iff, Option.isNone_iff_eq_none]
    exact AList.lookup_eq_none.symm
  rw [hfilter] at hall
  exact hall

theorem scanPrefix_perm :
    (backend.scanPrefix driftPrefix).Perm (records.map row) := by
  have hrows := ByteStore.scanPrefix_rows h.rows driftPrefix
  have hall : (records.filter fun r => driftPrefix.isPrefixOf (row r).1) = records :=
    filter_eq_self.mpr fun r _ => driftPrefix_isPrefixOf r.messageId
  rw [hall] at hrows
  exact hrows

theorem deserialize_row {e : StoredEnvelope} (he : e ∈ records) :
    deserialize read (row e).2 = some e :=
  deserialize_serialize (h.fits e he)

theorem filterMap_rows :
    (records.map row).filterMap
      (fun entry => deserialize read entry.2) = records := by
  rw [filterMap_map, Function.comp_def, filterMap_congr fun e he => h.deserialize_row he]
  exact filterMap_some

end

end Mirrors

/-! ## What a call may bring in -/

namespace MeshStore

variable {order : MeshStore → MeshStore} {cmp : Comparison}
  {s other : MeshStore} {e r : StoredEnvelope}

theorem mem_envelopes_order (horder : Reorders order) :
    e ∈ (order s).envelopes ↔ e ∈ s.envelopes := by
  rw [mem_envelopes, mem_envelopes, horder.get]

theorem mem_envelopes_put (h : e ∈ (s.put r).envelopes) : e = r ∨ e ∈ s.envelopes :=
  (lookup_insert_cases (mem_envelopes.mp h)).imp (·.2) fun hold => mem_envelopes.mpr hold.2

theorem mem_envelopes_evictLoop (fuel : Nat) :
    ∀ {s : MeshStore}, e ∈ (evictLoop cmp fuel s).envelopes → e ∈ s.envelopes := by
  induction fuel with
  | zero => exact id
  | succ fuel ih =>
    intro s h
    rw [evictLoop] at h
    split at h
    next =>
      split at h
      next lowest _ => exact mem_envelopes.mpr (lookup_of_lookup_erase (mem_envelopes.mp (ih h)))
      next => exact h
    next => exact h

theorem mem_envelopes_insertIn (horder : Reorders order)
    (h : e ∈ (s.insertIn order cmp r).2.envelopes) : e = r ∨ e ∈ s.envelopes := by
  unfold insertIn at h
  split at h
  next => exact .inr h
  next => exact mem_envelopes_put ((mem_envelopes_order horder).mp (mem_envelopes_evictLoop _ h))

theorem mem_envelopes_mergeLoop (entries : List (Sigma fun _ : MessageId => StoredEnvelope)) :
    ∀ {s : MeshStore}, e ∈ (entries.foldl
      (fun s entry => if (s.get entry.1).isSome then s else s.put entry.2) s).envelopes →
      e ∈ s.envelopes ∨ e ∈ entries.map Sigma.snd := by
  induction entries with
  | nil => exact .inl
  | cons entry entries ih => grind [mem_envelopes_put]

theorem mem_envelopes_mergeIn (horder : Reorders order)
    (h : e ∈ (s.mergeIn order cmp other).envelopes) : e ∈ s.envelopes ∨ e ∈ other.envelopes :=
  mem_envelopes_mergeLoop _ ((mem_envelopes_order horder).mp (mem_envelopes_evictLoop _ h))

theorem withinBudget_mergeIn (cmp : Comparison) (other : MeshStore) {capacity : Nat}
    (horder : Reorders order) (h : WithinBudget capacity s) :
    WithinBudget capacity (s.mergeIn order cmp other) :=
  withinBudget_evict cmp ((horder _).2.trans ((maxMessages_mergeLoop _ _).trans h.1))

end MeshStore

/-! ## Runs -/

/-- What an eviction meets: the map's iteration order, and how the scores compare. -/
structure EvictionReading where
  order : MeshStore → MeshStore
  reorders : MeshStore.Reorders order
  cmp : Comparison

inductive StoreCall where
  | insert (reading : EvictionReading) (envelope : StoredEnvelope)
  | remove (id : MessageId)
  | removeExpired (now : UInt32)
  | merge (reading : EvictionReading) (other : MeshStore)
  | save

/-- The envelopes that come with a call fit. -/
def StoreCall.Fits : StoreCall → Prop
  | .insert _ envelope => envelope.Fits
  | .merge _ other => ∀ e ∈ other.envelopes, e.Fits
  | _ => True

/-- A store, and the backend that only it uses. -/
structure PersistedStore where
  store : MeshStore
  backend : ByteStore

namespace PersistedStore

def new (capacity : Nat) : PersistedStore := ⟨.withCapacity capacity, .empty⟩

def step (p : PersistedStore) : StoreCall → PersistedStore
  | .insert reading envelope =>
    { p with store := (p.store.insertIn reading.order reading.cmp envelope).2 }
  | .remove id => { p with store := (p.store.remove id).2 }
  | .removeExpired now => { p with store := (p.store.removeExpired now).2 }
  | .merge reading other => { p with store := p.store.mergeIn reading.order reading.cmp other }
  | .save => { p with backend := p.store.save p.backend }

/-- What the backend has of earlier saves that the store does not hold any more. -/
def leftovers (p : PersistedStore) : List StoredEnvelope :=
  ((p.backend.scanPrefix driftPrefix).filterMap fun entry =>
    deserialize read entry.2).filter fun e => (p.store.get e.messageId).isNone

/-- What holds at every point of a run: the store is within its capacity, its envelopes fit,
and the backend holds envelopes under their ids. -/
structure Valid (capacity : Nat) (p : PersistedStore) : Prop where
  within : p.store.WithinBudget capacity
  fits : ∀ e ∈ p.store.envelopes, e.Fits
  mirrors : ∃ records, Mirrors p.backend records

section
variable {capacity : Nat} {p : PersistedStore}

theorem valid_new (capacity : Nat) : (new capacity).Valid capacity :=
  ⟨⟨rfl, Nat.zero_le _⟩, nofun, [], .refl _, .nil, nofun⟩

theorem Valid.step {call : StoreCall} (h : p.Valid capacity) (hcall : call.Fits) :
    (p.step call).Valid capacity := by
  cases call with
  | insert reading envelope =>
    refine ⟨?_, fun e he => ?_, h.mirrors⟩
    · exact withinBudget_insertIn reading.cmp envelope reading.reorders h.within
    · rcases mem_envelopes_insertIn reading.reorders he with rfl | hold
      · exact hcall
      · exact h.fits e hold
  | remove id =>
    exact ⟨⟨h.within.1, Nat.le_trans (kerase_sublist id _).length_le h.within.2⟩,
      fun e he => h.fits e (((kerase_sublist id _).map _).subset he), h.mirrors⟩
  | removeExpired now =>
    exact ⟨⟨h.within.1, Nat.le_trans (len_retain_le _ _) h.within.2⟩,
      fun e he => h.fits e ((filter_sublist.map _).subset he), h.mirrors⟩
  | merge reading other =>
    refine ⟨?_, fun e he => ?_, h.mirrors⟩
    · exact withinBudget_mergeIn reading.cmp other reading.reorders h.within
    · rcases mem_envelopes_mergeIn reading.reorders he with hold | hother
      · exact h.fits e hold
      · exact hcall e hother
  | save =>
    obtain ⟨records, hmirrors⟩ := h.mirrors
    exact ⟨h.within, h.fits, _, hmirrors.save h.fits⟩

theorem valid_run {calls : List StoreCall} (hcalls : ∀ call ∈ calls, call.Fits) :
    (run step (new capacity) calls).Valid capacity := by
  have halong : Along step (fun _ call => call.Fits) (new capacity) calls :=
    along_iff.mpr fun before call after hsplit =>
      hcalls call (hsplit ▸ mem_append_right _ mem_cons_self)
  exact run_invariant (fun _ _ h hcall => h.step hcall) calls _ (valid_new capacity) halong

theorem backend_run {calls : List StoreCall} (hcalls : ∀ call ∈ calls, call ≠ .save) :
    ∀ p : PersistedStore, (run step p calls).backend = p.backend := by
  induction calls with
  | nil => exact fun _ => rfl
  | cons call calls ih =>
    intro p
    obtain ⟨hcall, hcalls⟩ := forall_mem_cons.mp hcalls
    rw [run_cons, ih hcalls]
    cases call with
    | save => exact absurd rfl hcall
    | _ => rfl

/-- After a save the backend holds what the store holds, and the leftovers. -/
theorem Valid.mirrors_save (h : p.Valid capacity) :
    Mirrors (p.store.save p.backend) (p.store.envelopes ++ p.leftovers) := by
  obtain ⟨records, hmirrors⟩ := h.mirrors
  refine (hmirrors.save h.fits).perm (.append_left _ (List.Perm.filter _ ?_))
  refine .trans ?_ ((hmirrors.scanPrefix_perm.filterMap _).symm)
  rw [hmirrors.filterMap_rows]

end

/-- **What a load brings back.** A store and its backend are used until a last save, and the
store after it. Loading an empty store of the same capacity brings back the messages held at
that save, however the backend lists them and the maps iterate, exactly when there are no
leftovers, or the store was full and every leftover is below all messages held whenever the
load evicts. -/
theorem load_restores_iff (capacity : Nat) (before after : List StoreCall)
    (hfits : ∀ call ∈ before, call.Fits) (hafter : ∀ call ∈ after, call ≠ .save)
    (cmp : Nat → Comparison) :
    let last := run step (new capacity) before
    let final := run step (new capacity) (before ++ .save :: after)
    (∀ order, (∀ k, MeshStore.Reorders (order k)) →
      ∀ listing : List (Bytes × Bytes), listing.Perm (final.backend.scanPrefix driftPrefix) → ∀ id,
        ((withCapacity capacity).loadIn order cmp (listing.map Prod.snd)).2.get id
          = last.store.get id) ↔
    last.leftovers = [] ∨
      (last.store.len = capacity ∧ ∀ k, capacity ≤ k → k < capacity + last.leftovers.length →
        ∀ x ∈ last.leftovers, ∀ y ∈ last.store.envelopes, MeshStore.Below (cmp k) x y) := by
  intro last final
  have hvalid : last.Valid capacity := valid_run hfits
  have hmirrors := hvalid.mirrors_save
  have hbackend : final.backend = last.store.save last.backend := by
    show (run step (new capacity) (before ++ .save :: after)).backend = _
    rw [run_append, run_cons, backend_run hafter]
    rfl
  rw [← restores_iff hmirrors.ids hvalid.within.2, hbackend]
  have hscan := hmirrors.scanPrefix_perm
  constructor
  · intro h order horder listed hperm id
    have hfit : ∀ e ∈ listed, e.Fits := fun e he => hmirrors.fits e (hperm.mem_iff.mp he)
    have hload := h order horder (listed.map StoredEnvelope.row)
      ((hperm.map _).trans hscan.symm) id
    rw [map_map] at hload
    rw [← hload]
    refine congrArg (MeshStore.get · id) (loadIn_serialize _ fun e he => ?_).symm
    exact StoredEnvelope.deserialize_serialize (hfit e he)
  · intro h order horder listing hperm id
    obtain ⟨listed, hlisted, rfl⟩ := exists_perm_map (hperm.trans hscan)
    have hfit : ∀ e ∈ listed, e.Fits := fun e he => hmirrors.fits e (hlisted.mem_iff.mp he)
    rw [← h order horder listed hlisted id, map_map]
    refine congrArg (MeshStore.get · id) (loadIn_serialize _ fun e he => ?_)
    exact StoredEnvelope.deserialize_serialize (hfit e he)

/-- No eviction takes place here, and the order does not matter. -/
def quietEviction : EvictionReading := ⟨id, reorders_id, fun _ _ => .eq⟩

/-- Two messages, saved one after the other. -/
theorem load_restores_two :
    let before : List StoreCall := [.insert quietEviction (sampleStored 1), .save,
      .insert quietEviction (sampleStored 2)]
    ∀ order, (∀ k, MeshStore.Reorders (order k)) →
      ∀ listing : List (Bytes × Bytes),
        listing.Perm ((run step (new 2) (before ++ [.save])).backend.scanPrefix driftPrefix) → ∀ id,
        ((withCapacity 2).loadIn order (fun _ _ _ => .eq) (listing.map Prod.snd)).2.get id
          = (run step (new 2) before).store.get id := by
  intro before
  have hfits : ∀ call ∈ before, call.Fits := by
    have hone : ∀ k, (sampleStored k).Fits := fun _ => show 1 < 2 ^ 64 by decide
    exact forall_mem_cons.mpr ⟨hone 1, forall_mem_cons.mpr ⟨trivial,
      forall_mem_cons.mpr ⟨hone 2, nofun⟩⟩⟩
  exact (load_restores_iff 2 before [] hfits nofun fun _ _ _ => .eq).mpr
    (.inl (by decide +kernel))

/-- A message that was removed before the last save is back after a load. -/
theorem removed_message_returns :
    let before : List StoreCall := [.insert quietEviction (sampleStored 1), .save,
      .remove (idOfNat 1)]
    let final := run step (new Drift.maxMessages) (before ++ [.save])
    (run step (new Drift.maxMessages) before).store.get (idOfNat 1) = none ∧
    ((withCapacity Drift.maxMessages).loadIn (fun _ => id) (fun _ _ _ => .eq)
        ((final.backend.scanPrefix driftPrefix).map Prod.snd)).2.get (idOfNat 1)
      = some (sampleStored 1) := by
  decide +kernel

end PersistedStore

end Scm.Drift
