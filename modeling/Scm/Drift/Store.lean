import Scm.Bincode
import Scm.Drift.Sketch
import Scm.Collections

/-!
# The mesh message store — `core/src/drift/store.rs`

A `HashMap` of envelopes by message id with a capacity: `insert` and `merge` add
what is new and then evict the lowest-scoring messages until the store is back
within budget. The map is Mathlib's `AList`, whose list order stands for the
iteration order of the `HashMap`; nothing fixes that order, so the reachable
stores (`MeshStore.Reachable`) may be reordered at any point.

The priority score is a floating-point function of the clock. It is only ever
used to compare two envelopes, so it enters as a comparator `cmp`, the one of
`evict_if_over_budget`.

Eviction brings the store down to its capacity and no further (`evictLoop_len`), so
every reachable store is within it (`Reachable.withinBudget`). What an insertion does to
a store within its budget is `insertIn_outcome`. Whether it leaves its own envelope there
is `Survives`, for floating-point scores `retained_iff`.
-/

namespace Scm.Drift

open List hiding Vector
open AList Bytes Collections Bincode

/-- `MAX_MESSAGES`. -/
def maxMessages : Nat := 10000

structure StoredEnvelope where
  envelopeData : Bytes
  messageId : MessageId
  recipientHint : Vector UInt8 4
  createdAt : UInt32
  ttlExpiry : UInt32
  hopCount : UInt8
  priority : UInt8
  receivedAt : UInt64
  deriving DecidableEq, Repr

/-- How an eviction compares two envelopes. -/
abbrev Comparison := StoredEnvelope → StoredEnvelope → Ordering

namespace StoredEnvelope

/-- `bincode::serialize(env)`. -/
def serialize (env : StoredEnvelope) : Bytes :=
  putBytes env.envelopeData ++ env.messageId.toList ++ env.recipientHint.toList ++
    leBytes 4 env.createdAt.toNat ++ leBytes 4 env.ttlExpiry.toNat ++
    [env.hopCount, env.priority] ++ leBytes 8 env.receivedAt.toNat

/-- `bincode::deserialize::<StoredEnvelope>`. -/
def read : Bincode.Reader StoredEnvelope := do
  let envelopeData ← bytes
  let messageId ← array 16
  let recipientHint ← array 4
  let createdAt ← u32
  let ttlExpiry ← u32
  let hopCount ← u8
  let priority ← u8
  let receivedAt ← u64
  return { envelopeData, messageId, recipientHint, createdAt, ttlExpiry, hopCount, priority,
           receivedAt }

end StoredEnvelope

/-- `MeshStore`. A message is filed under its own id. -/
structure MeshStore where
  messages : AList fun _ : MessageId => StoredEnvelope
  maxMessages : Nat
  keyed : ∀ entry ∈ messages.entries, entry.2.messageId = entry.1

namespace MeshStore

/-- `MeshStore::with_capacity`. -/
def withCapacity (max : Nat) : MeshStore := ⟨∅, max, fun _ h => by cases h⟩

/-- `MeshStore::new`. -/
def new : MeshStore := withCapacity Drift.maxMessages

/-- `MeshStore::get`. -/
def get (s : MeshStore) (id : MessageId) : Option StoredEnvelope := s.messages.lookup id

/-- `MeshStore::message_ids`, in iteration order. -/
def messageIds (s : MeshStore) : List MessageId := s.messages.keys

/-- `MeshStore::len`. -/
def len (s : MeshStore) : Nat := Collections.len s.messages

/-- `HashMap::remove`. -/
def erase (s : MeshStore) (id : MessageId) : MeshStore :=
  ⟨s.messages.erase id, s.maxMessages, fun entry h =>
    s.keyed entry ((kerase_sublist id s.messages.entries).subset h)⟩

/-- `MeshStore::remove`. -/
def remove (s : MeshStore) (id : MessageId) : Bool × MeshStore :=
  ((s.get id).isSome, s.erase id)

/-- Keep the messages that `keep` holds of. -/
def retain (s : MeshStore) (keep : StoredEnvelope → Bool) : MeshStore :=
  ⟨Collections.retain s.messages fun _ e => keep e, s.maxMessages,
    fun entry h => s.keyed entry (mem_of_mem_filter h)⟩

/-- `MeshStore::remove_expired` at the clock reading `now`. -/
def removeExpired (s : MeshStore) (now : UInt32) : Nat × MeshStore :=
  let kept := s.retain fun e => e.ttlExpiry = 0 || e.ttlExpiry > now
  (s.len - kept.len, kept)

/-- The loop of `evict_if_over_budget`; every round removes a message, so the
number of messages bounds the rounds. -/
def evictLoop (cmp : Comparison) : Nat → MeshStore → MeshStore
  | 0, s => s
  | fuel + 1, s =>
    if s.len > s.maxMessages then
      match minBy (fun a b => cmp a.2 b.2) s.messages.entries with
      | some lowest => evictLoop cmp fuel (s.erase lowest.1)
      | none => s
    else s

/-- `MeshStore::evict_if_over_budget`. -/
def evictIfOverBudget (cmp : Comparison) (s : MeshStore) :
    MeshStore :=
  evictLoop cmp s.len s

/-- `HashMap::insert` of an envelope under its own id. -/
def put (s : MeshStore) (envelope : StoredEnvelope) : MeshStore :=
  ⟨s.messages.insert envelope.messageId envelope, s.maxMessages, by
    intro entry h
    rw [entries_insert] at h
    rcases mem_cons.mp h with rfl | hmem
    · rfl
    · exact s.keyed entry ((kerase_sublist _ _).subset hmem)⟩

/-- `MeshStore::insert`. -/
def insert (cmp : Comparison) (s : MeshStore) (envelope : StoredEnvelope) : Bool × MeshStore :=
  if (s.get envelope.messageId).isSome then (false, s)
  else (true, (s.put envelope).evictIfOverBudget cmp)

/-- `MeshStore::merge`. The other store files its envelopes under their ids, so
`put` uses the key the source copies. -/
def merge (cmp : Comparison) (s other : MeshStore) : MeshStore :=
  (other.messages.entries.foldl
    (fun s entry => if (s.get entry.1).isSome then s else s.put entry.2) s).evictIfOverBudget cmp

/-- `MeshStore::load`: insert what the scanned values decode to. -/
def load (cmp : Comparison) (s : MeshStore) (values : List Bytes) : Nat × MeshStore :=
  values.foldl
    (fun (loaded, s) value =>
      match deserialize StoredEnvelope.read value with
      | none => (loaded, s)
      | some envelope =>
        let (isNew, s') := s.insert cmp envelope
        (if isNew then loaded + 1 else loaded, s'))
    (0, s)

/-- `MeshStore::generate_proof`; `hexHash` is the hex form of `blake3`. -/
def generateProof (hexHash : Bytes → String) (s : MeshStore) : String :=
  hexHash ((s.messageIds.mergeSort fun a b => decide (a.toList ≤ b.toList)).flatMap
    fun id => id.toList)

/-! ## How many messages a store holds -/

@[simp] theorem maxMessages_erase (s : MeshStore) (id : MessageId) :
    (s.erase id).maxMessages = s.maxMessages := rfl

@[simp] theorem maxMessages_put (s : MeshStore) (env : StoredEnvelope) :
    (s.put env).maxMessages = s.maxMessages := rfl

variable (cmp : Comparison)

/-- One round of eviction removes one message; the loop stops at the capacity. -/
theorem evictLoop_len (fuel : Nat) :
    ∀ s : MeshStore, s.len ≤ s.maxMessages + fuel →
      (evictLoop cmp fuel s).len = min s.len s.maxMessages ∧
        (evictLoop cmp fuel s).maxMessages = s.maxMessages := by
  induction fuel with
  | zero =>
    intro s h
    exact ⟨by rw [evictLoop]; omega, rfl⟩
  | succ fuel ih =>
    intro s h
    rw [evictLoop]
    by_cases hover : s.len > s.maxMessages
    · rw [if_pos hover]
      cases hmin : minBy (fun a b => cmp a.2 b.2) s.messages.entries with
      | none =>
        -- an over-full store is not empty
        have hzero : s.len = 0 := by rw [len, Collections.len, minBy_eq_none hmin, length_nil]
        omega
      | some lowest =>
        have hmem : lowest.1 ∈ s.messages :=
          AList.mem_keys.mpr (mem_keys_of_mem (minBy_mem hmin))
        have hlen : (s.erase lowest.1).len = s.len - 1 := len_erase hmem
        obtain ⟨hl, hm⟩ := ih (s.erase lowest.1) (by rw [maxMessages_erase]; omega)
        refine ⟨?_, by rw [hm, maxMessages_erase]⟩
        rw [hl, hlen, maxMessages_erase]
        omega
    · grind

theorem len_evict (s : MeshStore) :
    (s.evictIfOverBudget cmp).len = min s.len s.maxMessages :=
  (evictLoop_len cmp s.len s (by omega)).1

theorem maxMessages_evict (s : MeshStore) :
    (s.evictIfOverBudget cmp).maxMessages = s.maxMessages :=
  (evictLoop_len cmp s.len s (by omega)).2

/-- What every operation keeps: the capacity, and a number of messages within it. -/
def WithinBudget (capacity : Nat) (s : MeshStore) : Prop :=
  s.maxMessages = capacity ∧ s.len ≤ capacity

variable {capacity : Nat}

theorem withinBudget_evict {s : MeshStore} (h : s.maxMessages = capacity) :
    WithinBudget capacity (s.evictIfOverBudget cmp) := by
  refine ⟨by rw [maxMessages_evict, h], ?_⟩
  rw [len_evict, h]
  omega

theorem withinBudget_insert {s : MeshStore} (env : StoredEnvelope) (h : WithinBudget capacity s) :
    WithinBudget capacity (s.insert cmp env).2 := by
  unfold insert
  split
  · exact h
  · exact withinBudget_evict cmp h.1

theorem maxMessages_mergeLoop (entries : List (Sigma fun _ : MessageId => StoredEnvelope)) :
    ∀ s : MeshStore, (entries.foldl
      (fun s entry => if (s.get entry.1).isSome then s else s.put entry.2) s).maxMessages
        = s.maxMessages := by
  induction entries with
  | nil => intro s; rfl
  | cons entry entries ih =>
    intro s
    rw [foldl_cons, ih]
    split <;> rfl

theorem withinBudget_load {s : MeshStore} (values : List Bytes) (h : WithinBudget capacity s) :
    WithinBudget capacity (s.load cmp values).2 := by
  unfold load
  generalize 0 = loaded
  induction values generalizing loaded s with
  | nil => exact h
  | cons value values ih =>
    rw [foldl_cons]
    cases deserialize StoredEnvelope.read value with
    | none => exact ih h loaded
    | some env => exact ih (withinBudget_insert cmp env h) _

/-- The stores a node can hold when it starts from `MeshStore::new`; `reorder` is
a change of the map's iteration order. -/
inductive Reachable : MeshStore → Prop
  | new : Reachable MeshStore.new
  | insert {s : MeshStore} (cmp : Comparison)
      (env : StoredEnvelope) : Reachable s → Reachable (s.insert cmp env).2
  | merge {s : MeshStore} (cmp : Comparison) (other : MeshStore) :
      Reachable s → Reachable (s.merge cmp other)
  | remove {s : MeshStore} (id : MessageId) : Reachable s → Reachable (s.remove id).2
  | removeExpired {s : MeshStore} (now : UInt32) :
      Reachable s → Reachable (s.removeExpired now).2
  | load {s : MeshStore} (cmp : Comparison)
      (values : List Bytes) : Reachable s → Reachable (s.load cmp values).2
  | reorder {s t : MeshStore} : Reachable s → t.messages.entries.Perm s.messages.entries →
      t.maxMessages = s.maxMessages → Reachable t

theorem Reachable.withinBudget {s : MeshStore} (h : Reachable s) :
    WithinBudget Drift.maxMessages s := by
  induction h with
  | new => exact ⟨rfl, Nat.zero_le _⟩
  | insert cmp env _ ih => exact withinBudget_insert cmp env ih
  | merge cmp other _ ih =>
    exact withinBudget_evict cmp ((maxMessages_mergeLoop _ _).trans ih.1)
  | remove id _ ih =>
    exact ⟨ih.1, Nat.le_trans (kerase_sublist id _).length_le ih.2⟩
  | removeExpired now _ ih =>
    exact ⟨ih.1, Nat.le_trans (len_retain_le _ _) ih.2⟩
  | load cmp values _ ih => exact withinBudget_load cmp values ih
  | reorder _ hperm hmax ih =>
    refine ⟨hmax.trans ih.1, ?_⟩
    rw [len, Collections.len, hperm.length_eq]
    exact ih.2

/-! ## Filling a store -/

/-- The id whose bytes are the little-endian form of `k`. -/
def idOfNat (k : Nat) : MessageId := ⟨(leBytes 16 k).toArray, by simp⟩

theorem idOfNat_inj {j k : Nat} (hj : j < 256 ^ 16) (hk : k < 256 ^ 16)
    (h : idOfNat j = idOfNat k) : j = k := by
  have hbytes : leBytes 16 j = leBytes 16 k := by simp_all [idOfNat]
  rw [← ofLe_leBytes_of_lt hj, hbytes, ofLe_leBytes_of_lt hk]

/-- An envelope of one byte, filed under `idOfNat k`. -/
def sampleStored (k : Nat) : StoredEnvelope where
  envelopeData := [1]
  messageId := idOfNat k
  recipientHint := #v[0, 0, 0, 0]
  createdAt := 0
  ttlExpiry := 0
  hopCount := 0
  priority := 0
  receivedAt := 0

/-- A default store after `n` insertions of different messages. -/
def fill : Nat → MeshStore
  | 0 => new
  | n + 1 => ((fill n).insert (fun _ _ => .eq) (sampleStored n)).2

theorem fill_reachable : ∀ n, Reachable (fill n)
  | 0 => .new
  | n + 1 => .insert _ _ (fill_reachable n)

/-- Up to the capacity nothing is evicted and nothing is a duplicate. -/
theorem fill_spec : ∀ n, n ≤ Drift.maxMessages →
    (fill n).len = n ∧ ∀ id ∈ (fill n).messages, ∃ k < n, id = idOfNat k
  | 0, _ => ⟨rfl, fun _ h => by cases h⟩
  | n + 1, hn => by
    have hmax : Drift.maxMessages = 10000 := rfl
    obtain ⟨hlen, hids⟩ := fill_spec n (by omega)
    have hnew : ¬ ((fill n).get (sampleStored n).messageId).isSome := by
      intro hsome
      obtain ⟨k, hk, hid⟩ := hids _ (lookup_isSome.mp hsome)
      have := idOfNat_inj (by omega) (by omega) hid
      omega
    have hput : ((fill n).put (sampleStored n)).len = (fill n).len + 1 :=
      len_insert_of_notMem _ fun hmem => hnew (lookup_isSome.mpr hmem)
    -- within budget the eviction loop does nothing
    have hevict : ((fill n).put (sampleStored n)).evictIfOverBudget (fun _ _ => .eq)
        = (fill n).put (sampleStored n) := by
      unfold evictIfOverBudget
      rw [hput, evictLoop, if_neg]
      rw [maxMessages_put, (fill_reachable n).withinBudget.1]
      omega
    have hstep : fill (n + 1) = (fill n).put (sampleStored n) := by
      rw [fill, insert, if_neg hnew]
      exact hevict
    rw [hstep]
    refine ⟨by rw [hput, hlen], fun id hmem => ?_⟩
    rcases (mem_insert _).mp hmem with rfl | hold
    · exact ⟨n, by omega, rfl⟩
    · grind

theorem len_fill {n : Nat} (hn : n ≤ Drift.maxMessages) : (fill n).len = n := (fill_spec n hn).1

/-! ## Who is evicted -/

/-- The map in another iteration order. -/
def Reorders (order : MeshStore → MeshStore) : Prop :=
  ∀ s, (order s).messages.entries.Perm s.messages.entries ∧ (order s).maxMessages = s.maxMessages

/-- `MeshStore::insert` for a map that iterates in the given order once the envelope is
in it. -/
def insertIn (order : MeshStore → MeshStore) (cmp : Comparison) (s : MeshStore)
    (envelope : StoredEnvelope) : Bool × MeshStore :=
  if (s.get envelope.messageId).isSome then (false, s)
  else (true, (order (s.put envelope)).evictIfOverBudget cmp)

theorem reorders_id : Reorders id := fun _ => ⟨.refl _, rfl⟩

section
variable {order : MeshStore → MeshStore} (h : Reorders order) (s : MeshStore)
include h

theorem Reorders.get (id : MessageId) : (order s).get id = s.get id :=
  perm_lookup (h s).1

theorem Reorders.len : (order s).len = s.len :=
  (h s).1.length_eq

end

theorem evict_of_le {s : MeshStore} (h : s.len ≤ s.maxMessages) : s.evictIfOverBudget cmp = s := by
  unfold evictIfOverBudget
  cases s.len with
  | zero => rfl
  | succ n => exact if_neg (Nat.not_lt_of_le h)

theorem evict_of_eq_succ {cmp : Comparison} {s : MeshStore} (h : s.len = s.maxMessages + 1)
    {lowest : Sigma fun _ : MessageId => StoredEnvelope}
    (hlowest : minBy (fun a b => cmp a.2 b.2) s.messages.entries = some lowest) :
    s.evictIfOverBudget cmp = s.erase lowest.1 := by
  have hmem : lowest.1 ∈ s.messages :=
    AList.mem_keys.mpr (mem_keys_of_mem (minBy_mem hlowest))
  have hlen : (s.erase lowest.1).len = s.len - 1 := len_erase hmem
  have hstop : evictLoop cmp s.maxMessages (s.erase lowest.1) = s.erase lowest.1 := by
    cases s.maxMessages with
    | zero => rfl
    | succ n =>
      refine if_neg ?_
      rw [hlen, maxMessages_erase]
      omega
  unfold evictIfOverBudget
  rw [h]
  unfold evictLoop
  rw [if_pos (by omega), hlowest]
  exact hstop

section Retention

variable {order : MeshStore → MeshStore} {cmp : Comparison}
  {s : MeshStore} {envelope : StoredEnvelope}

theorem insertIn_of_new (hnew : s.get envelope.messageId = none) :
    s.insertIn order cmp envelope = (true, (order (s.put envelope)).evictIfOverBudget cmp) := by
  unfold insertIn
  rw [hnew]
  rfl

variable (cmp)

theorem withinBudget_insertIn {capacity : Nat} (envelope : StoredEnvelope) (horder : Reorders order)
    (h : WithinBudget capacity s) :
    WithinBudget capacity (s.insertIn order cmp envelope).2 := by
  unfold insertIn
  split
  next => exact h
  next => exact withinBudget_evict cmp ((horder _).2.trans h.1)

variable {cmp} in
theorem len_insertIn_le (horder : Reorders order) (h : s.len ≤ s.maxMessages) :
    (s.insertIn order cmp envelope).2.len ≤ (s.insertIn order cmp envelope).2.maxMessages := by
  obtain ⟨hmax, hlen⟩ := withinBudget_insertIn cmp envelope horder ⟨rfl, h⟩
  rwa [hmax]

section
variable (envelope : StoredEnvelope) (horder : Reorders order) (hbudget : s.len ≤ s.maxMessages)
  (hnew : s.get envelope.messageId = none)
include horder hbudget hnew

/-- A new envelope is put in, and the lowest message taken out when the store was full. -/
theorem insertIn_outcome :
    (s.len < s.maxMessages ∧ (s.insertIn order cmp envelope).2 = order (s.put envelope)) ∨
    (s.len = s.maxMessages ∧ ∃ lowest,
      minBy (fun a b => cmp a.2 b.2) (order (s.put envelope)).messages.entries = some lowest ∧
      (s.insertIn order cmp envelope).2 = (order (s.put envelope)).erase lowest.1) := by
  have hput : (s.put envelope).len = s.len + 1 :=
    len_insert_of_notMem _ (lookup_eq_none.mp hnew)
  have hlen : (order (s.put envelope)).len = s.len + 1 := (horder.len _).trans hput
  have hmax : (order (s.put envelope)).maxMessages = s.maxMessages := (horder _).2
  rw [insertIn_of_new hnew]
  by_cases hroom : s.len < s.maxMessages
  · exact .inl ⟨hroom, evict_of_le _ (by omega)⟩
  · refine .inr ⟨by omega, ?_⟩
    cases hmin : minBy (fun a b => cmp a.2 b.2) (order (s.put envelope)).messages.entries with
    | none =>
      have hzero : (order (s.put envelope)).len = 0 := by
        rw [len, Collections.len, minBy_eq_none hmin, length_nil]
      omega
    | some lowest => exact ⟨lowest, rfl, evict_of_eq_succ (by omega) hmin⟩

/-- What decides whether an insertion leaves its own envelope in the store: there is room, or
the search for the lowest message finds another. -/
def Survives (order : MeshStore → MeshStore) (cmp : Comparison) (s : MeshStore)
    (envelope : StoredEnvelope) : Prop :=
  s.len < s.maxMessages ∨
    ∃ lowest, minBy (fun a b => cmp a.2 b.2) (order (s.put envelope)).messages.entries
      = some lowest ∧
      lowest.1 ≠ envelope.messageId

/-- A new envelope is in the store, as it was given, exactly when it survives. -/
theorem get_insertIn :
    (Survives order cmp s envelope →
      (s.insertIn order cmp envelope).2.get envelope.messageId = some envelope) ∧
    (¬ Survives order cmp s envelope →
      (s.insertIn order cmp envelope).2.get envelope.messageId = none) := by
  have hstored : (order (s.put envelope)).get envelope.messageId = some envelope :=
    (horder.get _ _).trans (lookup_insert _)
  rcases insertIn_outcome cmp envelope horder hbudget hnew with
    ⟨hroom, hout⟩ | ⟨hfull, lowest, hmin, hout⟩
  · rw [hout]
    exact ⟨fun _ => hstored, fun hnot => absurd (.inl hroom) hnot⟩
  · rw [hout]
    constructor
    · intro hsurvives
      obtain ⟨other, hother, hne⟩ := hsurvives.resolve_left (by omega)
      cases hmin.symm.trans hother
      exact (lookup_erase_ne (Ne.symm hne)).trans hstored
    · intro hnot
      have heq : lowest.1 = envelope.messageId := by
        by_contra hne
        exact hnot (.inr ⟨lowest, hmin, hne⟩)
      rw [heq]
      exact lookup_erase _ _

end

variable {δ : Type} [Preorder δ] [DecidableLT δ] (score : StoredEnvelope → δ)

/-- The comparator of two scores, `partial_cmp(..).unwrap_or(Equal)`: floating-point scores may
be incomparable. -/
def byScore (a b : StoredEnvelope) : Ordering :=
  if score a < score b then .lt else if score b < score a then .gt else .eq

theorem byScore_eq_gt_iff {a b : StoredEnvelope} : byScore score a b = .gt ↔ score b < score a := by
  unfold byScore
  split_ifs with hlt hgt
  · exact ⟨nofun, fun h => absurd h hlt.asymm⟩
  · exact ⟨fun _ => hgt, fun _ => rfl⟩
  · exact ⟨nofun, fun h => absurd h hgt⟩

theorem not_lt_of_minBy {l : List (Sigma fun _ : MessageId => StoredEnvelope)}
    {lowest : Sigma fun _ : MessageId => StoredEnvelope}
    (h : minBy (fun a b => byScore score a.2 b.2) l = some lowest) :
    ∀ entry ∈ l, ¬ score entry.2 < score lowest.2 := by
  intro entry hentry hlt
  refine minBy_not_gt (fun a hgt => ?_) (fun a b c hab hbc => ?_) h entry hentry
    ((byScore_eq_gt_iff score).mpr hlt)
  · exact lt_irrefl _ ((byScore_eq_gt_iff score).mp hgt)
  · rw [byScore_eq_gt_iff] at hab hbc ⊢
    exact hbc.trans hab

/-- In a full store the newcomer is evicted when no score is lower and the map puts it first. -/
theorem not_survives_of_lowest (hfull : s.maxMessages ≤ s.len)
    (hnew : s.get envelope.messageId = none)
    (hlowest : ∀ entry ∈ s.messages.entries, ¬ score entry.2 < score envelope) :
    ¬ Survives id (byScore score) s envelope := by
  have hentries : (s.put envelope).messages.entries
      = ⟨envelope.messageId, envelope⟩ :: s.messages.entries :=
    entries_insert_of_notMem (lookup_eq_none.mp hnew)
  have hmin : minBy (fun a b => byScore score a.2 b.2) (s.put envelope).messages.entries
      = some ⟨envelope.messageId, envelope⟩ := by
    rw [hentries]
    exact minBy_cons_of_not_gt fun entry hentry hgt =>
      hlowest entry hentry ((byScore_eq_gt_iff score).mp hgt)
  rintro (hroom | ⟨lowest, hother, hne⟩)
  · omega
  · cases hmin.symm.trans hother
    exact hne rfl

theorem survives_of_lower (horder : Reorders order) (hnew : s.get envelope.messageId = none)
    {entry : Sigma fun _ : MessageId => StoredEnvelope} (hentry : entry ∈ s.messages.entries)
    (hlower : score entry.2 < score envelope) : Survives order (byScore score) s envelope := by
  have hmem : entry ∈ (order (s.put envelope)).messages.entries := by
    refine (horder _).1.mem_iff.mpr ?_
    have hentries : (s.put envelope).messages.entries
        = ⟨envelope.messageId, envelope⟩ :: s.messages.entries :=
      entries_insert_of_notMem (lookup_eq_none.mp hnew)
    rw [hentries]
    exact mem_cons_of_mem _ hentry
  cases hmin : minBy (fun a b => byScore score a.2 b.2)
    (order (s.put envelope)).messages.entries with
  | none =>
    rw [minBy_eq_none hmin] at hmem
    cases hmem
  | some lowest =>
    refine .inr ⟨lowest, hmin, fun heq => ?_⟩
    -- under the newcomer's id there is only the newcomer
    have hlowest := not_lt_of_minBy score hmin entry hmem
    have hlookup : (order (s.put envelope)).get lowest.1 = some lowest.2 :=
      mem_lookup_iff.mpr (minBy_mem hmin)
    have hstored : (order (s.put envelope)).get envelope.messageId = some envelope :=
      (horder.get _ _).trans (lookup_insert _)
    rw [heq, hstored] at hlookup
    rw [← Option.some.inj hlookup] at hlowest
    exact hlowest hlower

/-- **What becomes of a new envelope.** It is there after the insertion, whatever order
the map iterates in, exactly when the store has room or holds an envelope of a lower
score. -/
theorem retained_iff {s : MeshStore} (hbudget : s.len ≤ s.maxMessages) {envelope : StoredEnvelope}
    (hnew : s.get envelope.messageId = none) :
    (∀ order, Reorders order →
      ((s.insertIn order (byScore score) envelope).2.get envelope.messageId).isSome = true) ↔
    s.len < s.maxMessages ∨ ∃ entry ∈ s.messages.entries, score entry.2 < score envelope := by
  constructor
  · intro h
    by_contra hnone
    rw [not_or, not_exists] at hnone
    obtain ⟨hfull, hlowest⟩ := hnone
    have hgone := (get_insertIn (byScore score) envelope reorders_id hbudget hnew).2
      (not_survives_of_lowest score (Nat.le_of_not_lt hfull) hnew fun entry hentry hlt =>
        hlowest entry ⟨hentry, hlt⟩)
    have hout := h id reorders_id
    rw [hgone] at hout
    cases hout
  · intro h order horder
    have hsurvives : Survives order (byScore score) s envelope := by
      rcases h with hroom | ⟨entry, hentry, hlower⟩
      · exact .inl hroom
      · exact survives_of_lower score horder hnew hentry hlower
    rw [(get_insertIn (byScore score) envelope horder hbudget hnew).1 hsurvives]
    rfl

end Retention

end MeshStore

end Scm.Drift
