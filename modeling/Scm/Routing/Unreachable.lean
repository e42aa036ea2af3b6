import Scm.Routing.Engine
import Scm.Runs

/-!
# Peers known to be unreachable — `core/src/routing/negative_cache.rs`

A Bloom filter in front of a map of entries that expire. Bits are only ever set, except by `clear`,
which empties the map as well, so what has an entry is in the filter (`sound_run`) and the filter
never changes an answer (`unreachable_iff`).

The router asks with the recipient's hint in hex (`routeMessageOptimized`), while an unreachable
peer is recorded under its own id: `carriedWhile_iff` is when the record helps.
-/

namespace Scm.Routing

open Bytes Collections Floats Runs

/-! ## The filter -/

/-- The two hashes of `hash_positions`, as a 64-bit `usize`. -/
structure PeerHashes where
  first : String → UInt64
  second : String → UInt64

/-- `BloomFilter`, of at least one bit. -/
structure BloomFilter where
  size : Nat
  bits : Vector Bool size
  k : Nat
  pos : 0 < size

/-- The loop of `insert`. -/
def setBits {size : Nat} (bits : Vector Bool size) (positions : List Nat) : Vector Bool size :=
  positions.foldl (fun bits pos => bits.setIfInBounds pos true) bits

theorem getD_setBits {size pos : Nat} (hpos : pos < size) (positions : List Nat) :
    ∀ bits : Vector Bool size, (bits.getD pos false = true ∨ pos ∈ positions) →
      (setBits bits positions).getD pos false = true := by
  induction positions with
  | nil => exact fun _ h => h.resolve_right List.not_mem_nil
  | cons first positions ih =>
    intro bits h
    refine ih _ ?_
    by_cases heq : first = pos
    · simp [heq, Vector.getD, hpos]
    · simpa [Vector.getD, hpos, heq, Ne.symm heq] using h

namespace BloomFilter

variable (H : PeerHashes) (filter : BloomFilter)

/-- `hash_positions`. -/
def hashPositions (peerId : String) : List Nat :=
  (List.range filter.k).map fun i =>
    (H.first peerId + UInt64.ofNat i * H.second peerId).toNat % filter.size

/-- `BloomFilter::insert`. -/
def insert (peerId : String) : BloomFilter :=
  { filter with bits := setBits filter.bits (filter.hashPositions H peerId) }

/-- `BloomFilter::contains`. -/
def contains (peerId : String) : Bool :=
  (filter.hashPositions H peerId).all fun pos => filter.bits.getD pos false

/-- `BloomFilter::clear`. -/
def clear : BloomFilter := { filter with bits := .replicate filter.size false }

/-- There are no false negatives: what was inserted is contained, and stays so. -/
theorem contains_insert {peerId other : String}
    (h : other = peerId ∨ filter.contains H other = true) :
    (filter.insert H peerId).contains H other = true := by
  refine List.all_eq_true.mpr fun pos (hpos : pos ∈ filter.hashPositions H other) => ?_
  have hlt : pos < filter.size := by
    obtain ⟨i, _, rfl⟩ := List.mem_map.mp hpos
    exact Nat.mod_lt _ filter.pos
  refine getD_setBits hlt _ _ ?_
  rcases h with rfl | h
  · exact .inr hpos
  · exact .inl (List.all_eq_true.mp h pos hpos)

end BloomFilter

/-! ## The cache -/

/-- `NegativeCache` with its filter. -/
structure BloomCache where
  bloom : BloomFilter
  entries : AList fun _ : String => NegativeCacheEntry
  defaultTtl : Nat
  maxEntries : Nat

namespace BloomCache

variable (H : PeerHashes)

def new (bloom : BloomFilter) (defaultTtl maxEntries : Nat) : BloomCache :=
  ⟨bloom, ∅, defaultTtl, maxEntries⟩

/-- As the engine sees it. -/
def view (cache : BloomCache) : NegativeCache := ⟨cache.bloom.contains H, cache.entries⟩

/-- An order in which the map is iterated. -/
abbrev MapOrder := Reordering (Sigma fun _ : String => NegativeCacheEntry)

/-- `evict_oldest`. -/
def evictOldest (order : MapOrder) (cache : BloomCache) : BloomCache :=
  match minBy (fun a b => compare a.2.confirmedAt b.2.confirmedAt)
      (order.order cache.entries.entries) with
  | some oldest => { cache with entries := cache.entries.erase oldest.1 }
  | none => cache

/-- `record_unreachable`. -/
def recordUnreachable (order : MapOrder) (now : Nat) (cache : BloomCache) (peerId : String) :
    BloomCache :=
  let cache := { cache with bloom := cache.bloom.insert H peerId }
  match cache.entries.lookup peerId with
  | some entry =>
    { cache with entries := cache.entries.insert peerId { entry with confirmedAt := now } }
  | none =>
    let cache := if len cache.entries ≥ cache.maxEntries then cache.evictOldest order else cache
    { cache with entries := cache.entries.insert peerId ⟨now, cache.defaultTtl⟩ }

/-- `clear_unreachable`. -/
def clearUnreachable (cache : BloomCache) (peerId : String) : BloomCache :=
  { cache with entries := cache.entries.erase peerId }

/-- `is_expired`, negated. -/
def fresh (now : Nat) (entry : NegativeCacheEntry) : Bool :=
  !decide (now - entry.confirmedAt > entry.ttl)

/-- `cleanup_expired`, with the number of entries removed. -/
def cleanupExpired (cache : BloomCache) (now : Nat) : Nat × BloomCache :=
  let entries := retain cache.entries fun _ => fresh now
  (len cache.entries - len entries, { cache with entries })

/-- `NegativeCache::clear`. -/
def clear (cache : BloomCache) : BloomCache :=
  { cache with bloom := cache.bloom.clear, entries := ∅ }

inductive Call where
  | recordUnreachable (order : MapOrder) (now : Nat) (peerId : String)
  | clearUnreachable (peerId : String)
  | cleanupExpired (now : Nat)
  | clear

def step (cache : BloomCache) : Call → BloomCache
  | .recordUnreachable order now peerId => cache.recordUnreachable H order now peerId
  | .clearUnreachable peerId => cache.clearUnreachable peerId
  | .cleanupExpired now => (cache.cleanupExpired now).2
  | .clear => cache.clear

/-- There is an entry for the peer that has not expired. -/
def Holds (cache : BloomCache) (now : Nat) (peerId : String) : Prop :=
  ∃ entry, cache.entries.lookup peerId = some entry ∧ fresh now entry = true

/-- What has an entry is in the filter. -/
def Sound (cache : BloomCache) : Prop :=
  ∀ peerId entry, cache.entries.lookup peerId = some entry → cache.bloom.contains H peerId = true

section
variable {H} {cache : BloomCache}

section
variable (h : cache.Sound H)
include h

theorem Sound.evictOldest (order : MapOrder) :
    (cache.evictOldest order).Sound H ∧ (cache.evictOldest order).bloom = cache.bloom := by
  unfold BloomCache.evictOldest
  split
  next => exact ⟨fun peerId entry hentry => h peerId entry (lookup_of_lookup_erase hentry), rfl⟩
  next => exact ⟨h, rfl⟩

theorem Sound.insertEntry {peerId : String} {entry : NegativeCacheEntry}
    (hin : cache.bloom.contains H peerId = true) :
    Sound H { cache with entries := cache.entries.insert peerId entry } := by
  intro other found hfound
  rcases lookup_insert_cases hfound with ⟨rfl, _⟩ | ⟨_, hold⟩
  · exact hin
  · exact h other found hold

theorem sound_step (call : Call) : (cache.step H call).Sound H := by
  cases call with
  | recordUnreachable order now peerId =>
    have hin : (cache.bloom.insert H peerId).contains H peerId = true :=
      cache.bloom.contains_insert H (.inl rfl)
    have hinserted : Sound H { cache with bloom := cache.bloom.insert H peerId } :=
      fun other entry hentry => cache.bloom.contains_insert H (.inr (h other entry hentry))
    unfold step recordUnreachable
    dsimp only
    split
    next => exact hinserted.insertEntry hin
    split
    next =>
      obtain ⟨hevicted, hbloom⟩ := hinserted.evictOldest order
      exact hevicted.insertEntry (hbloom ▸ hin)
    next => exact hinserted.insertEntry hin
  | clearUnreachable peerId =>
    exact fun other entry hentry => h other entry (lookup_of_lookup_erase hentry)
  | cleanupExpired now => exact fun other entry hentry => h other entry (lookup_retain.mp hentry).1
  | clear => exact nofun

theorem isDefinitelyUnreachable_iff (now : Nat) (peerId : String) :
    (cache.view H).isDefinitelyUnreachable now peerId = true ↔ cache.Holds now peerId := by
  unfold NegativeCache.isDefinitelyUnreachable Holds view
  cases hentry : cache.entries.lookup peerId with
  | none => simp
  | some entry => simp [h peerId entry hentry, fresh]

end

theorem sound_run (bloom : BloomFilter) (defaultTtl maxEntries : Nat) (calls : List Call) :
    (run (step H) (new bloom defaultTtl maxEntries) calls).Sound H := by
  have hstep : ∀ cache call, Sound H cache → Sound H (cache.step H call) :=
    fun _ call h => sound_step h call
  refine run_invariant_always hstep calls _ fun _ _ h => ?_
  cases h

end

/-- **The filter never changes an answer.** -/
theorem unreachable_iff (H : PeerHashes) (bloom : BloomFilter) (defaultTtl maxEntries : Nat)
    (calls : List Call) (now : Nat) (peerId : String) :
    let cache := run (step H) (new bloom defaultTtl maxEntries) calls
    (cache.view H).isDefinitelyUnreachable now peerId = true ↔
      cache.Holds now peerId :=
  isDefinitelyUnreachable_iff (sound_run bloom defaultTtl maxEntries calls) now peerId

/-! ## The router -/

variable {F : Type} (A : FloatOps F)

/-- `route_message_optimized` of an engine with this cache. -/
def routeMessage (cache : BloomCache) (engine : OptimizedRoutingEngine F) (now : Nat) (hint : Hint)
    (messageId : Vector UInt8 16) (priority : UInt8) : RoutingDecision F :=
  { engine with negativeCache := cache.view H }.routeMessageOptimized A now hint messageId priority

/-- While there is an entry for the peer, messages for the hint are carried, whatever else the
engine knows. -/
def CarriedWhile (cache : BloomCache) (peerId : String) (hint : Hint) : Prop :=
  ∀ (engine : OptimizedRoutingEngine F) now messageId priority, cache.Holds now peerId →
    (cache.routeMessage H A engine now hint messageId priority).primary = .storeAndCarry

/-- An engine with a path to a peer. -/
def onePath (hint : Hint) : OptimizedRoutingEngine F :=
  { OptimizedRoutingEngine.new with
    multipath := ⟨(∅ : AList fun _ : Hint => List (DeliveryPath F)).insert hint
      [⟨1, .replicate 32 7, true, A.lit 1⟩]⟩ }

/-- **Messages for a hint are carried while a peer is recorded as unreachable** exactly when the
text that the hint is looked up by has an entry that lasts as long. -/
theorem carriedWhile_iff (H : PeerHashes) (A : FloatOps F) (bloom : BloomFilter)
    (defaultTtl maxEntries : Nat) (calls : List Call) (peerId : String) (hint : Hint) :
    let cache := run (step H) (new bloom defaultTtl maxEntries) calls
    cache.CarriedWhile H A peerId hint ↔
      ∀ now, cache.Holds now peerId → cache.Holds now (toHex hint.toList) := by
  intro cache
  have hsound : cache.Sound H := sound_run bloom defaultTtl maxEntries calls
  unfold CarriedWhile routeMessage
  simp only [OptimizedRoutingEngine.routeMessageOptimized_storeAndCarry_iff,
    isDefinitelyUnreachable_iff hsound]
  constructor
  · intro hcarried now hheld
    rcases hcarried (onePath A hint) now (.replicate 16 0) 0 hheld with hhint | ⟨hcached, _⟩
    · exact hhint
    · have hpath : (onePath A hint).multipath.paths.lookup hint
          = some [⟨1, .replicate 32 7, true, A.lit 1⟩] := AList.lookup_insert _
      refine absurd (.inr ⟨⟨1, .replicate 32 7, true, A.lit 1⟩, ?_, rfl⟩) hcached
      rw [hpath]
      exact List.mem_singleton_self _
  · exact fun hheld engine now _ _ hnow => .inl (hheld now hnow)

/-- No hashing and a filter of one bit. -/
def oneBit : BloomFilter := ⟨1, #v[false], 1, Nat.one_pos⟩

/-- A peer's id in hex is recorded, its hint is `01020304`, and the message for it is routed. -/
theorem recorded_peer_routed :
    let H : PeerHashes := ⟨fun _ => 0, fun _ => 0⟩
    let cache := run (step H) (new oneBit 600 10000)
      [.recordUnreachable .same 1000 (toHex (List.replicate 32 1))]
    cache.Holds 1001 (toHex (List.replicate 32 1)) ∧
      (cache.routeMessage H exact (onePath exact #v[1, 2, 3, 4]) 1001 #v[1, 2, 3, 4]
        (.replicate 16 0) 0).primary = .globalRoute (.replicate 32 7) 1 := by
  refine ⟨⟨⟨1000, 600⟩, by decide +kernel, by decide⟩, by decide +kernel⟩

end BloomCache

end Scm.Routing
