import Scm.Drift.RelayEngine

/-!
# A chain of relays — `core/src/drift/relay.rs`

`max_hop_count` is there to prevent infinite relay: an engine drops an envelope whose hop count
has reached it. Somewhere between taking an envelope in and handing it on the count has to go
up, and `increment_hop` exists for that. But nothing calls it: `process_incoming` stores the
bytes as they came, and what is handed on is what was stored. So every engine of a chain sees
the same bytes (`relayChain_cons_of_keeps`) and the same hop count, and the limit either stops
an envelope at the first engine or never (`chain_bounded_iff`).
-/

namespace Scm.Drift

open List DriftEnvelope

/-- An engine of a chain, with what its call meets. -/
structure RelayLink where
  engine : RelayEngine
  reading : RelayReading

/-- How many engines of the chain answer StoreAndRelay, when each that does hands the bytes it
stored to the next. -/
def relayChain (lz4 : Lz4) : List RelayLink → Bytes → Nat
  | [], _ => 0
  | link :: rest, data =>
    let out := link.engine.processIncoming lz4 link.reading data
    match out.1 with
    | .ok (.storeAndRelay messageId) =>
      match out.2.store.get messageId with
      | some stored => relayChain lz4 rest stored.envelopeData + 1
      -- evicted at once: there is nothing to hand on
      | none => 1
    | _ => 0

namespace RelayLink

/-- Every check but the one on hops lets the envelope pass. -/
def Relays (link : RelayLink) (e : DriftEnvelope) : Prop := link.engine.Relays link.reading e

/-- Every check lets the envelope pass. -/
def Accepts (link : RelayLink) (e : DriftEnvelope) : Prop := link.engine.Accepts link.reading e

/-- The store does not evict the envelope for itself. -/
def Keeps (link : RelayLink) (e : DriftEnvelope) (data : Bytes) : Prop :=
  MeshStore.Survives link.reading.order link.reading.cmp link.engine.store
    (e.toStored data link.reading.receivedNow)

end RelayLink

section
variable {lz4 : Lz4} {link : RelayLink} {rest : List RelayLink} {e : DriftEnvelope}
  {data : Bytes}

section
variable (hparse : fromBytes lz4 data = .ok e)
include hparse

/-- The answer of an engine that accepts, and what it then has in its store. -/
theorem RelayLink.processIncoming_of_accepts (haccepts : link.Accepts e) :
    let out := link.engine.processIncoming lz4 link.reading data
    out.1 = .ok (.storeAndRelay e.messageId) ∧
      (link.Keeps e data →
        out.2.store.get e.messageId = some (e.toStored data link.reading.receivedNow)) ∧
      (¬ link.Keeps e data → out.2.store.get e.messageId = none) := by
  intro out
  rcases link.engine.processIncoming_cases lz4 link.reading data with
    ⟨e', hparse', _, hout⟩ | ⟨hnot, _⟩
  · cases hparse.symm.trans hparse'
    have hstore : out.2.store = (link.engine.store.insertIn link.reading.order link.reading.cmp
        (e.toStored data link.reading.receivedNow)).2 := by
      rw [← link.engine.store_counted link.reading.rateNow e]
      exact congrArg (fun out => out.2.store) hout
    rw [hstore]
    exact ⟨congrArg Prod.fst hout, MeshStore.get_insertIn link.reading.cmp _ link.reading.reorders
      link.engine.withinBudget haccepts.1.new⟩
  · exact absurd haccepts (hnot e hparse)

theorem relayChain_cons_of_keeps (haccepts : link.Accepts e) (hkeeps : link.Keeps e data) :
    relayChain lz4 (link :: rest) data = relayChain lz4 rest data + 1 := by
  obtain ⟨hanswer, hstored, _⟩ := RelayLink.processIncoming_of_accepts hparse haccepts
  rw [relayChain, hanswer]
  dsimp only
  rw [hstored hkeeps]
  rfl

theorem relayChain_cons_of_not_keeps (haccepts : link.Accepts e) (hkeeps : ¬ link.Keeps e data) :
    relayChain lz4 (link :: rest) data = 1 := by
  obtain ⟨hanswer, _, hgone⟩ := RelayLink.processIncoming_of_accepts hparse haccepts
  rw [relayChain, hanswer]
  dsimp only
  rw [hgone hkeeps]

end

theorem relayChain_cons_of_refused
    (hrefused : ∀ e, fromBytes lz4 data = .ok e → ¬ link.Accepts e) :
    relayChain lz4 (link :: rest) data = 0 := by
  rcases link.engine.processIncoming_cases lz4 link.reading data with
    ⟨e, hparse, haccepts, _⟩ | ⟨_, hother, _⟩
  · exact absurd haccepts (hrefused e hparse)
  · unfold relayChain
    dsimp only
    split
    next messageId h => exact absurd h (hother messageId)
    next => rfl

end

/-- How far an envelope gets: past `n` engines when they and the next accept it, and the ones
before keep it. -/
theorem lt_relayChain_iff {lz4 : Lz4} {e : DriftEnvelope} {data : Bytes}
    (hparse : fromBytes lz4 data = .ok e) (links : List RelayLink) :
    ∀ n, n < relayChain lz4 links data ↔
      n < links.length ∧ (∀ link ∈ links.take (n + 1), link.Accepts e) ∧
        ∀ link ∈ links.take n, link.Keeps e data := by
  induction links with
  | nil => exact fun n => iff_of_false (Nat.not_lt_zero n) fun h => Nat.not_lt_zero n h.1
  | cons link rest ih =>
    intro n
    by_cases haccepts : link.Accepts e
    · by_cases hkeeps : link.Keeps e data
      · rw [relayChain_cons_of_keeps hparse haccepts hkeeps]
        cases n with
        | zero => simp [haccepts]
        | succ n => simp_all
      · rw [relayChain_cons_of_not_keeps hparse haccepts hkeeps]
        cases n with
        | zero => simp [haccepts]
        | succ n => grind
    · have hzero : relayChain lz4 (link :: rest) data = 0 := by
        refine relayChain_cons_of_refused fun e' hparse' => ?_
        cases hparse.symm.trans hparse'
        exact haccepts
      rw [hzero]
      refine iff_of_false (Nat.not_lt_zero n) fun h => haccepts ?_
      exact h.2.1 link (by exact mem_cons_self)

/-- **The hop limit along a chain.** Engines with the maximum hop count `h` pass a message on:
at most `h` of them answer StoreAndRelay exactly when the envelope came with `h` hops already,
there are no more than `h` engines, one of the first `h + 1` refuses it for another reason than
its hops, or one of the first `h` evicts it at once. -/
theorem chain_bounded_iff (lz4 : Lz4) (links : List RelayLink) (h : UInt8)
    (hconfig : ∀ link ∈ links, link.engine.config.maxHopCount = h) (data : Bytes) :
    relayChain lz4 links data ≤ h.toNat ↔
      ∀ e, DriftEnvelope.fromBytes lz4 data = .ok e →
        h ≤ e.hopCount ∨ links.length ≤ h.toNat ∨
          (∃ link ∈ links.take (h.toNat + 1), ¬ link.Relays e) ∨
          ∃ link ∈ links.take h.toNat, ¬ link.Keeps e data := by
  cases hparse : DriftEnvelope.fromBytes lz4 data with
  | error _ =>
    have hzero : relayChain lz4 links data = 0 := by
      cases links with
      | nil => rfl
      | cons link rest => grind [relayChain_cons_of_refused]
    refine iff_of_true (hzero ▸ Nat.zero_le _) fun e he => ?_
    cases he
  | ok e =>
    rw [← Nat.not_lt, lt_relayChain_iff hparse]
    constructor
    · intro hnot e' he'
      cases he'
      by_contra hnone
      simp only [not_or, not_exists, not_and, not_not] at hnone
      obtain ⟨hhops, hlen, hrelays, hkeeps⟩ := hnone
      refine hnot ⟨Nat.lt_of_not_le hlen, fun link hlink => ⟨hrelays link hlink, ?_⟩, hkeeps⟩
      rw [hconfig link (mem_of_mem_take hlink)]
      exact UInt8.not_le.mp hhops
    · rintro hcond ⟨hlen, haccepts, hkeeps⟩
      rcases hcond e rfl with hhops | hshort | ⟨link, hlink, hrefuses⟩ | ⟨link, hlink, hevicts⟩
      · -- the first engine is there, and drops it
        obtain ⟨link, hlink⟩ := exists_mem_of_length_pos
          (show 0 < (links.take (h.toNat + 1)).length by rw [length_take]; omega)
        have hless := (haccepts link hlink).2
        rw [hconfig link (mem_of_mem_take hlink)] at hless
        exact UInt8.not_le.mpr hless hhops
      · omega
      · exact hrefuses (haccepts link hlink).1
      · exact hevicts (hkeeps link hlink)

/-! ## Seventeen relays -/

/-- An active engine with an empty store and the default configuration. -/
def freshLink : RelayLink := ⟨filledEngine 0, quietReading⟩

theorem freshLink_accepts : freshLink.Accepts lowEnvelope := filledEngine_accepts (Nat.zero_le _)

theorem freshLink_keeps (data : Bytes) : freshLink.Keeps lowEnvelope data :=
  .inl (show 0 < Drift.maxMessages by decide)

/-- With sixteen engines there cannot be more than sixteen answers. -/
theorem chain_bounded_sixteen :
    ∃ data, DriftEnvelope.fromBytes literalLz4 data = .ok lowEnvelope ∧
      relayChain literalLz4 (List.replicate 16 freshLink) data ≤ (16 : UInt8).toNat := by
  obtain ⟨data, hparse⟩ := exists_bytes_lowEnvelope
  have hconfig : ∀ link ∈ List.replicate 16 freshLink, link.engine.config.maxHopCount = 16 := by
    intro link hlink
    rw [eq_of_mem_replicate hlink]
    rfl
  refine ⟨data, hparse, (chain_bounded_iff literalLz4 _ 16 hconfig data).mpr
    fun _ _ => .inr (.inl ?_)⟩
  rw [List.length_replicate]
  decide

/-- Seventeen engines with a maximum of sixteen hops all answer StoreAndRelay. -/
theorem chain_not_bounded :
    (∀ link ∈ List.replicate 17 freshLink, link.engine.config.maxHopCount = 16) ∧
      ∃ data, DriftEnvelope.fromBytes literalLz4 data = .ok lowEnvelope ∧
        16 < relayChain literalLz4 (List.replicate 17 freshLink) data := by
  obtain ⟨data, hparse⟩ := exists_bytes_lowEnvelope
  refine ⟨fun link hlink => ?_, data, hparse, (lt_relayChain_iff hparse _ 16).mpr
    ⟨?_, fun link hlink => ?_, fun link hlink => ?_⟩⟩
  · rw [eq_of_mem_replicate hlink]
    rfl
  · rw [List.length_replicate]
    decide
  · grind [freshLink_accepts]
  · simp_all [freshLink_keeps]

end Scm.Drift
