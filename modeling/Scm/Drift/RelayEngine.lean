import Scm.Drift.Envelope
import Scm.Drift.Store

/-!
# The relay engine — `core/src/drift/relay.rs`

`process_incoming` is the routing decision for every envelope that reaches a node: deliver it,
store it for others, or drop it. It is a row of checks with an early return each, then the rate
limit, then the insertion into the mesh store.

All its outcomes are in `processIncoming_cases`: the envelope passes every check (`Accepts`)
and is stored and counted, or the engine is left exactly as it was. An insertion into a full
store evicts the lowest message, and that may be the new one (`storeAndRelay_stores_iff`).

Each call gets one `RelayReading` of what is not in the engine: the verdict of the reputation
manager, three readings of the clock, and what decides an eviction, the iteration order of the
map and the comparison of scores. Arithmetic on the counters wraps, as in a release build.
-/

namespace Scm.Drift

open Collections DriftEnvelope MeshStore

/-! ## The engine -/

inductive NetworkState where
  | active
  | dormant
  deriving DecidableEq, Repr

/-- `RelayConfig`, with what `process_incoming` reads. -/
structure RelayConfig where
  maxRelayPerHour : UInt32
  maxHopCount : UInt8
  minRelayPriority : UInt8
  deriving DecidableEq, Repr

/-- `RelayConfig::default`. -/
def RelayConfig.default : RelayConfig where
  maxRelayPerHour := 1000
  maxHopCount := 16
  minRelayPriority := 0

inductive DropReason where
  | expired
  | maxHopsExceeded
  | rateLimited
  | networkDormant
  | lowPriority
  | storeFull
  deriving DecidableEq, Repr

inductive RelayDecision where
  | deliverLocal (messageId : MessageId)
  | storeAndRelay (messageId : MessageId)
  | duplicate (messageId : MessageId)
  | dropped (messageId : MessageId) (reason : DropReason)
  deriving DecidableEq, Repr

/-- `RelayEngine`. Its store changes only by the operations of `MeshStore`, which keep it
within its budget. -/
structure RelayEngine where
  state : NetworkState
  config : RelayConfig
  store : MeshStore
  localHint : Vector UInt8 4
  relayCountThisHour : UInt32
  hourStart : UInt64
  withinBudget : store.len ≤ store.maxMessages

/-- What a call meets outside the engine. -/
structure RelayReading where
  /-- A reputation manager is set, and finds the sender `"unknown"` abusive with a spam
  confidence above 0.8. -/
  isSpam : Bool
  /-- The clock of `is_expired`, in seconds. -/
  expiryNow : UInt32
  /-- The clock of `check_rate_limit`, in milliseconds. -/
  rateNow : UInt64
  /-- The clock of `received_at`, in seconds. -/
  receivedNow : UInt64
  order : MeshStore → MeshStore
  reorders : MeshStore.Reorders order
  cmp : Comparison

/-- What is stored of an envelope: its bytes as they came. -/
def DriftEnvelope.toStored (e : DriftEnvelope) (data : Bytes) (receivedAt : UInt64) :
    StoredEnvelope where
  envelopeData := data
  messageId := e.messageId
  recipientHint := e.recipientHint
  createdAt := e.createdAt
  ttlExpiry := e.ttlExpiry
  hopCount := e.hopCount
  priority := e.priority
  receivedAt := receivedAt

namespace RelayEngine

/-- `RelayEngine::new`, with the hint of the local key. -/
def new (localHint : Vector UInt8 4) (config : RelayConfig) (now : UInt64) : RelayEngine where
  state := .dormant
  config := config
  store := MeshStore.new
  localHint := localHint
  relayCountThisHour := 0
  hourStart := now
  withinBudget := Nat.zero_le _

/-- `set_network_state`. -/
def setNetworkState (engine : RelayEngine) (state : NetworkState) : RelayEngine :=
  { engine with state }

/-- `HOUR_MS`. -/
def hourMs : UInt64 := 3600 * 1000

/-- `check_rate_limit`. -/
def checkRateLimit (engine : RelayEngine) (now : UInt64) : RelayEngine :=
  if now - engine.hourStart > hourMs then { engine with relayCountThisHour := 0, hourStart := now }
  else engine

/-- The checks of `process_incoming` before the rate limit, each with its answer. -/
def refusal (engine : RelayEngine) (reading : RelayReading) (e : DriftEnvelope) :
    Option RelayDecision :=
  let isCoverTraffic : Bool := e.envelopeType = .coverTraffic
  let isOnion : Bool := e.envelopeType = .onionMessage
  if reading.isSpam then some (.dropped e.messageId .rateLimited)
  else if e.isExpired reading.expiryNow then some (.dropped e.messageId .expired)
  else if (engine.store.get e.messageId).isSome then some (.duplicate e.messageId)
  else if e.recipientHint = engine.localHint then
    if isOnion || !isCoverTraffic then some (.deliverLocal e.messageId)
    -- cover traffic for us is absorbed
    else some (.dropped e.messageId .expired)
  else if engine.state = .dormant then some (.dropped e.messageId .networkDormant)
  else if e.hopCount ≥ engine.config.maxHopCount then some (.dropped e.messageId .maxHopsExceeded)
  else if e.priority < engine.config.minRelayPriority then some (.dropped e.messageId .lowPriority)
  else none

/-- `store.insert`. -/
def insert (engine : RelayEngine) (reading : RelayReading) (stored : StoredEnvelope) :
    Bool × RelayEngine :=
  ((engine.store.insertIn reading.order reading.cmp stored).1,
    { engine with
      store := (engine.store.insertIn reading.order reading.cmp stored).2
      withinBudget := len_insertIn_le reading.reorders engine.withinBudget })

/-- The end of `process_incoming`: store the envelope and, unless it is cover traffic, count
it. -/
def storeEnvelope (engine : RelayEngine) (reading : RelayReading) (e : DriftEnvelope)
    (data : Bytes) : RelayDecision × RelayEngine :=
  let (inserted, stored) := engine.insert reading (e.toStored data reading.receivedNow)
  if inserted then
    (.storeAndRelay e.messageId,
      if e.envelopeType = .coverTraffic then stored
      else { stored with relayCountThisHour := stored.relayCountThisHour + 1 })
  else (.duplicate e.messageId, stored)

/-- `RelayEngine::process_incoming`. -/
def processIncoming (lz4 : Lz4) (engine : RelayEngine) (reading : RelayReading)
    (data : Bytes) : Except DriftError RelayDecision × RelayEngine :=
  match fromBytes lz4 data with
  | .error e => (.error e, engine)
  | .ok e =>
    match engine.refusal reading e with
    | some decision => (.ok decision, engine)
    | none =>
      if e.envelopeType = .coverTraffic then
        let out := engine.storeEnvelope reading e data
        (.ok out.1, out.2)
      else
        let checked := engine.checkRateLimit reading.rateNow
        if checked.config.maxRelayPerHour > 0 ∧
            checked.relayCountThisHour ≥ checked.config.maxRelayPerHour then
          (.ok (.dropped e.messageId .rateLimited), checked)
        else
          let out := checked.storeEnvelope reading e data
          (.ok out.1, out.2)

/-! ## The outcomes -/

/-- Every check but the one on hops lets the envelope pass. -/
structure Relays (engine : RelayEngine) (reading : RelayReading) (e : DriftEnvelope) : Prop where
  notSpam : reading.isSpam = false
  fresh : e.isExpired reading.expiryNow = false
  new : engine.store.get e.messageId = none
  notOurs : e.recipientHint ≠ engine.localHint
  active : engine.state = .active
  priority : engine.config.minRelayPriority ≤ e.priority
  rate : e.envelopeType ≠ .coverTraffic → engine.config.maxRelayPerHour = 0 ∨
    hourMs < reading.rateNow - engine.hourStart ∨
    engine.relayCountThisHour < engine.config.maxRelayPerHour

/-- Every check lets the envelope pass. -/
def Accepts (engine : RelayEngine) (reading : RelayReading) (e : DriftEnvelope) : Prop :=
  engine.Relays reading e ∧ e.hopCount < engine.config.maxHopCount

/-- The engine when it has counted an envelope that it relays. -/
def counted (engine : RelayEngine) (now : UInt64) (e : DriftEnvelope) : RelayEngine :=
  if e.envelopeType = .coverTraffic then engine
  else
    let checked := engine.checkRateLimit now
    { checked with relayCountThisHour := checked.relayCountThisHour + 1 }

theorem ite_some_eq_none {α : Type} {c : Prop} [Decidable c] {a : α} {o : Option α} :
    (if c then some a else o) = none ↔ ¬ c ∧ o = none := by
  by_cases h : c <;> simp [h]

section
variable {engine : RelayEngine} {reading : RelayReading} {e : DriftEnvelope}

theorem refusal_eq_none_iff :
    engine.refusal reading e = none ↔
      reading.isSpam = false ∧ e.isExpired reading.expiryNow = false ∧
        engine.store.get e.messageId = none ∧ e.recipientHint ≠ engine.localHint ∧
        engine.state = .active ∧ e.hopCount < engine.config.maxHopCount ∧
        engine.config.minRelayPriority ≤ e.priority := by
  have hactive : ¬ engine.state = .dormant ↔ engine.state = .active := by
    cases engine.state <;> decide
  unfold refusal
  dsimp only
  rw [← apply_ite some]
  simp only [ite_some_eq_none, Bool.not_eq_true, Option.isSome_eq_false_iff,
    Option.isNone_iff_eq_none, hactive, UInt8.not_le, UInt8.not_lt, and_true]

theorem refusal_ne_storeAndRelay {decision : RelayDecision}
    (h : engine.refusal reading e = some decision) (id : MessageId) :
    decision ≠ .storeAndRelay id := by
  unfold refusal at h
  dsimp only at h
  rintro rfl
  repeat' split at h
  all_goals cases h

/-- The rate limit turns an envelope away when the window is not over and has no room, and
then has not started a new one. -/
theorem rateLimited_iff (engine : RelayEngine) (now : UInt64) :
    ((engine.checkRateLimit now).config.maxRelayPerHour > 0 ∧
      (engine.checkRateLimit now).relayCountThisHour
        ≥ (engine.checkRateLimit now).config.maxRelayPerHour) ↔
    ¬ (engine.config.maxRelayPerHour = 0 ∨ hourMs < now - engine.hourStart ∨
      engine.relayCountThisHour < engine.config.maxRelayPerHour) := by
  unfold checkRateLimit
  by_cases hover : now - engine.hourStart > hourMs
  · grind
  · grind

theorem checkRateLimit_of_not_over {now : UInt64} (h : ¬ hourMs < now - engine.hourStart) :
    engine.checkRateLimit now = engine := if_neg h

end

section
variable (engine : RelayEngine) (now : UInt64)

theorem store_checkRateLimit : (engine.checkRateLimit now).store = engine.store := by
  unfold checkRateLimit
  split <;> rfl

theorem storeEnvelope_of_new {engine : RelayEngine} {e : DriftEnvelope}
    (hnew : engine.store.get e.messageId = none) (reading : RelayReading) (data : Bytes) :
    engine.storeEnvelope reading e data = (.storeAndRelay e.messageId,
      if e.envelopeType = .coverTraffic then
        (engine.insert reading (e.toStored data reading.receivedNow)).2
      else
        ({ engine with relayCountThisHour := engine.relayCountThisHour + 1 }.insert reading
          (e.toStored data reading.receivedNow)).2) := by
  have hinserted : (engine.insert reading (e.toStored data reading.receivedNow)).1 = true :=
    congrArg Prod.fst (insertIn_of_new hnew)
  unfold storeEnvelope
  dsimp only
  rw [hinserted]
  rfl

/-- **What a call can do.** The envelope passes every check, is stored and counted; or the
answer is another, and the engine is as it was. -/
theorem processIncoming_cases (lz4 : Lz4) (engine : RelayEngine) (reading : RelayReading)
    (data : Bytes) :
    (∃ e, fromBytes lz4 data = .ok e ∧ engine.Accepts reading e ∧
      engine.processIncoming lz4 reading data = (.ok (.storeAndRelay e.messageId),
        ((engine.counted reading.rateNow e).insert reading
          (e.toStored data reading.receivedNow)).2)) ∨
    ((∀ e, fromBytes lz4 data = .ok e → ¬ engine.Accepts reading e) ∧
      (∀ id, (engine.processIncoming lz4 reading data).1 ≠ .ok (.storeAndRelay id)) ∧
      (engine.processIncoming lz4 reading data).2 = engine) := by
  unfold processIncoming
  cases hparse : fromBytes lz4 data with
  | error _ => grind
  | ok e =>
    dsimp only
    cases hrefusal : engine.refusal reading e with
    | some decision =>
      refine .inr ⟨fun e' he' haccepts => ?_, fun id h => ?_, rfl⟩
      · cases he'
        obtain ⟨hrelays, hhops⟩ := haccepts
        have hnone := refusal_eq_none_iff.mpr ⟨hrelays.notSpam, hrelays.fresh, hrelays.new,
          hrelays.notOurs, hrelays.active, hhops, hrelays.priority⟩
        rw [hrefusal] at hnone
        cases hnone
      · exact refusal_ne_storeAndRelay hrefusal id (Except.ok.inj h)
    | none =>
      obtain ⟨hspam, hfresh, hnew, hours, hactive, hhops, hpriority⟩ :=
        refusal_eq_none_iff.mp hrefusal
      by_cases hcover : e.envelopeType = .coverTraffic
      · refine .inl ⟨e, rfl, ⟨⟨hspam, hfresh, hnew, hours, hactive, hpriority,
          fun hnot => absurd hcover hnot⟩, hhops⟩, ?_⟩
        dsimp only
        simp only [if_pos hcover, storeEnvelope_of_new hnew, counted]
      · have hchecked : (engine.checkRateLimit reading.rateNow).store.get e.messageId = none := by
          rw [store_checkRateLimit]
          exact hnew
        dsimp only
        rw [if_neg hcover, if_congr (rateLimited_iff engine reading.rateNow) rfl rfl,
          storeEnvelope_of_new hchecked, if_neg hcover]
        by_cases hrate : engine.config.maxRelayPerHour = 0 ∨
            hourMs < reading.rateNow - engine.hourStart ∨
            engine.relayCountThisHour < engine.config.maxRelayPerHour
        · rw [if_neg (not_not.mpr hrate)]
          refine .inl ⟨e, rfl, ⟨⟨hspam, hfresh, hnew, hours, hactive, hpriority, fun _ => hrate⟩,
            hhops⟩, ?_⟩
          rw [counted, if_neg hcover]
        · rw [if_pos hrate]
          refine .inr ⟨fun e' he' haccepts => ?_, nofun, ?_⟩
          · cases he'
            exact hrate (haccepts.1.rate hcover)
          · simp_all [checkRateLimit_of_not_over]

theorem store_counted (e : DriftEnvelope) : (engine.counted now e).store = engine.store := by
  unfold counted
  split
  next => rfl
  next => exact engine.store_checkRateLimit now

end

/-! ## What is answered and what is stored -/

/-- **StoreAndRelay means stored.** An envelope that is answered so is in the store afterwards
and every other answer leaves the store alone, exactly when an envelope that passes the checks
is not the one that the store evicts for it. -/
theorem storeAndRelay_stores_iff (lz4 : Lz4) (engine : RelayEngine) (reading : RelayReading)
    (data : Bytes) :
    let out := engine.processIncoming lz4 reading data
    ((∀ id, out.1 = .ok (.storeAndRelay id) → (out.2.store.get id).isSome = true) ∧
      ((∀ id, out.1 ≠ .ok (.storeAndRelay id)) → out.2.store = engine.store)) ↔
    ∀ e, DriftEnvelope.fromBytes lz4 data = .ok e → engine.Accepts reading e →
      MeshStore.Survives reading.order reading.cmp engine.store
        (e.toStored data reading.receivedNow) := by
  intro out
  rcases engine.processIncoming_cases lz4 reading data with
    ⟨e, hparse, haccepts, hout⟩ | ⟨hnot, hother, hsame⟩
  · obtain ⟨hsurvives, hgone⟩ := MeshStore.get_insertIn reading.cmp
      (e.toStored data reading.receivedNow) reading.reorders engine.withinBudget haccepts.1.new
    have hstore : out.2.store = (engine.store.insertIn reading.order reading.cmp
        (e.toStored data reading.receivedNow)).2 := by
      rw [← engine.store_counted reading.rateNow e]
      exact congrArg (fun out => out.2.store) hout
    constructor
    · rintro ⟨hin, _⟩ e' hparse' _
      cases hparse.symm.trans hparse'
      by_contra hevicted
      have hget := hin e.messageId (congrArg Prod.fst hout)
      have hnone : out.2.store.get e.messageId = none := by
        rw [hstore]
        exact hgone hevicted
      rw [hnone] at hget
      cases hget
    · intro h
      have hget : out.2.store.get e.messageId = some (e.toStored data reading.receivedNow) := by
        rw [hstore]
        exact hsurvives (h e hparse haccepts)
      refine ⟨fun id hid => ?_, fun hnone => absurd (congrArg Prod.fst hout) (hnone e.messageId)⟩
      cases (congrArg Prod.fst hout).symm.trans hid
      rw [hget]
      rfl
  · grind

end RelayEngine

/-! ## A full store -/

/-- An envelope that never expires, has come no hop, and has the lowest priority. -/
def lowEnvelope : DriftEnvelope :=
  { sampleEnvelope with
    messageId := idOfNat 10000, hopCount := 0, priority := 0 }

theorem exists_bytes_lowEnvelope :
    ∃ data, fromBytes literalLz4 data = .ok lowEnvelope := by
  obtain ⟨data, hdata⟩ : ∃ data, lowEnvelope.toBytes literalLz4 = .ok data := ⟨_, rfl⟩
  exact ⟨data, fromBytes_toBytes literalLz4_inverts rfl rfl hdata⟩

/-- The clocks at zero, no reputation manager, scores by priority. -/
def quietReading : RelayReading where
  isSpam := false
  expiryNow := 0
  rateNow := 0
  receivedNow := 0
  order := id
  reorders := reorders_id
  cmp := byScore fun e => e.priority.toNat

/-- An active engine of the default configuration that holds the first `n` sample messages. -/
def filledEngine (n : Nat) : RelayEngine :=
  { (RelayEngine.new (.replicate 4 0) .default 0).setNetworkState .active with
    store := fill n
    withinBudget := by
      obtain ⟨hmax, hlen⟩ := (fill_reachable n).withinBudget
      omega }

theorem store_filledEngine (n : Nat) : (filledEngine n).store = fill n := rfl

theorem filledEngine_accepts {n : Nat} (hn : n ≤ 10000) :
    (filledEngine n).Accepts quietReading lowEnvelope := by
  have hnew : (fill n).get (idOfNat 10000) = none := by
    refine AList.lookup_eq_none.mpr fun hmem => ?_
    obtain ⟨k, hk, hid⟩ := (fill_spec n hn).2 _ hmem
    have heq := idOfNat_inj (by omega) (by omega) hid
    omega
  refine ⟨⟨rfl, rfl, hnew, ?_, rfl, ?_, fun _ => .inr (.inr ?_)⟩, ?_⟩
  · show (#v[1, 2, 3, 4] : Vector UInt8 4) ≠ #v[0, 0, 0, 0]
    decide
  · show RelayConfig.default.minRelayPriority ≤ 0
    decide
  · show 0 < RelayConfig.default.maxRelayPerHour
    decide
  · show 0 < RelayConfig.default.maxHopCount
    decide

theorem filledEngine_not_survives {n : Nat} (hn : n = Drift.maxMessages) (data : Bytes) :
    ¬ MeshStore.Survives id quietReading.cmp (filledEngine n).store
      (lowEnvelope.toStored data 0) := by
  have hmax : Drift.maxMessages = 10000 := rfl
  have hbudget := (fill_reachable n).withinBudget
  refine not_survives_of_lowest (fun e => e.priority.toNat) ?_
    (filledEngine_accepts (by omega)).1.new fun entry _ => Nat.not_lt_zero _
  rw [store_filledEngine, hbudget.1, len_fill (by omega), hn]

theorem filledEngine_relays {n : Nat} (hn : n = Drift.maxMessages) :
    ∃ data, fromBytes literalLz4 data = .ok lowEnvelope ∧
      let out := (filledEngine n).processIncoming literalLz4 quietReading data
      out.1 = .ok (.storeAndRelay lowEnvelope.messageId) ∧
        out.2.store.get lowEnvelope.messageId = none := by
  obtain ⟨data, hparse⟩ := exists_bytes_lowEnvelope
  have haccepts := filledEngine_accepts (Nat.le_of_eq hn)
  have hevicted := filledEngine_not_survives hn data
  refine ⟨data, hparse, ?_⟩
  rcases (filledEngine n).processIncoming_cases literalLz4 quietReading data with
    ⟨e, hparse', _, hout⟩ | ⟨hnot, _⟩
  · cases hparse.symm.trans hparse'
    have hgone := (get_insertIn quietReading.cmp (lowEnvelope.toStored data 0)
      reorders_id (filledEngine n).withinBudget haccepts.1.new).2 hevicted
    intro out
    refine ⟨congrArg Prod.fst hout, ?_⟩
    have hafter : out.2.store = ((filledEngine n).store.insertIn id quietReading.cmp
        (lowEnvelope.toStored data 0)).2 := by
      rw [← (filledEngine n).store_counted 0 lowEnvelope]
      exact congrArg (fun out => out.2.store) hout
    rw [hafter]
    exact hgone
  · exact absurd haccepts (hnot lowEnvelope hparse)

/-- A full engine answers StoreAndRelay, and the message is gone. -/
theorem full_store_relays_without_storing :
    ∃ data, DriftEnvelope.fromBytes DriftEnvelope.literalLz4 data = .ok lowEnvelope ∧
      let out := (filledEngine Drift.maxMessages).processIncoming DriftEnvelope.literalLz4
        quietReading data
      out.1 = .ok (.storeAndRelay lowEnvelope.messageId) ∧
        out.2.store.get lowEnvelope.messageId = none :=
  filledEngine_relays rfl

end Scm.Drift
