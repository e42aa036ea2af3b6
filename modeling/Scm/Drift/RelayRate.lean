import Scm.Drift.RelayEngine
import Scm.RateWindow

/-!
# The hourly limit of a relay — `core/src/drift/relay.rs`, `check_rate_limit`

The engine counts what it relays for others and starts over an hour after the count began, but
only when the next envelope reaches the check: `hour_start` is the time of that envelope, not a
full hour. `Scm.RateWindow` is about counters of this kind; here the engine's is shown to be
one (`step_window`).

The subtraction in `check_rate_limit` wraps when `hour_start` is ahead of the clock; a difference
that wraps counts as an hour past, unless the two stand at the ends of the range. The counter
does not wrap: it stays within the limit.
-/

namespace Scm.Drift

open RateWindow

/-- An envelope that arrives, with what its call meets. -/
abbrev Incoming := RelayReading × Bytes

namespace RelayEngine

variable {lz4 : Lz4} {engine : RelayEngine}

/-- The rate counter. -/
def window (engine : RelayEngine) : Window :=
  ⟨engine.relayCountThisHour.toNat, engine.hourStart.toNat⟩

/-- The envelope is not cover traffic, and is answered StoreAndRelay. -/
def relaysNonCover (lz4 : Lz4) (engine : RelayEngine) (incoming : Incoming) : Bool :=
  match (engine.processIncoming lz4 incoming.1 incoming.2).1,
    DriftEnvelope.fromBytes lz4 incoming.2 with
  | .ok (.storeAndRelay _), .ok e => e.envelopeType ≠ .coverTraffic
  | _, _ => false

/-- The calls of a run: when, whether an envelope other than cover traffic was relayed, and the
rate counter after it. -/
def relayLog (lz4 : Lz4) : RelayEngine → List Incoming → List Entry
  | _, [] => []
  | engine, incoming :: rest =>
    let next := (engine.processIncoming lz4 incoming.1 incoming.2).2
    ⟨incoming.1.rateNow.toNat, engine.relaysNonCover lz4 incoming, next.window⟩ ::
      relayLog lz4 next rest

theorem toNat_hourMs : hourMs.toNat = 3600000 := rfl

theorem over_of_hourMs_lt_sub {now start : UInt64} (h : hourMs < now - start) :
    start.toNat + 3600000 < now.toNat ∨ now.toNat < start.toNat := by
  by_cases hle : start ≤ now
  · rw [UInt64.lt_iff_toNat_lt, UInt64.toNat_sub_of_le _ _ hle, toNat_hourMs] at h
    omega
  · rw [UInt64.le_iff_toNat_le] at hle
    omega

theorem toNat_add_one {count limit : UInt32} (h : count < limit) :
    (count + 1).toNat = count.toNat + 1 := by
  rw [UInt32.lt_iff_toNat_lt] at h
  have hlimit := limit.toNat_lt
  exact Nat.mod_eq_of_lt (by show count.toNat + 1 < 2 ^ 32; omega)

theorem relaysNonCover_of_relayed {incoming : Incoming} {e : DriftEnvelope} {next : RelayEngine}
    (hparse : DriftEnvelope.fromBytes lz4 incoming.2 = .ok e)
    (hout : engine.processIncoming lz4 incoming.1 incoming.2
      = (.ok (.storeAndRelay e.messageId), next)) :
    engine.relaysNonCover lz4 incoming = decide (e.envelopeType ≠ .coverTraffic) := by
  unfold relaysNonCover
  rw [hout, hparse]

theorem relaysNonCover_of_refused {incoming : Incoming}
    (hother : ∀ id, (engine.processIncoming lz4 incoming.1 incoming.2).1
      ≠ .ok (.storeAndRelay id)) :
    engine.relaysNonCover lz4 incoming = false := by
  unfold relaysNonCover
  split
  next id e hanswer _ => exact absurd hanswer (hother id)
  next => rfl

/-- **One envelope and the counter.** -/
theorem step_window (lz4 : Lz4) (hlimit : 0 < engine.config.maxRelayPerHour) (incoming : Incoming) :
    let next := (engine.processIncoming lz4 incoming.1 incoming.2).2
    Step engine.config.maxRelayPerHour.toNat 3600000 engine.window
        ⟨incoming.1.rateNow.toNat, engine.relaysNonCover lz4 incoming, next.window⟩ ∧
      next.config = engine.config := by
  intro next
  rcases engine.processIncoming_cases lz4 incoming.1 incoming.2 with
    ⟨e, hparse, haccepts, hout⟩ | ⟨_, hother, hsame⟩
  · have hnext : next = ((engine.counted incoming.1.rateNow e).insert incoming.1
        (e.toStored incoming.2 incoming.1.receivedNow)).2 := congrArg Prod.snd hout
    rw [relaysNonCover_of_relayed hparse hout, hnext]
    -- the insertion has no part in the counter
    show Step _ _ _ ⟨_, _, (engine.counted incoming.1.rateNow e).window⟩ ∧
      (engine.counted incoming.1.rateNow e).config = _
    by_cases hcover : e.envelopeType = .coverTraffic
    · rw [counted, if_pos hcover, decide_eq_false (not_not.mpr hcover)]
      exact ⟨.skip _ _, rfl⟩
    · rw [counted, if_neg hcover, decide_eq_true hcover, checkRateLimit]
      by_cases hover : hourMs < incoming.1.rateNow - engine.hourStart
      · rw [if_pos hover]
        exact ⟨.fresh _ _ (over_of_hourMs_lt_sub hover) (UInt32.lt_iff_toNat_lt.mp hlimit), rfl⟩
      · rw [if_neg hover]
        have hroom : engine.relayCountThisHour < engine.config.maxRelayPerHour := by
          rcases haccepts.1.rate hcover with hzero | hover' | hroom
          · exact absurd hzero (UInt32.pos_iff_ne_zero.mp hlimit)
          · exact absurd hover' hover
          · exact hroom
        have hwindow : (⟨(engine.relayCountThisHour + 1).toNat, engine.hourStart.toNat⟩ : Window)
            = ⟨engine.window.count + 1, engine.window.start⟩ := by
          rw [toNat_add_one hroom]
          rfl
        refine ⟨?_, rfl⟩
        show Step _ _ _ ⟨_, _, ⟨(engine.relayCountThisHour + 1).toNat, engine.hourStart.toNat⟩⟩
        rw [hwindow]
        exact .within _ _ (UInt32.lt_iff_toNat_lt.mp hroom)
  · have hnext : next = engine := hsame
    rw [relaysNonCover_of_refused hother, hnext]
    exact ⟨.skip _ _, rfl⟩

theorem follows_relayLog (events : List Incoming) :
    ∀ (engine : RelayEngine), 0 < engine.config.maxRelayPerHour →
      Follows engine.config.maxRelayPerHour.toNat 3600000 engine.window
        (engine.relayLog lz4 events) := by
  induction events with
  | nil => exact fun _ _ => trivial
  | cons incoming events ih =>
    intro engine hlimit
    obtain ⟨hstep, hconfig⟩ := step_window lz4 hlimit incoming
    have hrest := ih (engine.processIncoming lz4 incoming.1 incoming.2).2 (hconfig ▸ hlimit)
    rw [hconfig] at hrest
    exact ⟨hstep, hrest⟩

theorem now_relayLog (events : List Incoming) :
    ∀ (engine : RelayEngine), (engine.relayLog lz4 events).map Entry.now
      = events.map fun incoming => incoming.1.rateNow.toNat := by
  induction events with
  | nil => exact fun _ => rfl
  | cons incoming events ih => exact fun engine => congrArg _ (ih _)

/-- **The hourly limit.** Envelopes arrive at times that do not go back, at an engine with a
limit. Between two resets of the counter, the envelope that resets it included, at most `limit`
envelopes other than cover traffic are answered StoreAndRelay; and at most twice that within
any hour. -/
theorem hourly_limit (lz4 : Lz4) (engine : RelayEngine) (events : List Incoming)
    (hlimit : 0 < engine.config.maxRelayPerHour)
    (hclock : (events.map fun incoming => incoming.1.rateNow).Pairwise (· ≤ ·)) :
    let log := engine.relayLog lz4 events
    (∀ before first rest after, log = before ++ (first :: rest ++ after) →
      (∀ entry ∈ rest, entry.window.start = first.window.start) →
      (first :: rest).countP (·.passed) ≤ engine.config.maxRelayPerHour.toNat) ∧
    ∀ a, log.countP (fun entry => entry.passed && decide (a ≤ entry.now ∧ entry.now ≤ a + 3600000))
      ≤ 2 * engine.config.maxRelayPerHour.toNat := by
  intro log
  have hfollows : Follows engine.config.maxRelayPerHour.toNat 3600000 engine.window log :=
    follows_relayLog events engine hlimit
  refine ⟨fun before first rest after hlog hsame => ?_, fun a => ?_⟩
  · rw [hlog] at hfollows
    obtain ⟨w, hpart⟩ := hfollows.of_append
    exact countP_passed_le hpart.left hsame
  · refine countP_within_le hfollows ?_
    rw [now_relayLog]
    rw [List.pairwise_map] at hclock ⊢
    exact hclock.imp UInt64.le_iff_toNat_le.mp

end RelayEngine

/-- An envelope arrives at a fresh engine, and once more two hours later. -/
theorem hourly_limit_freshEngine :
    ∃ data, DriftEnvelope.fromBytes DriftEnvelope.literalLz4 data = .ok lowEnvelope ∧
      ∀ a, ((filledEngine 0).relayLog DriftEnvelope.literalLz4
          [(quietReading, data), ({ quietReading with rateNow := 7200000 }, data)]).countP
        (fun entry => entry.passed && decide (a ≤ entry.now ∧ entry.now ≤ a + 3600000))
          ≤ 2 * (filledEngine 0).config.maxRelayPerHour.toNat := by
  obtain ⟨data, hparse⟩ := exists_bytes_lowEnvelope
  have hlimit : 0 < (filledEngine 0).config.maxRelayPerHour := by
    show 0 < RelayConfig.default.maxRelayPerHour
    decide
  have hclock : ([0, 7200000] : List UInt64).Pairwise (· ≤ ·) := by decide
  exact ⟨data, hparse, (RelayEngine.hourly_limit DriftEnvelope.literalLz4 (filledEngine 0)
    [(quietReading, data), ({ quietReading with rateNow := 7200000 }, data)] hlimit hclock).2⟩

end Scm.Drift
