import Mathlib.Data.List.MinMax
import Scm.Bytes

/-!
# The best transport — `core/src/transport/manager.rs`

Every transport a peer is known on gets a score, and the last one of those with the highest is
taken. The score has the latency subtracted from 100 in `u64`; `none` stands for an underflow.
The other terms are small (`score_le`). A set is the list of its elements in the order in which
they are iterated over.
-/

namespace Scm.Transport

open List hiding Vector

inductive TransportType where
  | ble
  | wifiAware
  | wifiDirect
  | internet
  | localTesting
  deriving DecidableEq, Repr

/-- `TransportCapabilities`, as far as it is scored. -/
structure TransportCapabilities where
  supportsStreaming : Bool
  estimatedBandwidthBps : UInt64
  estimatedLatencyMs : UInt32
  deriving DecidableEq, Repr

structure TransportState where
  connectedPeers : List (Vector UInt8 32)
  capabilities : TransportCapabilities

/-- `PeerNotFound`, with the bytes of the id that it prints. -/
inductive TransportError where
  | peerNotFound (bytes : Bytes)
  deriving DecidableEq, Repr

structure TransportManager where
  transports : TransportType → Option TransportState
  peerTransports : Vector UInt8 32 → Option (List TransportType)

namespace TransportManager

/-- The subtraction in the score goes below zero. -/
def underflows (m : TransportManager) (transport : TransportType) : Bool :=
  match m.transports transport with
  | none => false
  | some state => 100 < state.capabilities.estimatedLatencyMs

/-- The score, where it does not. -/
def score (m : TransportManager) (peerId : Vector UInt8 32) (transport : TransportType) : Nat :=
  match m.transports transport with
  | none => 0
  | some state =>
    let caps := state.capabilities
    (if peerId ∈ state.connectedPeers then 1000 else 0)
      + (if caps.supportsStreaming then 500 else 0)
      + min 100 (caps.estimatedBandwidthBps.toNat / 1000000) * 5
      + max 0 (100 - caps.estimatedLatencyMs.toNat)

/-- `best_transport_for_peer`. `max_by_key` computes every score and keeps the last maximum. -/
def bestTransportForPeer (m : TransportManager) (peerId : Vector UInt8 32) :
    Option (Except TransportError TransportType) :=
  let notFound := TransportError.peerNotFound (peerId.toList.take 8)
  match m.peerTransports peerId with
  | none => some (.error notFound)
  | some available =>
    if available.any m.underflows then none
    else
      match available.reverse.argmax (m.score peerId) with
      | none => some (.error notFound)
      | some best => some (.ok best)

/-- Of two registered transports the first is to be preferred: the peer is connected on it only,
or its latency is lower, and else they are equal. -/
def Preferable (peerId : Vector UInt8 32) (a b : TransportState) : Prop :=
  a.capabilities = b.capabilities ∧ peerId ∈ a.connectedPeers ∧ peerId ∉ b.connectedPeers ∨
  (peerId ∈ a.connectedPeers ↔ peerId ∈ b.connectedPeers) ∧
    a.capabilities.supportsStreaming = b.capabilities.supportsStreaming ∧
    a.capabilities.estimatedBandwidthBps = b.capabilities.estimatedBandwidthBps ∧
    a.capabilities.estimatedLatencyMs < b.capabilities.estimatedLatencyMs

variable {m : TransportManager} {peerId : Vector UInt8 32}

theorem score_le (transport : TransportType) : m.score peerId transport ≤ 2100 := by
  unfold score
  split
  next => omega
  next =>
    dsimp only
    split_ifs <;> omega

theorem not_underflows_iff (transport : TransportType) :
    ¬ m.underflows transport ↔ ∀ state, m.transports transport = some state →
      state.capabilities.estimatedLatencyMs ≤ 100 := by
  unfold underflows
  cases m.transports transport with
  | none => simp
  | some state => simp

theorem score_lt {a b : TransportType} {sa sb : TransportState} (ha : m.transports a = some sa)
    (hb : m.transports b = some sb) (hlow : sb.capabilities.estimatedLatencyMs ≤ 100)
    (h : Preferable peerId sa sb) : m.score peerId b < m.score peerId a := by
  simp only [score, ha, hb]
  rcases h with ⟨hcaps, hin, hout⟩ | ⟨hconnected, hstreaming, hbandwidth, hlatency⟩
  · rw [hcaps, if_pos hin, if_neg hout]
    omega
  · rw [UInt32.lt_iff_toNat_lt] at hlatency
    have hlow : sb.capabilities.estimatedLatencyMs.toNat ≤ 100 := UInt32.le_iff_toNat_le.mp hlow
    simp only [hconnected, hstreaming, hbandwidth]
    omega

/-- **When the best transport is found.** For a peer known on some transports the call returns
one of them exactly when none of them has a latency above 100 ms. Then no score is above 2,100, and
a transport is not taken when another one is to be preferred. -/
theorem best_iff (m : TransportManager) (peerId : Vector UInt8 32) (available : List TransportType)
    (hknown : m.peerTransports peerId = some available) (hsome : available ≠ []) :
    ((∃ best ∈ available, m.bestTransportForPeer peerId = some (.ok best)) ↔
      ∀ transport ∈ available, ∀ state, m.transports transport = some state →
        state.capabilities.estimatedLatencyMs ≤ 100) ∧
    (∀ transport, m.score peerId transport ≤ 2100) ∧
    ∀ a ∈ available, ∀ b sa sb, m.transports a = some sa → m.transports b = some sb →
      Preferable peerId sa sb → m.bestTransportForPeer peerId ≠ some (.ok b) := by
  have hbest (b : TransportType) : m.bestTransportForPeer peerId = some (.ok b) ↔
      (∀ transport ∈ available, ¬ m.underflows transport) ∧
        available.reverse.argmax (m.score peerId) = some b := by
    unfold bestTransportForPeer
    rw [hknown, ← any_eq_false]
    dsimp only
    cases available.any m.underflows with
    | true => simp
    | false => cases available.reverse.argmax (m.score peerId) <;> simp
  refine ⟨⟨?_, fun hlow => ?_⟩, score_le, fun a ha b sa sb hsa hsb hab hb => ?_⟩
  · rintro ⟨best, _, h⟩ transport htransport
    exact (not_underflows_iff transport).mp (((hbest best).mp h).1 transport htransport)
  · cases hmax : available.reverse.argmax (m.score peerId) with
    | none => exact absurd (reverse_eq_nil_iff.mp (argmax_eq_none.mp hmax)) hsome
    | some best =>
      exact ⟨best, mem_reverse.mp (argmax_mem hmax), (hbest best).mpr
        ⟨fun transport h => (not_underflows_iff transport).mpr (hlow transport h), hmax⟩⟩
  · obtain ⟨hall, hmax⟩ := (hbest b).mp hb
    have hlow := (not_underflows_iff b).mp (hall b (mem_reverse.mp (argmax_mem hmax)))
    exact Nat.not_lt.mpr (le_of_mem_argmax (mem_reverse.mpr ha) hmax)
      (score_lt hsa hsb (hlow sb hsb) hab)

/-- A peer seen on two transports, of which one is registered, with this latency. -/
def oneRegistered (latency : UInt32) : TransportManager where
  transports
    | .internet => some ⟨[], true, 100000000, latency⟩
    | _ => none
  peerTransports _ := some [.internet, .ble]

/-- The other one is registered too, and slower. -/
def bothRegistered : TransportManager :=
  { oneRegistered 20 with
    transports := Function.update (oneRegistered 20).transports .ble
      (some ⟨[], true, 100000000, 90⟩) }

theorem best_iff_internet :
    bothRegistered.bestTransportForPeer (.replicate 32 0) = some (.ok .internet) := by
  obtain ⟨hfound, -, hpreferred⟩ :=
    best_iff bothRegistered (.replicate 32 0) _ rfl (by decide)
  obtain ⟨best, hbest, hok⟩ := hfound.mpr fun transport _ => by
    rw [← not_underflows_iff]
    cases transport <;> decide
  have hslower := hpreferred .internet (by decide) .ble _ _ rfl rfl
    (.inr ⟨Iff.rfl, rfl, rfl, by decide⟩)
  rcases mem_pair.mp hbest with rfl | rfl
  · exact hok
  · exact absurd hok hslower

/-- At 101 ms the score underflows. -/
theorem slow_transport_underflows :
    (oneRegistered 101).bestTransportForPeer (.replicate 32 0) = none := by
  decide

end TransportManager

end Scm.Transport
