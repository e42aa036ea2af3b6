import Mathlib.Algebra.Order.Ring.Rat
import Scm.Routing.Engine
import Scm.Runs

/-!
# The hops a routing decision offers — `core/src/routing/engine.rs`, `local.rs`

For a hint that the local cell can reach, `route_message` takes the first of the peers that
advertise it, "already sorted by reliability in LocalCell". `peers_for_hint` does not sort: it
filters a hash map, whose order says nothing (`best_peer_iff`).

`route_redundant` replaces the alternatives of that decision by the first hops of all layers, the
one that was chosen among them (`redundant_iff`).

What holds of every cell is what its calls keep: a peer is filed under its id and has a transport
(`wellFormed_run`). The tables of the other layers are arbitrary.
-/

namespace Scm.Routing

open List hiding Vector
open Collections Floats Runs

variable {F : Type} (A : FloatOps F)

/-! ## The calls of a local cell -/

namespace LocalCell

/-- `f64::clamp` to the unit interval. -/
def clampUnit (x : F) : F :=
  let x := if A.lt x (A.lit 0) then A.lit 0 else x
  if A.lt (A.lit 1) x then A.lit 1 else x

/-- `update_reliability`. -/
def updateReliability (cell : LocalCell F) (peerId : PeerId) (success : Bool) : LocalCell F :=
  match cell.peers.lookup peerId with
  | some peer =>
    let increment := if success then A.lit (1 / 10) else A.lit (-15 / 100)
    let reliabilityScore := clampUnit A (A.add peer.reliabilityScore increment)
    { cell with peers := cell.peers.replace peerId { peer with reliabilityScore } }
  | none => cell

/-- What `tick` makes of a status; the subtraction wraps. -/
def tickStatus (now activeTimeout staleTimeout : UInt64) : PeerStatus → PeerStatus
  | .active lastSeen transport =>
    if now - .ofNat lastSeen > activeTimeout then .stale lastSeen transport
    else .active lastSeen transport
  | .stale lastSeen transport =>
    if now - .ofNat lastSeen > staleTimeout then .dormant lastSeen else .stale lastSeen transport
  | .dormant lastSeen => .dormant lastSeen

/-- `tick`, without its events. -/
def tick (cell : LocalCell F) (now activeTimeout staleTimeout : UInt64) : LocalCell F :=
  { cell with peers := mapValues cell.peers fun peer =>
      { peer with status := tickStatus now activeTimeout staleTimeout peer.status } }

/-- The map in another order of iteration. -/
def reorder (cell : LocalCell F) (order : Reordering (Sigma fun _ : PeerId => PeerInfo F)) :
    LocalCell F :=
  { cell with peers := ⟨order.order cell.peers.entries,
      (perm_nodupKeys (order.perm _)).mpr cell.peers.nodupKeys⟩ }

end LocalCell

/-- The calls that change a cell, and the map that moves. -/
inductive CellCall (F : Type) where
  | peerSeen (now : Nat) (peerId : PeerId) (transport : TransportType)
  | updatePeerHints (peerId : PeerId) (hints : List Hint)
  | updateReliability (peerId : PeerId) (success : Bool)
  | tick (now activeTimeout staleTimeout : UInt64)
  | reorder (order : Reordering (Sigma fun _ : PeerId => PeerInfo F))

namespace LocalCell

def step (cell : LocalCell F) : CellCall F → LocalCell F
  | .peerSeen now peerId transport => cell.peerSeen A now peerId transport
  | .updatePeerHints peerId hints => cell.updatePeerHints peerId hints
  | .updateReliability peerId success => cell.updateReliability A peerId success
  | .tick now activeTimeout staleTimeout => cell.tick now activeTimeout staleTimeout
  | .reorder order => cell.reorder order

/-- A peer is filed under its id, and has been seen on some transport. -/
def WellFormed (cell : LocalCell F) : Prop :=
  ∀ id peer, cell.peers.lookup id = some peer → peer.peerId = id ∧ peer.transports ≠ []

variable {cell : LocalCell F}

variable {m : AList fun _ : PeerId => PeerInfo F} {k id : PeerId} {v peer : PeerInfo F}

theorem lookup_replace_cases (h : (m.replace k v).lookup id = some peer) :
    id = k ∧ peer = v ∨ m.lookup id = some peer := by
  have hmem : ∀ l : List (Sigma fun _ : PeerId => PeerInfo F), ∀ entry ∈ l.kreplace k v,
      entry = ⟨k, v⟩ ∨ entry ∈ l := by
    intro l entry hentry
    induction l with
    | nil => exact .inr hentry
    | cons first rest ih =>
      rw [List.kreplace, lookmap_cons] at hentry
      by_cases hk : k = first.1 <;> simp only [hk, if_true, if_false, mem_cons] at * <;> tauto
  rw [← Option.mem_def, AList.mem_lookup_iff] at h
  rcases hmem _ _ h with heq | hold
  · cases heq
    exact .inl ⟨rfl, rfl⟩
  · exact .inr (AList.mem_lookup_iff.mpr hold)

/-- What a call makes of one peer's record keeps it well formed. -/
theorem wellFormed_replace (h : cell.WellFormed) (hpeer : peer.peerId = id ∧ peer.transports ≠ []) :
    WellFormed { cell with peers := cell.peers.replace id peer } := by
  intro other found hfound
  rcases lookup_replace_cases hfound with ⟨rfl, rfl⟩ | hold
  · exact hpeer
  · exact h other found hold

theorem wellFormed_step (call : CellCall F) (h : cell.WellFormed) :
    (cell.step A call).WellFormed := by
  cases call with
  | peerSeen now id transport =>
    show (cell.peerSeen A now id transport).WellFormed
    unfold peerSeen
    split
    next peer hpeer =>
      refine wellFormed_replace h ⟨(h id peer hpeer).1, ?_⟩
      split
      next => exact (h id peer hpeer).2
      next => simp
    intro other found hfound
    rcases lookup_insert_cases hfound with ⟨rfl, rfl⟩ | ⟨-, hold⟩
    · exact ⟨rfl, by simp⟩
    · refine h other found ?_
      split at hold
      next =>
        unfold evictLowestReliability at hold
        split at hold
        next => exact hold
        next => exact lookup_of_lookup_erase hold
      next => exact hold
  | updatePeerHints id hints =>
    show (cell.updatePeerHints id hints).WellFormed
    unfold updatePeerHints
    split
    next peer hpeer => exact wellFormed_replace h (h id peer hpeer)
    next => exact h
  | updateReliability id success =>
    show (cell.updateReliability A id success).WellFormed
    unfold updateReliability
    split
    next peer hpeer => exact wellFormed_replace h (h id peer hpeer)
    next => exact h
  | tick now activeTimeout staleTimeout =>
    intro other found hfound
    rw [step, tick, lookup_mapValues, Option.map_eq_some_iff] at hfound
    obtain ⟨peer, hpeer, rfl⟩ := hfound
    exact h other peer hpeer
  | reorder order =>
    intro other found hfound
    exact h other found ((AList.perm_lookup (order.perm _)).symm.trans hfound)

/-- **What holds of every cell.** -/
theorem wellFormed_run (calls : List (CellCall F)) : (run (step A) new calls).WellFormed :=
  run_invariant_always (fun _ call h => wellFormed_step A call h) calls new nofun

/-- The same peers, in any order. -/
def SamePeers (cell other : LocalCell F) : Prop := cell.peers.entries.Perm other.peers.entries

theorem SamePeers.mem_peersForHint {other : LocalCell F} (h : SamePeers cell other) {hint : Hint}
    {peer : PeerInfo F} : peer ∈ cell.peersForHint hint ↔ peer ∈ other.peersForHint hint := by
  simp only [peersForHint, mem_filter, values, (h.map Sigma.snd).mem_iff]

theorem WellFormed.of_mem (h : cell.WellFormed) {hint : Hint} {peer : PeerInfo F}
    (hpeer : peer ∈ cell.peersForHint hint) :
    cell.peers.lookup peer.peerId = some peer ∧ peer.transports ≠ [] := by
  obtain ⟨entry, hentry, rfl⟩ := mem_map.mp (mem_filter.mp hpeer).1
  have hlookup : cell.peers.lookup entry.1 = some entry.2 := AList.mem_lookup_iff.mpr hentry
  obtain ⟨hid, htransports⟩ := h entry.1 entry.2 hlookup
  exact ⟨hid ▸ hlookup, htransports⟩

/-- Any of the peers for a hint may come first. -/
theorem exists_first {hint : Hint} {peer : PeerInfo F} (hpeer : peer ∈ cell.peersForHint hint) :
    ∃ other : LocalCell F, SamePeers other cell ∧
      ∃ rest, other.peersForHint hint = peer :: rest := by
  obtain ⟨hvalue, hadvertises⟩ := mem_filter.mp hpeer
  obtain ⟨entry, hentry, rfl⟩ := mem_map.mp hvalue
  obtain ⟨before, after, hsplit⟩ := append_of_mem hentry
  have hperm : (entry :: (before ++ after)).Perm cell.peers.entries :=
    hsplit ▸ perm_middle.symm
  refine ⟨{ cell with peers := ⟨_, (perm_nodupKeys hperm).mpr cell.peers.nodupKeys⟩ }, hperm,
    _, filter_cons_of_pos hadvertises⟩

end LocalCell

/-! ## The primary hop -/

namespace RoutingEngine

variable {A}

/-- Where the local cell reaches the hint, the primary hop is an active peer advertising it, and
none of these is more reliable. -/
def ChoosesBest (value : F → ℚ) (engine : RoutingEngine F) (hint : Hint)
    (decision : RoutingDecision F) : Prop :=
  engine.localCell.peersForHint hint ≠ [] →
    ∃ peer ∈ engine.localCell.peersForHint hint, ∃ transport,
      decision.primary = .direct peer.peerId transport ∧
        ∀ other ∈ engine.localCell.peersForHint hint,
          value other.reliabilityScore ≤ value peer.reliabilityScore

theorem primary_of_cons {engine : RoutingEngine F} {hint : Hint} {peer : PeerInfo F}
    {rest : List (PeerInfo F)} (h : engine.localCell.peersForHint hint = peer :: rest)
    (messageId : Vector UInt8 16) (priority : UInt8) :
    (engine.routeMessage A hint messageId priority).primary
      = .direct peer.peerId (peer.transports.head?.getD .ble) := by
  rw [routeMessage, h]

/-- **The primary hop is the best one whatever the order of the map exactly when** all active
peers that advertise the hint are equally reliable. -/
theorem best_peer_iff (A : FloatOps F) (value : F → ℚ) (calls : List (CellCall F))
    (neighborhood : NeighborhoodTable F) (global : GlobalRoutes F) (hint : Hint)
    (messageId : Vector UInt8 16) (priority : UInt8) :
    (∀ cell : LocalCell F, cell.SamePeers (run (LocalCell.step A) .new calls) →
      let engine : RoutingEngine F := ⟨cell, neighborhood, global⟩
      engine.ChoosesBest value hint (engine.routeMessage A hint messageId priority)) ↔
    ∀ a ∈ (run (LocalCell.step A) .new calls).peersForHint hint,
      ∀ b ∈ (run (LocalCell.step A) .new calls).peersForHint hint,
        value a.reliabilityScore = value b.reliabilityScore := by
  have hwf := LocalCell.wellFormed_run A calls
  generalize run (LocalCell.step A) .new calls = known at hwf
  constructor
  · intro h
    -- with `b` in front, `b` is chosen
    have hle : ∀ a ∈ known.peersForHint hint, ∀ b ∈ known.peersForHint hint,
        value a.reliabilityScore ≤ value b.reliabilityScore := by
      intro a ha b hb
      obtain ⟨cell, hsame, rest, hfirst⟩ := LocalCell.exists_first hb
      obtain ⟨peer, hpeer, transport, hprimary, hbest⟩ := h cell hsame (by simp [hfirst])
      rw [primary_of_cons hfirst] at hprimary
      have hid : b.peerId = peer.peerId := (NextHop.direct.inj hprimary).1
      have hlookup := (hwf.of_mem (hsame.mem_peersForHint.mp hpeer)).1
      rw [← hid, (hwf.of_mem hb).1] at hlookup
      rw [Option.some.inj hlookup]
      exact hbest a (hsame.mem_peersForHint.mpr ha)
    exact fun a ha b hb => le_antisymm (hle a ha b hb) (hle b hb a ha)
  · intro h cell hsame engine hsome
    obtain ⟨peer, rest, hfirst⟩ := exists_cons_of_ne_nil hsome
    have hpeer : peer ∈ engine.localCell.peersForHint hint := hfirst ▸ mem_cons_self
    exact ⟨peer, hpeer, _, primary_of_cons hfirst _ _, fun other hother =>
      (h other (hsame.mem_peersForHint.mp hother) peer (hsame.mem_peersForHint.mp hpeer)).le⟩

/-- Two peers advertise a hint, and the one that has relayed a message is not the first. -/
def twoPeers : LocalCell ℚ :=
  let a : PeerId := .replicate 32 1
  let b : PeerId := .replicate 32 2
  let hint : Hint := .replicate 4 0
  run (LocalCell.step exact) .new [.peerSeen 0 a .ble, .peerSeen 0 b .ble,
    .updatePeerHints a [hint], .updatePeerHints b [hint], .updateReliability a true]

theorem less_reliable_chosen :
    let engine : RoutingEngine ℚ := ⟨twoPeers, .new, .new⟩
    ¬ engine.ChoosesBest id (.replicate 4 0)
      (engine.routeMessage exact (.replicate 4 0) (.replicate 16 0) 0) := by
  intro engine h
  have hchosen : (engine.routeMessage exact (.replicate 4 0) (.replicate 16 0) 0).primary
      = .direct (.replicate 32 2) .ble := by
    decide +kernel
  have hbetter : ∀ peer ∈ engine.localCell.peersForHint (.replicate 4 0),
      peer.peerId = .replicate 32 2 → ∃ other ∈ engine.localCell.peersForHint (.replicate 4 0),
        peer.reliabilityScore < other.reliabilityScore := by
    decide +kernel
  obtain ⟨peer, hpeer, transport, hprimary, hbest⟩ := h (by decide +kernel)
  obtain ⟨hid, -⟩ := NextHop.direct.inj (hchosen.symm.trans hprimary)
  obtain ⟨other, hother, hlt⟩ := hbetter peer hpeer hid.symm
  exact absurd (hbest other hother) (not_le.mpr hlt)

/-! ## Redundant hops -/

/-- A peer of the local cell as a hop, on its first transport. -/
def directHop (peer : PeerInfo F) : Option NextHop :=
  peer.transports.head?.map fun transport => .direct peer.peerId transport

/-- The best gateway as a hop. -/
def gatewayHop (A : FloatOps F) (engine : RoutingEngine F) (hint : Hint) : Option NextHop :=
  (engine.neighborhood.bestGatewayForHint A hint).map fun gateway =>
    .gateway gateway.gatewayId gateway.transport gateway.hopsAway

/-- The best global route as a hop. -/
def routeHop (A : FloatOps F) (engine : RoutingEngine F) (hint : Hint) : Option NextHop :=
  (engine.global.bestRouteForHint A hint).map fun route =>
    .globalRoute route.nextHop route.hopCount

/-- `collect_alternative_hops_count`. -/
def collectAlternativeHopsCount (A : FloatOps F) (engine : RoutingEngine F) (hint : Hint)
    (count : Nat) : List NextHop :=
  let localPeers := engine.localCell.peersForHint hint
  let alternatives := (localPeers.take (min count localPeers.length)).filterMap directHop
  let alternatives :=
    if alternatives.length < count then alternatives ++ (engine.gatewayHop A hint).toList
    else alternatives
  if alternatives.length < count then alternatives ++ (engine.routeHop A hint).toList
  else alternatives

/-- `route_redundant`. -/
def routeRedundant (A : FloatOps F) (engine : RoutingEngine F) (hint : Hint)
    (messageId : Vector UInt8 16) (priority : UInt8) (redundancy : Nat) : RoutingDecision F :=
  let decision := engine.routeMessage A hint messageId priority
  if redundancy > 1 then
    { decision with
      alternatives := engine.collectAlternativeHopsCount A hint (redundancy - 1) }
  else decision

/-- All that the three layers know for a hint. -/
def knownHops (engine : RoutingEngine F) (hint : Hint) : List NextHop :=
  (engine.localCell.peersForHint hint).filterMap directHop ++
    (engine.neighborhood.gatewaysForHint hint).map (fun gateway =>
      .gateway gateway.gatewayId gateway.transport gateway.hopsAway) ++
    ((engine.global.routes.lookup hint).getD []).map fun route =>
      .globalRoute route.nextHop route.hopCount

/-- The hops of a decision are different ones, and as many as asked for and known. -/
def Redundant (engine : RoutingEngine F) (hint : Hint) (redundancy : Nat)
    (decision : RoutingDecision F) : Prop :=
  (decision.primary :: decision.alternatives).Nodup ∧
    min redundancy (engine.knownHops hint).dedup.length
      ≤ (decision.primary :: decision.alternatives).length

variable {engine : RoutingEngine F} {hint : Hint} {messageId : Vector UInt8 16} {priority : UInt8}

theorem not_holds_iff (A : FloatOps F) : ¬ engine.Holds hint ↔
    engine.localCell.peersForHint hint = [] ∧ engine.neighborhood.bestGatewayForHint A hint = none ∧
      engine.global.bestRouteForHint A hint = none := by
  rw [Holds, not_or, not_or, peersForHint_eq_nil_iff, bestGatewayForHint_eq_none_iff,
    bestRouteForHint_eq_none_iff]

/-- The hops of a plain decision are from different layers. -/
theorem nodup_routeMessage (A : FloatOps F) (engine : RoutingEngine F) (hint : Hint)
    (messageId : Vector UInt8 16) (priority : UInt8) :
    ((engine.routeMessage A hint messageId priority).primary ::
      (engine.routeMessage A hint messageId priority).alternatives).Nodup := by
  unfold routeMessage collectAlternativeHops
  cases hpeers : engine.localCell.peersForHint hint <;>
    cases engine.neighborhood.bestGatewayForHint A hint <;>
      cases engine.global.bestRouteForHint A hint <;> simp

/-- The primary hop is the first that `collect_alternative_hops_count` finds. -/
theorem primary_mem_collect (hwf : engine.localCell.WellFormed) (hholds : engine.Holds hint)
    {count : Nat} (hcount : 0 < count) :
    (engine.routeMessage A hint messageId priority).primary
      ∈ engine.collectAlternativeHopsCount A hint count := by
  have hsome := mt (not_holds_iff A).mpr (not_not_intro hholds)
  rcases hpeers : engine.localCell.peersForHint hint with _ | ⟨peer, rest⟩
  · -- without a peer, the best gateway or else the best route
    simp only [routeMessage, collectAlternativeHopsCount, gatewayHop, routeHop, hpeers]
    cases hgateway : engine.neighborhood.bestGatewayForHint A hint <;>
      cases hroute : engine.global.bestRouteForHint A hint <;> simp_all
    split <;> simp
  · have htransports := (hwf.of_mem (hpeers ▸ mem_cons_self)).2
    obtain ⟨transport, transports, hlist⟩ := exists_cons_of_ne_nil htransports
    have hfirst : NextHop.direct peer.peerId transport ∈
        (List.take (min count (rest.length + 1)) (peer :: rest)).filterMap directHop := by
      obtain ⟨k, hk⟩ := Nat.exists_eq_succ_of_ne_zero (by omega : min count (rest.length + 1) ≠ 0)
      simp [hk, directHop, hlist]
    rw [primary_of_cons hpeers]
    simp only [collectAlternativeHopsCount, hpeers, length_cons]
    grind

/-- **The hops are different and enough exactly when** one hop is asked for or none is known. -/
theorem redundant_iff (A : FloatOps F) (calls : List (CellCall F))
    (neighborhood : NeighborhoodTable F) (global : GlobalRoutes F) (hint : Hint)
    (messageId : Vector UInt8 16) (priority : UInt8) (redundancy : Nat) :
    let engine : RoutingEngine F := ⟨run (LocalCell.step A) .new calls, neighborhood, global⟩
    engine.Redundant hint redundancy
        (engine.routeRedundant A hint messageId priority redundancy) ↔
      redundancy ≤ 1 ∨ ¬ engine.Holds hint := by
  intro engine
  have hwf : engine.localCell.WellFormed := LocalCell.wellFormed_run A calls
  unfold Redundant routeRedundant
  by_cases hr : redundancy > 1
  · simp only [if_pos hr, Nat.not_le.mpr hr, false_or]
    constructor
    · exact fun h hholds => (nodup_cons.mp h.1).1 (primary_mem_collect hwf hholds (by omega))
    · intro hnone
      obtain ⟨hpeers, hgateway, hroute⟩ := (not_holds_iff A).mp hnone
      have halternatives : engine.collectAlternativeHopsCount A hint (redundancy - 1) = [] := by
        simp [collectAlternativeHopsCount, gatewayHop, routeHop, hpeers, hgateway, hroute]
      have hgateways : engine.neighborhood.gatewaysForHint hint = [] :=
        minBy_eq_none_iff.mp hgateway
      have hroutes : (engine.global.routes.lookup hint).getD [] = [] := by
        have hnone := bestRouteForHint_eq_none_iff.mp hroute
        cases hlookup : engine.global.routes.lookup hint <;> simp_all
      have hknown : engine.knownHops hint = [] := by
        simp [knownHops, hpeers, hgateways, hroutes]
      simp only [halternatives, hknown]
      exact ⟨nodup_singleton _, Nat.min_le_right redundancy 0 |>.trans (Nat.zero_le 1)⟩
  · simp only [if_neg hr, Nat.not_lt.mp hr, true_or, iff_true]
    refine ⟨nodup_routeMessage A engine hint messageId priority, ?_⟩
    rw [length_cons]
    omega

/-- One neighbour, and two hops asked for: the same hop twice. -/
theorem hop_offered_twice :
    let peer : PeerId := .replicate 32 1
    let engine : RoutingEngine ℚ := ⟨run (LocalCell.step exact) .new
      [.peerSeen 0 peer .ble, .updatePeerHints peer [.replicate 4 0]], .new, .new⟩
    ¬ engine.Redundant (.replicate 4 0) 2
      (engine.routeRedundant exact (.replicate 4 0) (.replicate 16 0) 0 2) := by
  intro peer engine h
  have hnodup : ¬ ((engine.routeRedundant exact (.replicate 4 0) (.replicate 16 0) 0 2).primary ::
      (engine.routeRedundant exact (.replicate 4 0) (.replicate 16 0) 0 2).alternatives).Nodup := by
    decide +kernel
  exact hnodup h.1

end RoutingEngine

end Scm.Routing
