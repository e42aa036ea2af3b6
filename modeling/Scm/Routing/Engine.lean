import Scm.Crypto.Ratchet
import Scm.Floats

/-!
# The routing engine — `core/src/routing/`

Where a message goes next. `route_message` (`engine.rs`) asks three layers for the recipient's
hint, four bytes of a hash: the peers of the local cell, the gateways of the neighbourhood, and
the routes learned over the internet. Without an answer it asks the network for a route, or,
when it has asked already or the message does not matter enough, says store-and-carry.
`route_message_optimized` (`optimized_engine.rs`) puts in front of that a cache of recipients
known to be unreachable, the routes saved when the app was last in the background, and the
paths of the multipath manager.

Maps are iterated in the order of their entries. Left out is what no decision reads: the
timeout budget, the activity of peers, statistics. A recipient is never recorded as unreachable
by a decision: the name that would be recorded is empty unless a global route was found, and
then the decision is not store-and-carry.
-/

namespace Scm.Routing

open List hiding Vector
open Bytes Collections Crypto Floats

abbrev PeerId := Key

abbrev Hint := Vector UInt8 4

/-! ## Layer 1: the local cell -/

inductive TransportType where
  | ble
  | wifiAware
  | wifiDirect
  | tcp
  | quic
  deriving DecidableEq, Repr

inductive PeerStatus where
  | active (lastSeen : Nat) (transport : TransportType)
  | stale (lastSeen : Nat) (lastTransport : TransportType)
  | dormant (lastSeen : Nat)
  deriving DecidableEq, Repr

structure PeerInfo (F : Type) where
  peerId : PeerId
  status : PeerStatus
  reachableHints : List Hint
  reliabilityScore : F
  transports : List TransportType
  deriving DecidableEq, Repr

structure LocalCell (F : Type) where
  peers : AList fun _ : PeerId => PeerInfo F
  maxPeers : Nat

def PeerStatus.isActive : PeerStatus → Bool
  | .active _ _ => true
  | _ => false

variable {F : Type} (A : FloatOps F)

namespace LocalCell

def new : LocalCell F := ⟨∅, 1000⟩

/-- The known peers, in the order of iteration. -/
def values (cell : LocalCell F) : List (PeerInfo F) := cell.peers.entries.map Sigma.snd

/-- `peers_for_hint`. -/
def peersForHint (cell : LocalCell F) (hint : Hint) : List (PeerInfo F) :=
  cell.values.filter fun peer => peer.status.isActive && decide (hint ∈ peer.reachableHints)

/-- `evict_lowest_reliability`; the scores are between 0 and 1, and so they compare. -/
def evictLowestReliability (cell : LocalCell F) : LocalCell F :=
  match minBy (fun a b => (A.partialCmp a.reliabilityScore b.reliabilityScore).getD .eq)
    cell.values with
  | none => cell
  | some peer => { cell with peers := cell.peers.erase peer.peerId }

/-- `peer_seen` at `now`. -/
def peerSeen (cell : LocalCell F) (now : Nat) (peerId : PeerId) (transport : TransportType) :
    LocalCell F :=
  match cell.peers.lookup peerId with
  | some peer =>
    let transports :=
      if transport ∈ peer.transports then peer.transports else peer.transports ++ [transport]
    let peer := { peer with status := .active now transport, transports }
    { cell with peers := cell.peers.replace peerId peer }
  | none =>
    let cell := if len cell.peers ≥ cell.maxPeers then cell.evictLowestReliability A else cell
    let peer : PeerInfo F :=
      { peerId := peerId
        status := .active now transport
        reachableHints := []
        reliabilityScore := A.lit (1 / 2)
        transports := [transport] }
    { cell with peers := cell.peers.insert peerId peer }

/-- `update_peer_hints`. -/
def updatePeerHints (cell : LocalCell F) (peerId : PeerId) (hints : List Hint) : LocalCell F :=
  match cell.peers.lookup peerId with
  | some peer =>
    { cell with peers := cell.peers.replace peerId { peer with reachableHints := hints } }
  | none => cell

end LocalCell

/-! ## Layer 2: the neighbourhood -/

inductive EnergyClass where
  | charging
  | high
  | low
  | critical
  deriving DecidableEq, Repr

/-- `CellSummary`, as far as it is read. -/
structure CellSummary (F : Type) where
  reachableHints : List Hint
  avgReliability : F
  deriving DecidableEq, Repr

structure GatewayInfo (F : Type) where
  gatewayId : PeerId
  cellSummary : CellSummary F
  hopsAway : UInt8
  transport : TransportType
  energyClass : EnergyClass
  deriving DecidableEq, Repr

structure NeighborhoodTable (F : Type) where
  gateways : AList fun _ : PeerId => GatewayInfo F

/-- `cost_multiplier`. -/
def EnergyClass.costMultiplier : EnergyClass → F
  | .charging => A.lit (1 / 2)
  | .high => A.lit 1
  | .low => A.lit 2
  | .critical => A.lit 8

namespace NeighborhoodTable

def new : NeighborhoodTable F := ⟨∅⟩

/-- `gateways_for_hint`. -/
def gatewaysForHint (table : NeighborhoodTable F) (hint : Hint) : List (GatewayInfo F) :=
  (table.gateways.entries.map Sigma.snd).filter fun gateway =>
    decide (hint ∈ gateway.cellSummary.reachableHints)

/-- `gateway_cost`. -/
def gatewayCost (gateway : GatewayInfo F) : F :=
  let reliability := A.max gateway.cellSummary.avgReliability (A.lit (1 / 100))
  A.div (A.mul (A.ofNat gateway.hopsAway.toNat) (gateway.energyClass.costMultiplier A)) reliability

/-- `best_gateway_for_hint`. -/
def bestGatewayForHint (table : NeighborhoodTable F) (hint : Hint) : Option (GatewayInfo F) :=
  minBy (fun a b => (A.partialCmp (gatewayCost A a) (gatewayCost A b)).getD .eq)
    (table.gatewaysForHint hint)

end NeighborhoodTable

/-! ## Layer 3: global routes -/

/-- `RouteAdvertisement`, as far as it is read. -/
structure RouteAdvertisement (F : Type) where
  nextHop : PeerId
  hopCount : UInt8
  reliability : F
  lastConfirmed : UInt64
  deriving DecidableEq, Repr

structure RouteRequest where
  hint : Hint
  requestedAt : Nat
  attempts : Nat
  maxAttempts : Nat
  deriving DecidableEq, Repr

structure GlobalRoutes (F : Type) where
  routes : AList fun _ : Hint => List (RouteAdvertisement F)
  pendingRequests : AList fun _ : Hint => RouteRequest

namespace GlobalRoutes

def new : GlobalRoutes F := ⟨∅, ∅⟩

/-- The order of `best_route_for_hint`: fewest hops, highest reliability, most recent. -/
def compareRoutes (a b : RouteAdvertisement F) : Ordering :=
  match compare a.hopCount b.hopCount with
  | .eq =>
    match A.partialCmp b.reliability a.reliability with
    | some .eq | none => compare b.lastConfirmed a.lastConfirmed
    | some other => other
  | other => other

/-- `best_route_for_hint`. -/
def bestRouteForHint (table : GlobalRoutes F) (hint : Hint) : Option (RouteAdvertisement F) :=
  match table.routes.lookup hint with
  | none => none
  | some routes => if routes.isEmpty then none else minBy (compareRoutes A) routes

/-- `request_route`. -/
def requestRoute (table : GlobalRoutes F) (hint : Hint) (now : Nat) : GlobalRoutes F :=
  let request : RouteRequest :=
    { hint := hint, requestedAt := now, attempts := 0, maxAttempts := 5 }
  { table with pendingRequests := table.pendingRequests.insert hint request }

/-- `is_route_pending`. -/
def isRoutePending (table : GlobalRoutes F) (hint : Hint) : Bool :=
  (table.pendingRequests.lookup hint).isSome

end GlobalRoutes

/-! ## The engine -/

/-- `NextHop`. -/
inductive NextHop where
  | direct (peerId : PeerId) (transport : TransportType)
  | gateway (gatewayId : PeerId) (transport : TransportType) (hopsRemaining : UInt8)
  | globalRoute (nextHopId : PeerId) (totalHops : UInt8)
  | storeAndCarry
  | routeDiscovery (hint : Hint)
  deriving DecidableEq, Repr

inductive RoutingLayer where
  | localCell
  | neighborhood
  | global
  | storeAndCarry
  deriving DecidableEq, Repr

structure RoutingDecision (F : Type) where
  messageId : Vector UInt8 16
  recipientHint : Hint
  primary : NextHop
  alternatives : List NextHop
  decidedBy : RoutingLayer
  confidence : F
  deriving DecidableEq, Repr

structure RoutingEngine (F : Type) where
  localCell : LocalCell F
  neighborhood : NeighborhoodTable F
  global : GlobalRoutes F

namespace RoutingEngine

def new : RoutingEngine F := ⟨.new, .new, .new⟩

/-- `collect_alternative_hops`. -/
def collectAlternativeHops (engine : RoutingEngine F) (hint : Hint) (skipLayer : RoutingLayer) :
    List NextHop :=
  (if skipLayer ≠ .localCell then
    ((engine.localCell.peersForHint hint).take 1).filterMap fun peer =>
      peer.transports.head?.map fun transport => .direct peer.peerId transport
    else []) ++
  (if skipLayer ≠ .neighborhood then
    ((engine.neighborhood.bestGatewayForHint A hint).map fun gateway =>
      NextHop.gateway gateway.gatewayId gateway.transport gateway.hopsAway).toList
    else []) ++
  (if skipLayer ≠ .global then
    ((engine.global.bestRouteForHint A hint).map fun route =>
      NextHop.globalRoute route.nextHop route.hopCount).toList
    else [])

/-- `route_message`; the clock is not read. -/
def routeMessage (engine : RoutingEngine F) (hint : Hint) (messageId : Vector UInt8 16)
    (priority : UInt8) : RoutingDecision F :=
  match engine.localCell.peersForHint hint with
  | bestPeer :: _ =>
    { messageId := messageId
      recipientHint := hint
      primary := .direct bestPeer.peerId (bestPeer.transports.head?.getD .ble)
      alternatives := engine.collectAlternativeHops A hint .localCell
      decidedBy := .localCell
      confidence := A.min bestPeer.reliabilityScore (A.lit (98 / 100)) }
  | [] =>
    match engine.neighborhood.bestGatewayForHint A hint with
    | some gateway =>
      { messageId := messageId
        recipientHint := hint
        primary := .gateway gateway.gatewayId gateway.transport gateway.hopsAway
        alternatives := engine.collectAlternativeHops A hint .neighborhood
        decidedBy := .neighborhood
        confidence := A.sub (A.lit (85 / 100))
          (A.mul (A.ofNat gateway.hopsAway.toNat) (A.lit (5 / 100))) }
    | none =>
      match engine.global.bestRouteForHint A hint with
      | some route =>
        { messageId := messageId
          recipientHint := hint
          primary := .globalRoute route.nextHop route.hopCount
          alternatives := engine.collectAlternativeHops A hint .global
          decidedBy := .global
          confidence := route.reliability }
      | none =>
        let shouldRequest := !engine.global.isRoutePending hint && decide (priority ≥ 100)
        { messageId := messageId
          recipientHint := hint
          primary := if shouldRequest then .routeDiscovery hint else .storeAndCarry
          alternatives := []
          decidedBy := .storeAndCarry
          confidence := A.lit 0 }

end RoutingEngine

/-! ## In front of it -/

/-- An entry of the negative cache; instants and durations are nanoseconds. -/
structure NegativeCacheEntry where
  confirmedAt : Nat
  ttl : Nat
  deriving DecidableEq, Repr

/-- `NegativeCache`; the Bloom filter is the strings it may contain. -/
structure NegativeCache where
  bloom : String → Bool
  entries : AList fun _ : String => NegativeCacheEntry

/-- `is_definitely_unreachable`. -/
def NegativeCache.isDefinitelyUnreachable (cache : NegativeCache) (now : Nat) (peerId : String) :
    Bool :=
  cache.bloom peerId &&
    match cache.entries.lookup peerId with
    | some entry => !decide (now - entry.confirmedAt > entry.ttl)
    | none => false

inductive PrefetchStatus where
  | fresh
  | stale
  | refreshing
  | failed
  deriving DecidableEq, Repr

structure PrefetchedRoute (F : Type) where
  route : RouteAdvertisement F
  lastValidated : Nat
  status : PrefetchStatus
  deriving DecidableEq, Repr

structure ResumePrefetchManager (F : Type) where
  routes : AList fun _ : Hint => PrefetchedRoute F
  maxStaleAge : Nat

/-- `is_usable`. -/
def PrefetchedRoute.isUsable (prefetched : PrefetchedRoute F) (now maxStaleAge : Nat) : Bool :=
  match prefetched.status with
  | .fresh | .stale => decide (now - prefetched.lastValidated < maxStaleAge)
  | .refreshing => true
  | .failed => false

/-- `get_route_early`. -/
def ResumePrefetchManager.getRouteEarly (manager : ResumePrefetchManager F) (now : Nat)
    (hint : Hint) : Option (RouteAdvertisement F) :=
  match manager.routes.lookup hint with
  | some prefetched =>
    if prefetched.isUsable now manager.maxStaleAge then some prefetched.route else none
  | none => none

structure DeliveryPath (F : Type) where
  pathId : UInt64
  peerId : PeerId
  active : Bool
  score : F
  deriving DecidableEq, Repr

structure MultiPathDelivery (F : Type) where
  paths : AList fun _ : Hint => List (DeliveryPath F)

/-- `active_paths`, the highest score first. -/
def MultiPathDelivery.activePaths (multipath : MultiPathDelivery F) (hint : Hint) :
    List (DeliveryPath F) :=
  (((multipath.paths.lookup hint).getD []).filter DeliveryPath.active).mergeSort fun a b =>
    decide ((A.partialCmp b.score a.score).getD .eq ≠ .gt)

structure OptimizedRoutingEngine (F : Type) where
  baseEngine : RoutingEngine F
  negativeCache : NegativeCache
  prefetchManager : ResumePrefetchManager F
  multipath : MultiPathDelivery F

namespace OptimizedRoutingEngine

def new : OptimizedRoutingEngine F where
  baseEngine := .new
  negativeCache := ⟨fun _ => false, ∅⟩
  prefetchManager := ⟨∅, 3600 * 1000000000⟩
  multipath := ⟨∅⟩

/-- `route_message_optimized`, where the instant is `now`. -/
def routeMessageOptimized (engine : OptimizedRoutingEngine F) (now : Nat) (hint : Hint)
    (messageId : Vector UInt8 16) (priority : UInt8) : RoutingDecision F :=
  let decision (primary : NextHop) (alternatives : List NextHop) (decidedBy : RoutingLayer)
      (confidence : F) : RoutingDecision F :=
    { messageId, recipientHint := hint, primary, alternatives, decidedBy, confidence }
  if engine.negativeCache.isDefinitelyUnreachable now (toHex hint.toList) then
    decision .storeAndCarry [] .storeAndCarry (A.lit 0)
  else
    match engine.prefetchManager.getRouteEarly now hint with
    | some route =>
      decision (.globalRoute route.nextHop route.hopCount) [] .global (A.lit (95 / 100))
    | none =>
      match engine.multipath.activePaths A hint with
      | primary :: rest =>
        if primary.active then
          decision (.globalRoute primary.peerId 1)
            ((rest.filter DeliveryPath.active).map fun path => .globalRoute path.peerId 1) .global
            (A.lit (9 / 10))
        else engine.baseEngine.routeMessage A hint messageId priority
      | [] => engine.baseEngine.routeMessage A hint messageId priority

end OptimizedRoutingEngine

/-! ## When a message is carried -/

namespace RoutingEngine

/-- The engine holds an active peer of the local cell, a gateway or a global route for the
hint. -/
def Holds (engine : RoutingEngine F) (hint : Hint) : Prop :=
  (∃ peer ∈ engine.localCell.values, peer.status.isActive = true ∧ hint ∈ peer.reachableHints) ∨
  (∃ gateway ∈ engine.neighborhood.gateways.entries.map Sigma.snd,
    hint ∈ gateway.cellSummary.reachableHints) ∨
  ∃ routes, engine.global.routes.lookup hint = some routes ∧ routes ≠ []

theorem peersForHint_eq_nil_iff {cell : LocalCell F} {hint : Hint} :
    cell.peersForHint hint = [] ↔
      ¬ ∃ peer ∈ cell.values, peer.status.isActive = true ∧ hint ∈ peer.reachableHints := by
  rw [LocalCell.peersForHint]
  simp

variable {A} in
theorem bestGatewayForHint_eq_none_iff {table : NeighborhoodTable F} {hint : Hint} :
    table.bestGatewayForHint A hint = none ↔
      ¬ ∃ gateway ∈ table.gateways.entries.map Sigma.snd,
        hint ∈ gateway.cellSummary.reachableHints := by
  rw [NeighborhoodTable.bestGatewayForHint, minBy_eq_none_iff, NeighborhoodTable.gatewaysForHint,
    filter_eq_nil_iff]
  simp

variable {A} in
theorem bestRouteForHint_eq_none_iff {table : GlobalRoutes F} {hint : Hint} :
    table.bestRouteForHint A hint = none ↔
      ¬ ∃ routes, table.routes.lookup hint = some routes ∧ routes ≠ [] := by
  unfold GlobalRoutes.bestRouteForHint
  cases table.routes.lookup hint with
  | none => simp
  | some routes =>
    cases routes with
    | nil => simp
    | cons route routes => simp [minBy_eq_none_iff]

/-- The layers have nothing for the hint, and no request is to be made. -/
theorem routeMessage_storeAndCarry_iff (engine : RoutingEngine F) (hint : Hint)
    (messageId : Vector UInt8 16) (priority : UInt8) :
    (engine.routeMessage A hint messageId priority).primary = .storeAndCarry ↔
      ¬ engine.Holds hint ∧ (engine.global.isRoutePending hint = true ∨ priority < 100) := by
  unfold routeMessage Holds
  rw [not_or, not_or, ← peersForHint_eq_nil_iff, ← bestGatewayForHint_eq_none_iff (A := A),
    ← bestRouteForHint_eq_none_iff (A := A)]
  cases engine.localCell.peersForHint hint with
  | cons peer peers => simp
  | nil => grind

end RoutingEngine

namespace OptimizedRoutingEngine

/-- A saved route or a path of the multipath manager is there for the hint. -/
def Cached (engine : OptimizedRoutingEngine F) (now : Nat) (hint : Hint) : Prop :=
  (engine.prefetchManager.getRouteEarly now hint).isSome = true ∨
    ∃ path ∈ (engine.multipath.paths.lookup hint).getD [], path.active = true

section
variable {multipath : MultiPathDelivery F} {hint : Hint}

theorem activePaths_eq_nil_iff :
    multipath.activePaths A hint = [] ↔
      ¬ ∃ path ∈ (multipath.paths.lookup hint).getD [], path.active = true := by
  rw [MultiPathDelivery.activePaths, ← length_eq_zero_iff, length_mergeSort,
    length_eq_zero_iff, filter_eq_nil_iff]
  simp

theorem active_of_mem_activePaths {path : DeliveryPath F}
    (h : path ∈ multipath.activePaths A hint) :
    path.active = true :=
  (mem_filter.mp (mem_mergeSort.mp h)).2

end

/-- **When a message is carried.** The recipient is known to be unreachable, or nothing is
filed under the hint, neither in the caches nor in a layer, and no request is to be made. -/
theorem routeMessageOptimized_storeAndCarry_iff (engine : OptimizedRoutingEngine F) (now : Nat)
    (hint : Hint) (messageId : Vector UInt8 16) (priority : UInt8) :
    (engine.routeMessageOptimized A now hint messageId priority).primary = .storeAndCarry ↔
      engine.negativeCache.isDefinitelyUnreachable now (toHex hint.toList) = true ∨
        ¬ engine.Cached now hint ∧ ¬ engine.baseEngine.Holds hint ∧
          (engine.baseEngine.global.isRoutePending hint = true ∨ priority < 100) := by
  unfold routeMessageOptimized Cached
  rw [not_or, ← activePaths_eq_nil_iff A]
  cases engine.negativeCache.isDefinitelyUnreachable now (toHex hint.toList) with
  | true => simp
  | false =>
    rw [if_neg Bool.false_ne_true]
    cases engine.prefetchManager.getRouteEarly now hint with
    | some route => simp
    | none =>
      cases hpaths : engine.multipath.activePaths A hint with
      | cons path paths => grind [active_of_mem_activePaths]
      | nil =>
        rw [RoutingEngine.routeMessage_storeAndCarry_iff]
        simp

end OptimizedRoutingEngine

end Scm.Routing
