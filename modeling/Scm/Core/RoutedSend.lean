import Scm.Core.Sending
import Scm.Routing.Engine

/-!
# Sending through the routing engine — `core/src/iron_core.rs`

`prepare_message_internal` asks the routing engine about a hint, and on store-and-carry gives
the message to the drift store and not to the outbox. Everywhere else the hint of a recipient
is four bytes of the hash of its public key: `hint_from_public_key`, which goes into the
envelope, and the routing engine's own `local_hint`. The hint asked for here is that of the
recipient's id as it was typed, the hash of the hex digits. Peers that announce the recipient's
hint are not found under it.

`known_route_iff` says when a message with a known route is carried all the same.
-/

namespace Scm.Core

open Bytes Crypto Drift Floats Messaging Routing DriftEnvelope

/-- The hop as the send path looks at it. -/
def ofHop : Routing.NextHop → NextHop
  | .direct peerId _ => .direct peerId
  | .gateway gatewayId _ hopsRemaining => .gateway gatewayId hopsRemaining
  | .globalRoute nextHopId totalHops => .globalRoute nextHopId totalHops
  | .storeAndCarry => .storeAndCarry
  | .routeDiscovery hint => .routeDiscovery hint

theorem ofHop_eq_storeAndCarry {hop : Routing.NextHop} :
    ofHop hop = .storeAndCarry ↔ hop = .storeAndCarry := by
  cases hop <;> simp [ofHop]

variable {F : Type} (A : FloatOps F)

/-- `make_routing_decision`, where the instant is `now`; the engine is there once the core is
initialised. -/
def Surroundings.routedBy (surroundings : Surroundings) (now : Nat)
    (routingEngine : Option (OptimizedRoutingEngine F)) : Surroundings :=
  { surroundings with
    makeRoutingDecision := fun hint messageId priority _ =>
      routingEngine.map fun engine =>
        ofHop (engine.routeMessageOptimized A now hint messageId priority).primary }

variable (S : SenderPrimitives)

/-- The hint that the send path asks for. -/
def textHint (recipientId : String) : Hint :=
  arrayAt 4 (S.hash recipientId.toUTF8.data.toList).toList 0

/-- With an empty negative cache, the message is handed over when nothing is filed under the
hint of the text but a pending request. -/
theorem handoffToDrift_iff {engine : OptimizedRoutingEngine F}
    (hempty : engine.negativeCache.entries = ∅) (surroundings : Surroundings) (draws : Draws)
    (now : Nat) (recipientId : String) :
    handoffToDrift S (surroundings.routedBy A now (some engine)) draws recipientId = true ↔
      ¬ engine.Cached now (textHint S recipientId) ∧
        ¬ engine.baseEngine.Holds (textHint S recipientId) ∧
        engine.baseEngine.global.isRoutePending (textHint S recipientId) = true := by
  have hreachable : ∀ peerId, engine.negativeCache.isDefinitelyUnreachable now peerId = false := by
    simp_all [NegativeCache.isDefinitelyUnreachable]
  unfold handoffToDrift Surroundings.routedBy
  rw [decide_eq_true_iff]
  dsimp only
  rw [Option.map_some, Option.some_inj, ofHop_eq_storeAndCarry,
    OptimizedRoutingEngine.routeMessageOptimized_storeAndCarry_iff, hreachable]
  have hpriority : ¬ (128 : UInt8) < 100 := by decide
  rw [or_iff_right Bool.false_ne_true, or_iff_left hpriority]
  rfl

/-- Between `core` and `after` the prepared bytes went to the drift store when the engine said
store-and-carry, and to the outbox otherwise; the other of the two is as before. -/
def HandedOver (surroundings : Surroundings) (draws : Draws) (recipientId : String)
    (prepared : PreparedMessage) (core after : SendingCore) : Prop :=
  if handoffToDrift S surroundings draws recipientId then
    (∃ e, after.driftStore = (core.driftStore.insertIn surroundings.order surroundings.cmp
      (storedEnvelope draws e prepared.envelopeData)).2) ∧ after.outbox = core.outbox
  else
    after.outbox
      = (core.outbox.enqueue (queuedMessage S draws recipientId prepared.envelopeData)).2 ∧
      after.driftStore = core.driftStore

theorem handedOver_prepareMessage {lz4 : Lz4} {surroundings : Surroundings} {draws : Draws}
    {core : SendingCore} {recipientId text : String} {messageType : MessageType}
    {prepared : PreparedMessage}
    (h : (prepareMessage S lz4 surroundings draws core recipientId text messageType).1
      = .ok prepared) :
    HandedOver S surroundings draws recipientId prepared core
      (prepareMessage S lz4 surroundings draws core recipientId text messageType).2 := by
  obtain ⟨_, e, _, _, _, hafter⟩ := prepareMessage_eq_ok h
  rw [hafter surroundings.order surroundings.cmp]
  unfold HandedOver
  split
  · next hdrift =>
    obtain ⟨hstore, houtbox⟩ := handOver_drift hdrift core e prepared.envelopeData
    exact ⟨⟨e, hstore⟩, houtbox⟩
  · next hdrift =>
    exact handOver_outbox (eq_false_of_ne_true hdrift) core e prepared.envelopeData

/-- **A message to a recipient for whom there is a route.** For every engine with an empty
negative cache, every recipient and every key: when the engine holds an active peer, a gateway
or a route for the hint of the key, the message stays out of the drift store if and only if the
hint of the text is that hint, or the engine has something for the hint of the text too, or no
request for it is pending. Staying out of it is being put into the outbox. -/
theorem known_route_iff (engine : OptimizedRoutingEngine F)
    (hempty : engine.negativeCache.entries = ∅) (surroundings : Surroundings) (draws : Draws)
    (now : Nat) (recipientId : String) (k : Key)
    (hholds : engine.baseEngine.Holds (hintFromPublicKey S k)) :
    let routed := surroundings.routedBy A now (some engine)
    (handoffToDrift S routed draws recipientId = false ↔
      textHint S recipientId = hintFromPublicKey S k ∨
        engine.baseEngine.Holds (textHint S recipientId) ∨
        engine.Cached now (textHint S recipientId) ∨
        engine.baseEngine.global.isRoutePending (textHint S recipientId) = false) ∧
    ∀ lz4 core text messageType prepared,
      (prepareMessage S lz4 routed draws core recipientId text messageType).1 = .ok prepared →
        HandedOver S routed draws recipientId prepared core
          (prepareMessage S lz4 routed draws core recipientId text messageType).2 := by
  intro routed
  refine ⟨?_, fun _ _ _ _ _ hprepared => handedOver_prepareMessage S hprepared⟩
  rw [← Bool.not_eq_true, handoffToDrift_iff A S hempty]
  constructor
  · intro hkept
    by_contra hnone
    obtain ⟨-, hheld, hcached, hpending⟩ := by simpa only [not_or] using hnone
    exact hkept ⟨hcached, hheld, eq_true_of_ne_false hpending⟩
  · rintro hcond ⟨hcached, hheld, hpending⟩
    rcases hcond with htext | hfound | hsaved | hidle
    · exact hheld (htext ▸ hholds)
    · exact hheld hfound
    · exact hcached hsaved
    · exact Bool.false_ne_true (hidle.symm.trans hpending)

/-! ## A neighbour of the recipient -/

/-- A neighbour has been seen and has announced the hint of key 2, and a route has been
requested for the hint of the text. -/
def neighbourEngine : OptimizedRoutingEngine ℚ :=
  { OptimizedRoutingEngine.new with
    baseEngine := { RoutingEngine.new with
      localCell := (LocalCell.new.peerSeen Floats.exact 1 (demoKey 7) .ble).updatePeerHints
        (demoKey 7) [hintFromPublicKey demoSenderPrimitives (demoKey 2)]
      global := GlobalRoutes.new.requestRoute (textHint demoSenderPrimitives demoRecipientId) 1 } }

theorem neighbourEngine_holds : neighbourEngine.baseEngine.Holds
    (hintFromPublicKey demoSenderPrimitives (demoKey 2)) :=
  .inl ⟨_, List.mem_singleton.mpr rfl, rfl, List.mem_singleton.mpr rfl⟩

theorem known_route_iff_neighbour :
    handoffToDrift demoSenderPrimitives
        (demoSurroundings.routedBy Floats.exact 5 (some neighbourEngine)) demoDraws demoRecipientId
      = false ↔
      textHint demoSenderPrimitives demoRecipientId
          = hintFromPublicKey demoSenderPrimitives (demoKey 2) ∨
        neighbourEngine.baseEngine.Holds (textHint demoSenderPrimitives demoRecipientId) ∨
        neighbourEngine.Cached 5 (textHint demoSenderPrimitives demoRecipientId) ∨
        neighbourEngine.baseEngine.global.isRoutePending
          (textHint demoSenderPrimitives demoRecipientId) = false :=
  (known_route_iff Floats.exact demoSenderPrimitives neighbourEngine rfl demoSurroundings demoDraws
    5 demoRecipientId (demoKey 2) neighbourEngine_holds).1

/-- The recipient's neighbour is active in the local cell, and the message is carried. -/
theorem carried_past_known_peer :
    parseRecipient demoRecipientId = some (demoKey 2) ∧
      neighbourEngine.baseEngine.Holds
        (hintFromPublicKey demoSenderPrimitives (demoKey 2)) ∧
      handoffToDrift demoSenderPrimitives
        (demoSurroundings.routedBy Floats.exact 5 (some neighbourEngine)) demoDraws demoRecipientId
          = true := by
  refine ⟨parseRecipient_demo, neighbourEngine_holds, ?_⟩
  have hhints : textHint demoSenderPrimitives demoRecipientId
      ≠ hintFromPublicKey demoSenderPrimitives (demoKey 2) := by decide +kernel
  rw [handoffToDrift_iff Floats.exact demoSenderPrimitives rfl]
  refine ⟨?_, ?_, ?_⟩
  · rintro (hsaved | ⟨path, hpath, -⟩)
    · cases hsaved
    · cases hpath
  · rintro (⟨peer, hpeer, -, hhint⟩ | ⟨gateway, hgateway, -⟩ | ⟨routes, hroutes, -⟩)
    · rw [List.mem_singleton.mp hpeer] at hhint
      exact hhints (List.mem_singleton.mp hhint)
    · cases hgateway
    · cases hroutes
  · exact AList.lookup_isSome.mpr ((AList.mem_insert _).mpr (.inl rfl))

end Scm.Core
