import Scm.Transport.Inflight

/-!
# The whole node — sends, retries and convergence markers (`swarm.rs`)

Around the relay of `Transport/Swarm` a node keeps its own sends, in four maps: the
pending messages, the requests and the relay requests that are out for them, and the
delivery attempts of `MultiPathDelivery`. All four know a send by its message id,
which `SendMessage` makes from the target and the time. This module is the event loop
over all of it (`SwarmNode.step`): commands, retries, answers, failures and gossiped
convergence markers.

`consistent_run` is what every run keeps: a message id under which the node tracks
anything names the peer it was sent to, and the relay's dispatches are tracked.

The routes of a message (what the routing engine or `ranked_routes` answers) and the
choice of the messages that are due for a retry come with the events. Reputations,
latencies and logging are left out.
-/

namespace Scm.Transport

open Bytes Collections Store RelayCustodyStore

/-- `PendingMessage`, without the time of its last attempt. -/
structure PendingMessage (Peer : Type) where
  targetPeer : Peer
  envelopeData : Bytes
  replyTx : Nat
  currentPathIndex : Nat
  dispatchAttempts : Nat
  passCount : Nat
  retryNotified : Bool
  recipientIdentityId : Option String
  intendedDeviceId : Option String
  deriving DecidableEq, Repr

/-- `DeliveryAttempt`, without the time and the retry strategy. -/
structure DeliveryAttempt (Peer : Type) where
  messageId : String
  targetPeer : Peer
  attempt : Nat
  pathsTried : List (List Peer)
  deriving DecidableEq, Repr

structure DeliveryConvergenceMarker where
  relayMessageId : String
  destinationPeerId : String
  observedByPeerId : String
  observedAtMs : Nat
  deriving DecidableEq, Repr

/-- `DeliveryConvergenceMarker::key`. -/
def DeliveryConvergenceMarker.key (marker : DeliveryConvergenceMarker) : String :=
  marker.destinationPeerId ++ "::" ++ marker.relayMessageId

structure SwarmNode (Peer : Type) where
  relay : RelayNode Peer
  pendingMessages : AList fun _ : String => PendingMessage Peer
  requestToMessage : AList fun _ : Nat => String
  pendingRelayRequests : AList fun _ : Nat => String
  attempts : AList fun _ : String => DeliveryAttempt Peer
  nextRelayRequestId : Nat

/-- What a node does to the outside: requests to peers, and answers to the application
that asked it to send. -/
inductive Output (Peer : Type) where
  | send (outgoing : Outgoing Peer)
  | reply (replyTx : Nat) (result : Except String Unit)
  deriving DecidableEq

/-- Events that none of the node's own sends is involved in. -/
def RelayNode.NodeEvent.RelayOnly {Peer : Type} : RelayNode.NodeEvent Peer → Prop
  | .relay (.response _ _ _ _) => False
  | .relay (.outboundFailure _ _ _) => False
  | .relay (.convergenceMarker _ _ _) => False
  | _ => True

/-- What can happen at a node. -/
inductive SwarmEvent (Peer : Type) where
  | relayOnly (event : RelayNode.NodeEvent Peer) (h : event.RelayOnly)
  | sendMessage (nowMs : Nat) (peer : Peer) (envelopeData : Bytes)
      (recipientIdentityId intendedDeviceId : Option String) (reply : Nat)
      (routes : List (List Peer))
  | retry (messageId : String) (routes : List (List Peer))
  | response (env : Reading) (requestId : Nat) (accepted : Bool) (error : Option String)
  | outboundFailure (env : Reading) (requestId : Nat) (error : String)
  | relayResponse (peer : Peer) (requestId : Nat) (accepted : Bool) (error : Option String)
  | relayOutboundFailure (peer : Peer) (requestId : Nat)
  | gossip (env : Reading) (marker : DeliveryConvergenceMarker)

/-- `DELIVERY_CONVERGENCE_MAX_CLOCK_SKEW_MS`. -/
def deliveryConvergenceMaxClockSkewMs : Nat := 24 * 60 * 60 * 1000

/-- `validate_delivery_convergence_marker_shape`. -/
def validateDeliveryConvergenceMarkerShape (marker : DeliveryConvergenceMarker) (nowMs : Nat) :
    Except String Unit :=
  if marker.relayMessageId.isEmpty then .error "marker_message_id_empty"
  else if marker.relayMessageId.utf8ByteSize > relayMaxMessageIdLen then
    .error "marker_message_id_too_long"
  else if marker.destinationPeerId.isEmpty then .error "marker_destination_empty"
  else if marker.observedByPeerId.isEmpty then .error "marker_observed_by_empty"
  else if nowMs > marker.observedAtMs then
    if nowMs - marker.observedAtMs > deliveryConvergenceMaxClockSkewMs then .error "marker_too_old"
    else .ok ()
  else if marker.observedAtMs - nowMs > deliveryConvergenceMaxClockSkewMs then
    .error "marker_from_future"
  else .ok ()

/-- `advance_route_cursor`: the next index, and whether a pass is complete. -/
def advanceRouteCursor (currentIndex candidateCount : Nat) : Nat × Bool :=
  if candidateCount = 0 then (0, false)
  else if currentIndex + 1 ≥ candidateCount then (0, true)
  else (currentIndex + 1, false)

/-- `is_terminal_identity_rejection`. -/
def isTerminalIdentityRejection (error : String) : Bool :=
  error = "identity_device_mismatch" ∨ error = "identity_abandoned"

/-- `purge_request_map_for_message`. -/
def purgeRequestMapForMessage (map : AList fun _ : Nat => String) (messageId : String) :
    AList fun _ : Nat => String :=
  retain map fun _ tracked => decide (tracked ≠ messageId)

section

variable {Peer : Type} [DecidableEq Peer] (ids : PeerIds Peer) (P : Platform)
  (crc : Bytes → UInt32)

/-- The message id `SendMessage` makes. -/
def sentMessageId (peer : Peer) (nowMs : Nat) : String :=
  ids.toText peer ++ "-" ++ toString nowMs

namespace SwarmNode

/-- `should_apply_delivery_convergence_marker`. -/
def shouldApplyDeliveryConvergenceMarker (nowMs : Nat) (marker : DeliveryConvergenceMarker)
    (n : SwarmNode Peer) : Except String Unit := do
  validateDeliveryConvergenceMarkerShape marker nowMs
  let trackedLocally : Bool :=
    (n.pendingMessages.lookup marker.relayMessageId).isSome ||
    n.requestToMessage.entries.any (fun entry => entry.2 = marker.relayMessageId) ||
    n.pendingRelayRequests.entries.any (fun entry => entry.2 = marker.relayMessageId) ||
    n.relay.pendingCustodyDispatches.entries.any (fun entry =>
      entry.2.relayMessageId = marker.relayMessageId ∧
        ids.toText entry.2.destinationPeer = marker.destinationPeerId) ||
    n.relay.custody.hasMessageForDestination marker.destinationPeerId marker.relayMessageId
  if trackedLocally then .ok () else .error "marker_not_locally_tracked"

/-- The node's own part of `apply_delivery_convergence_marker`: whatever it tracks
under the message id is done, and who is waiting is told so. -/
def clearSends (relayMessageId : String) (n : SwarmNode Peer) :
    SwarmNode Peer × List (Output Peer) :=
  ({ n with
      requestToMessage := purgeRequestMapForMessage n.requestToMessage relayMessageId
      pendingRelayRequests := purgeRequestMapForMessage n.pendingRelayRequests relayMessageId
      attempts := n.attempts.erase relayMessageId
      pendingMessages := n.pendingMessages.erase relayMessageId },
    match n.pendingMessages.lookup relayMessageId with
    | some pending => [.reply pending.replyTx (.ok ())]
    | none => [])

/-- `apply_delivery_convergence_marker`. -/
def applyDeliveryConvergenceMarker (env : Reading) (relayMessageId destinationPeerId : String)
    (n : SwarmNode Peer) : SwarmNode Peer × List (Output Peer) :=
  clearSends relayMessageId { n with
    relay := n.relay.applyDeliveryConvergenceMarker ids env relayMessageId destinationPeerId }

/-- `dispatch_ranked_route` with its bookkeeping. Routes are never empty; the source
would panic on one that is. -/
def dispatch (path : List Peer) (messageId : String) (pending : PendingMessage Peer)
    (n : SwarmNode Peer) : SwarmNode Peer × List (Output Peer) :=
  match dispatchRankedRoute ids crc path messageId pending.targetPeer pending.envelopeData
    pending.recipientIdentityId pending.intendedDeviceId with
  | none => (n, [])
  | some (.messaging peer data) =>
    ({ n with
        requestToMessage := n.requestToMessage.insert n.relay.nextRequestId messageId
        relay := { n.relay with nextRequestId := n.relay.nextRequestId + 1 } },
      [.send (.messaging peer data)])
  | some (.relay peer request) =>
    ({ n with
        pendingRelayRequests := n.pendingRelayRequests.insert n.nextRelayRequestId messageId
        nextRelayRequestId := n.nextRelayRequestId + 1 },
      [.send (.relay peer request)])

/-- The `SendMessage` command. -/
def sendMessage (nowMs : Nat) (peer : Peer) (envelopeData : Bytes)
    (recipientIdentityId intendedDeviceId : Option String) (reply : Nat) (routes : List (List Peer))
    (n : SwarmNode Peer) : SwarmNode Peer × List (Output Peer) :=
  let messageId := sentMessageId ids peer nowMs
  -- `start_delivery`
  let n := { n with
    attempts := n.attempts.insert messageId
      { messageId, targetPeer := peer, attempt := 0, pathsTried := [] } }
  match routes with
  | [] => (n, [.reply reply (.error "No paths available")])
  | route :: _ =>
    let pending : PendingMessage Peer :=
      { targetPeer := peer, envelopeData, replyTx := reply, currentPathIndex := 0
        dispatchAttempts := 1, passCount := 0, retryNotified := false
        recipientIdentityId, intendedDeviceId }
    let (n, sent) := n.dispatch ids crc route messageId pending
    ({ n with pendingMessages := n.pendingMessages.insert messageId pending }, sent)

/-- One message of the retry tick. -/
def retryMessage (messageId : String) (routes : List (List Peer)) (n : SwarmNode Peer) :
    SwarmNode Peer × List (Output Peer) :=
  match n.attempts.lookup messageId, n.pendingMessages.lookup messageId with
  | some _, some pending =>
    if routes.isEmpty then (n, [])
    else
      let (nextIndex, wrappedPass) := advanceRouteCursor pending.currentPathIndex routes.length
      let notice : List (Output Peer) :=
        if wrappedPass ∧ !pending.retryNotified then
          [.reply pending.replyTx (.error "Delivery pending retry")]
        else []
      let pending := { pending with
        currentPathIndex := nextIndex
        passCount := if wrappedPass then pending.passCount + 1 else pending.passCount
        retryNotified := pending.retryNotified || wrappedPass
        dispatchAttempts := pending.dispatchAttempts + 1 }
      let (n, sent) := n.dispatch ids crc (routes.getD nextIndex []) messageId pending
      ({ n with pendingMessages := n.pendingMessages.insert messageId pending }, notice ++ sent)
  | _, _ => (n, [])

/-- `record_failure`, as far as the attempts go. -/
def recordFailure (messageId : String) (path : List Peer) (n : SwarmNode Peer) : SwarmNode Peer :=
  match n.attempts.lookup messageId with
  | none => n
  | some attempt =>
    { n with
      attempts := n.attempts.insert messageId
        { attempt with
          attempt := attempt.attempt + 1, pathsTried := attempt.pathsTried ++ [path] } }

/-- The message was taken: `record_success`, and the sender is told. -/
def finish (messageId : String) (replyTx : Nat) (n : SwarmNode Peer) :
    SwarmNode Peer × List (Output Peer) :=
  ({ n with
      attempts := n.attempts.erase messageId
      pendingMessages := n.pendingMessages.erase messageId },
    [.reply replyTx (.ok ())])

/-- A response to a direct request of the node's own. -/
def handleDirectResponse (requestId : Nat) (accepted : Bool) (n : SwarmNode Peer) :
    SwarmNode Peer × List (Output Peer) :=
  match n.requestToMessage.lookup requestId with
  | none => (n, [])
  | some messageId =>
    let n := { n with requestToMessage := n.requestToMessage.erase requestId }
    match n.pendingMessages.lookup messageId with
    | none => (n, [])
    | some pending =>
      if accepted then n.finish messageId pending.replyTx
      else (n.recordFailure messageId [pending.targetPeer], [])

/-- A response of a relay to a request of the node's own. -/
def handleRelayResponse (peer : Peer) (requestId : Nat) (accepted : Bool) (error : Option String)
    (n : SwarmNode Peer) : SwarmNode Peer × List (Output Peer) :=
  match n.pendingRelayRequests.lookup requestId with
  | none => (n, [])
  | some messageId =>
    let n := { n with pendingRelayRequests := n.pendingRelayRequests.erase requestId }
    match n.pendingMessages.lookup messageId with
    | none => (n, [])
    | some pending =>
      if accepted then n.finish messageId pending.replyTx
      else
        let error := error.getD "relay rejected"
        let n := n.recordFailure messageId [peer, pending.targetPeer]
        if isTerminalIdentityRejection error then
          ({ n with pendingMessages := n.pendingMessages.erase messageId },
            [.reply pending.replyTx (.error error)])
        else (n, [])

/-- A request that did not get out, direct or to a relay. -/
def handleSendFailure (messageId : String) (path : Peer → List Peer) (n : SwarmNode Peer) :
    SwarmNode Peer :=
  match n.pendingMessages.lookup messageId with
  | none => n
  | some pending => n.recordFailure messageId (path pending.targetPeer)

/-- One event: the node afterwards, and what it did. -/
def step (n : SwarmNode Peer) : SwarmEvent Peer → SwarmNode Peer × List (Output Peer)
  | .relayOnly event _ => ({ n with relay := n.relay.react ids P crc event }, [])
  | .sendMessage nowMs peer envelopeData recipientIdentityId intendedDeviceId reply routes =>
    n.sendMessage ids crc nowMs peer envelopeData recipientIdentityId intendedDeviceId reply routes
  | .retry messageId routes => n.retryMessage ids crc messageId routes
  | .response env requestId accepted error =>
    match n.relay.pendingCustodyDispatches.lookup requestId with
    | some d =>
      -- an acknowledged dispatch makes a marker of its own, which also ends own sends
      let relay := n.relay.react ids P crc (.relay (.response env requestId accepted error))
      if accepted ∧ ids.toText d.destinationPeer ++ "::" ++ d.relayMessageId ∉ n.relay.seenMarkers
      then clearSends d.relayMessageId { n with relay }
      else ({ n with relay }, [])
    | none => n.handleDirectResponse requestId accepted
  | .outboundFailure env requestId error =>
    match n.relay.pendingCustodyDispatches.lookup requestId with
    | some _ =>
      ({ n with relay :=
        n.relay.react ids P crc (.relay (.outboundFailure env requestId error)) }, [])
    | none =>
      match n.requestToMessage.lookup requestId with
      | none => (n, [])
      | some messageId =>
        (handleSendFailure messageId (fun target => [target])
          { n with requestToMessage := n.requestToMessage.erase requestId }, [])
  | .relayResponse peer requestId accepted error =>
    n.handleRelayResponse peer requestId accepted error
  | .relayOutboundFailure peer requestId =>
    match n.pendingRelayRequests.lookup requestId with
    | none => (n, [])
    | some messageId =>
      (handleSendFailure messageId (fun target => [peer, target])
        { n with pendingRelayRequests := n.pendingRelayRequests.erase requestId }, [])
  | .gossip env marker =>
    match n.shouldApplyDeliveryConvergenceMarker ids env.now marker with
    | .error _ => (n, [])
    | .ok () =>
      if marker.key ∈ n.relay.seenMarkers then (n, [])
      else
        applyDeliveryConvergenceMarker ids env marker.relayMessageId marker.destinationPeerId
          { n with relay := { n.relay with seenMarkers := marker.key :: n.relay.seenMarkers } }

/-- The node after a run. -/
def after (start : SwarmNode Peer) (events : List (SwarmEvent Peer)) : SwarmNode Peer :=
  Runs.run (fun n event => (n.step ids P crc event).1) start events

/-! ## What every run keeps -/

/-- The message id was made for this peer. -/
def SentTo (messageId : String) (peer : Peer) : Prop :=
  ∃ nowMs, messageId = sentMessageId ids peer nowMs

/-- What holds of a node as long as the process runs: the relay tracks its dispatches,
and message ids name the peers the messages are for. -/
structure Consistent (n : SwarmNode Peer) : Prop where
  relay : n.relay.Tracked ids
  pending : ∀ messageId pending, n.pendingMessages.lookup messageId = some pending →
    SentTo ids messageId pending.targetPeer
  attempts : ∀ messageId attempt, n.attempts.lookup messageId = some attempt →
    SentTo ids messageId attempt.targetPeer
  requests : ∀ requestId messageId, n.requestToMessage.lookup requestId = some messageId →
    ∃ peer, SentTo ids messageId peer
  relayRequests : ∀ requestId messageId, n.pendingRelayRequests.lookup requestId = some messageId →
    ∃ peer, SentTo ids messageId peer

variable {ids}

omit [DecidableEq Peer]

variable {messageId : String} {n : SwarmNode Peer}

section
variable (h : Consistent ids n)
include h

theorem Consistent.withRelay {relay : RelayNode Peer}
    (hrelay : relay.Tracked ids) : Consistent ids { n with relay } :=
  ⟨hrelay, h.pending, h.attempts, h.requests, h.relayRequests⟩

theorem Consistent.insertPending (pending : PendingMessage Peer)
    (hsent : SentTo ids messageId pending.targetPeer) :
    Consistent ids { n with pendingMessages := n.pendingMessages.insert messageId pending } := by
  refine ⟨h.relay, fun k v hv => ?_, h.attempts, h.requests, h.relayRequests⟩
  rcases lookup_insert_cases hv with ⟨rfl, rfl⟩ | ⟨_, hold⟩
  · exact hsent
  · exact h.pending k v hold

theorem Consistent.insertAttempt (attempt : DeliveryAttempt Peer)
    (hsent : SentTo ids messageId attempt.targetPeer) :
    Consistent ids { n with attempts := n.attempts.insert messageId attempt } := by
  refine ⟨h.relay, h.pending, fun k v hv => ?_, h.requests, h.relayRequests⟩
  rcases lookup_insert_cases hv with ⟨rfl, rfl⟩ | ⟨_, hold⟩
  · exact hsent
  · exact h.attempts k v hold

section
variable (messageId : String)

theorem Consistent.erasePending :
    Consistent ids { n with pendingMessages := n.pendingMessages.erase messageId } :=
  ⟨h.relay, fun k v hv => h.pending k v (lookup_of_lookup_erase hv), h.attempts, h.requests,
    h.relayRequests⟩

variable (requestId : Nat)

theorem Consistent.eraseRequest :
    Consistent ids { n with requestToMessage := n.requestToMessage.erase requestId } :=
  ⟨h.relay, h.pending, h.attempts, fun k v hv => h.requests k v (lookup_of_lookup_erase hv),
    h.relayRequests⟩

theorem Consistent.eraseRelayRequest :
    Consistent ids { n with pendingRelayRequests := n.pendingRelayRequests.erase requestId } :=
  ⟨h.relay, h.pending, h.attempts, h.requests,
    fun k v hv => h.relayRequests k v (lookup_of_lookup_erase hv)⟩

theorem Consistent.clearSends (relayMessageId : String) :
    Consistent ids (n.clearSends relayMessageId).1 :=
  ⟨h.relay, fun k v hv => h.pending k v (lookup_of_lookup_erase hv),
    fun k v hv => h.attempts k v (lookup_of_lookup_erase hv),
    fun k v hv => h.requests k v (lookup_retain.mp hv).1,
    fun k v hv => h.relayRequests k v (lookup_retain.mp hv).1⟩

theorem Consistent.finish (replyTx : Nat) : Consistent ids (n.finish messageId replyTx).1 :=
  ⟨h.relay, fun k v hv => h.pending k v (lookup_of_lookup_erase hv),
    fun k v hv => h.attempts k v (lookup_of_lookup_erase hv), h.requests, h.relayRequests⟩

theorem Consistent.recordFailure (path : List Peer) :
    Consistent ids (n.recordFailure messageId path) := by
  unfold SwarmNode.recordFailure
  split
  next => exact h
  next attempt hattempt => exact h.insertAttempt _ (h.attempts messageId attempt hattempt)

theorem Consistent.handleDirectResponse (accepted : Bool) :
    Consistent ids (n.handleDirectResponse requestId accepted).1 := by
  unfold SwarmNode.handleDirectResponse
  split
  next => exact h
  next messageId _ =>
    have herased := h.eraseRequest requestId
    dsimp only
    split
    next => exact herased
    split
    next => exact herased.finish messageId _
    next => exact herased.recordFailure messageId _

theorem Consistent.handleRelayResponse (peer : Peer) (requestId : Nat) (accepted : Bool)
    (error : Option String) :
    Consistent ids (n.handleRelayResponse peer requestId accepted error).1 := by
  unfold SwarmNode.handleRelayResponse
  split
  next => exact h
  next messageId _ =>
    have herased := h.eraseRelayRequest requestId
    dsimp only
    split
    next => exact herased
    next pending _ =>
      split
      next => exact herased.finish messageId _
      have hfailed := herased.recordFailure messageId [peer, pending.targetPeer]
      split
      next => exact hfailed.erasePending messageId
      next => exact hfailed

theorem Consistent.handleSendFailure (path : Peer → List Peer) :
    Consistent ids (n.handleSendFailure messageId path) := by
  unfold SwarmNode.handleSendFailure
  split
  next => exact h
  next => exact h.recordFailure messageId _

end

theorem Consistent.dispatch (path : List Peer) (pending : PendingMessage Peer)
    (hsent : SentTo ids messageId pending.targetPeer) :
    Consistent ids (n.dispatch ids crc path messageId pending).1 := by
  unfold SwarmNode.dispatch
  split
  next => exact h
  next =>
    refine ⟨⟨h.relay.sound, h.relay.texts, h.relay.inflight⟩, h.pending, h.attempts,
      fun k v hv => ?_, h.relayRequests⟩
    rcases lookup_insert_cases hv with ⟨_, rfl⟩ | ⟨_, hold⟩
    · exact ⟨_, hsent⟩
    · exact h.requests k v hold
  refine ⟨h.relay, h.pending, h.attempts, h.requests, fun k v hv => ?_⟩
  rcases lookup_insert_cases hv with ⟨_, rfl⟩ | ⟨_, hold⟩
  · exact ⟨_, hsent⟩
  · exact h.relayRequests k v hold

theorem Consistent.sendMessage (nowMs : Nat) (peer : Peer) (envelopeData : Bytes)
    (recipientIdentityId intendedDeviceId : Option String) (reply : Nat)
    (routes : List (List Peer)) :
    Consistent ids (n.sendMessage ids crc nowMs peer envelopeData recipientIdentityId
      intendedDeviceId reply routes).1 := by
  have hsent : SentTo ids (sentMessageId ids peer nowMs) peer := ⟨nowMs, rfl⟩
  have hstarted : Consistent ids { n with
      attempts := n.attempts.insert (sentMessageId ids peer nowMs)
        { messageId := sentMessageId ids peer nowMs, targetPeer := peer, attempt := 0
          pathsTried := [] } } :=
    h.insertAttempt _ hsent
  unfold SwarmNode.sendMessage
  dsimp only
  split
  next => exact hstarted
  next route _ =>
    let pending : PendingMessage Peer :=
      { targetPeer := peer, envelopeData, replyTx := reply, currentPathIndex := 0
        dispatchAttempts := 1, passCount := 0, retryNotified := false
        recipientIdentityId, intendedDeviceId }
    exact (hstarted.dispatch crc route pending hsent).insertPending pending hsent

theorem Consistent.retryMessage (messageId : String) (routes : List (List Peer)) :
    Consistent ids (n.retryMessage ids crc messageId routes).1 := by
  unfold SwarmNode.retryMessage
  split
  next pending _ hpending =>
    split
    next => exact h
    have hsent := h.pending messageId pending hpending
    exact (h.dispatch crc _ { pending with
      currentPathIndex := _, passCount := _, retryNotified := _, dispatchAttempts := _ }
      hsent).insertPending _ hsent
  next => exact h

theorem Consistent.step [DecidableEq Peer] (hplain : RelayNode.Plain ids)
    (event : SwarmEvent Peer) :
    Consistent ids (n.step ids P crc event).1 := by
  have hreact : ∀ event, Consistent ids { n with relay := n.relay.react ids P crc event } :=
    fun event => h.withRelay (h.relay.react crc hplain event)
  unfold SwarmNode.step
  cases event with
  | relayOnly event => exact hreact event
  | sendMessage => exact h.sendMessage crc ..
  | retry messageId routes => exact h.retryMessage crc messageId routes
  | response env requestId accepted error =>
    dsimp only
    split
    next d _ =>
      split
      next => exact (hreact _).clearSends d.relayMessageId
      next => exact hreact _
    next => exact h.handleDirectResponse requestId accepted
  | outboundFailure env requestId error =>
    dsimp only
    split
    next => exact hreact _
    split
    next => exact h
    next messageId _ =>
      exact (h.eraseRequest requestId).handleSendFailure messageId fun target => [target]
  | relayResponse peer requestId accepted error =>
    exact h.handleRelayResponse peer requestId accepted error
  | relayOutboundFailure peer requestId =>
    dsimp only
    split
    next => exact h
    next messageId _ =>
      exact (h.eraseRelayRequest requestId).handleSendFailure messageId fun target => [peer, target]
  | gossip env marker =>
    dsimp only
    split
    next => exact h
    split
    next => exact h
    have hseen : RelayNode.Tracked ids
        { n.relay with seenMarkers := marker.key :: n.relay.seenMarkers } :=
      ⟨h.relay.sound, h.relay.texts, h.relay.inflight⟩
    obtain ⟨hserved, _, hdispatches⟩ := (RelayNode.books_served P).applyDeliveryConvergenceMarker
      ids env marker.relayMessageId marker.destinationPeerId
      { n.relay with seenMarkers := marker.key :: n.relay.seenMarkers }
    exact (h.withRelay (hseen.serve hserved hdispatches)).clearSends marker.relayMessageId

end

/-- A node that was just started. -/
structure Fresh (n : SwarmNode Peer) : Prop where
  custody : ∃ localIdentity sequence, n.relay.custody = empty localIdentity sequence
  dispatches : n.relay.pendingCustodyDispatches = ∅
  pending : n.pendingMessages = ∅
  attempts : n.attempts = ∅
  requests : n.requestToMessage = ∅
  relayRequests : n.pendingRelayRequests = ∅

theorem Fresh.consistent (h : Fresh n) : Consistent ids n := by
  obtain ⟨localIdentity, sequence, hcustody⟩ := h.custody
  refine ⟨⟨?_, fun r hr => ?_, fun k v hv => ?_⟩, fun k v hv => ?_, fun k v hv => ?_,
    fun k v hv => ?_, fun k v hv => ?_⟩
  · rw [hcustody]
    exact sound_empty localIdentity sequence
  · rw [hcustody] at hr
    exact absurd hr List.not_mem_nil
  · rw [h.dispatches, AList.lookup_empty] at hv
    cases hv
  · rw [h.pending, AList.lookup_empty] at hv
    cases hv
  · rw [h.attempts, AList.lookup_empty] at hv
    cases hv
  · rw [h.requests, AList.lookup_empty] at hv
    cases hv
  · rw [h.relayRequests, AList.lookup_empty] at hv
    cases hv

/-- **A running node is consistent**, whatever reaches it. -/
theorem consistent_run [DecidableEq Peer] (hplain : RelayNode.Plain ids) {start : SwarmNode Peer}
    (hstart : start.Fresh) (events : List (SwarmEvent Peer)) :
    Consistent ids (start.after ids P crc events) := by
  exact Runs.run_invariant_always (fun _ event h => h.step P crc hplain event) events start
    hstart.consistent

end SwarmNode

end

end Scm.Transport
