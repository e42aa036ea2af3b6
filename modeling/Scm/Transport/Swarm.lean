import Scm.Drift.Envelope
import Scm.Relay.Protocol
import Scm.Store.RelayCustody

/-!
# Sending, relaying and receiving — `core/src/transport/swarm.rs`

Three parties of one delivery. The *sender* frames an envelope and either sends it
to the target or asks a relay to hold it (`dispatchRankedRoute`). The *relay* is a
state machine: it takes requests into custody, sends pending records on when the
destination is there, and books acknowledgements, failures, disconnects and
convergence markers (`RelayNode.step`). The *recipient* takes a request apart:
peer discovery first, then one frame if the bytes are one, otherwise as they are
(`receiveMessaging`).

What every call on the store keeps, the handlers that book keep (`Books.step`). Every
event has an `Effect`, so in every run a custody id stands for the bytes it was
accepted with, in the store and in everything sent for it (`run_relayRequest_carries`).

Peer ids are a type with its text and byte forms. What the handler is told from
outside (clock, token bucket, spam score, whether an hour has passed) comes with
the event. Dialling announced addresses, events to the application other than
`MessageReceived`, and logging are left out.
-/

namespace Scm.Transport

open List Bytes Collections Drift Relay Store

/-- `PeerId::to_bytes`, `PeerId::from_bytes` and `to_string`. -/
structure PeerIds (Peer : Type) where
  toBytes : Peer → Bytes
  fromBytes : Bytes → Option Peer
  toText : Peer → String

structure RelayRequest where
  destinationPeer : Bytes
  envelopeData : Bytes
  messageId : String
  recipientIdentityId : Option String
  intendedDeviceId : Option String
  deriving DecidableEq, Repr

structure RelayResponse where
  accepted : Bool
  error : Option String
  messageId : String
  deriving DecidableEq, Repr

/-! ## Sender and recipient -/

/-- `wrap_in_drift_frame`: what cannot be framed is sent raw. -/
def wrapInDriftFrame (crc : Bytes → UInt32) (envelopeData : Bytes) : Bytes :=
  match DriftFrame.toBytes crc { frameType := .data, payload := envelopeData } with
  | .ok bytes => bytes
  | .error _ => envelopeData

/-- What `dispatch_ranked_route` hands to the swarm. -/
inductive Outgoing (Peer : Type) where
  | messaging (peer : Peer) (envelopeData : Bytes)
  | relay (peer : Peer) (request : RelayRequest)
  deriving DecidableEq, Repr

/-- `dispatch_ranked_route`; `none` is the panic on an empty path. -/
def dispatchRankedRoute {Peer : Type} (ids : PeerIds Peer) (crc : Bytes → UInt32) (path : List Peer)
    (messageId : String) (targetPeer : Peer) (envelopeData : Bytes)
    (recipientIdentityId intendedDeviceId : Option String) : Option (Outgoing Peer) :=
  let framedData := wrapInDriftFrame crc envelopeData
  match path with
  | [] => none
  | [_] => some (.messaging targetPeer framedData)
  | relayPeer :: _ :: _ =>
    some (.relay relayPeer
      { destinationPeer := ids.toBytes targetPeer, envelopeData := framedData, messageId
        recipientIdentityId, intendedDeviceId })

/-- What becomes of an incoming messaging request. -/
inductive Received where
  | discovery (message : RelayMessage)
  | blocked
  | messageReceived (envelopeData : Bytes)
  deriving DecidableEq, Repr

/-- The relay messages the messaging handler answers itself. -/
def isDiscovery : RelayMessage → Bool
  | .peerJoined _ | .peerListResponse _ | .peerLeft _ => true
  | _ => false

/-- The payload of a frame, or the bytes as they are. -/
def unwrapDriftFrame (crc : Bytes → UInt32) (data : Bytes) : Bytes :=
  match DriftFrame.fromBytes crc data with
  | .ok frame => frame.payload
  | .error _ => data

/-- The messaging request handler. -/
def receiveMessaging (crc : Bytes → UInt32) (senderBlocked : Bool) (data : Bytes) :
    Received :=
  let deliver := if senderBlocked then .blocked else .messageReceived (unwrapDriftFrame crc data)
  match RelayMessage.fromBytes data with
  | some message => if isDiscovery message then .discovery message else deliver
  | none => deliver

/-! ## The relay -/

/-- `RELAY_MAX_INFLIGHT_DISPATCHES`. -/
def relayMaxInflightDispatches : Nat := 256

/-- `RELAY_DUPLICATE_WINDOW_MS`. -/
def relayDuplicateWindowMs : Nat := 30000

/-- `RELAY_MAX_TRACKED_DUPLICATES`. -/
def relayMaxTrackedDuplicates : Nat := 16384

/-- `RELAY_MAX_MESSAGE_ID_LEN`. -/
def relayMaxMessageIdLen : Nat := 160

/-- `RELAY_MAX_ENVELOPE_BYTES`. -/
def relayMaxEnvelopeBytes : Nat := 64 * 1024

structure PendingCustodyDispatch (Peer : Type) where
  destinationPeer : Peer
  custodyId : String
  relayMessageId : String
  deriving DecidableEq, Repr

/-- A custody record sent on to its destination. -/
structure Sent (Peer : Type) where
  requestId : Nat
  peer : Peer
  custodyId : String
  envelopeData : Bytes
  deriving DecidableEq, Repr

structure RelayNode (Peer : Type) where
  custody : RelayCustodyStore
  recentDuplicates : AList fun _ : String => Nat
  relayBudget : Nat
  relayCountThisHour : Nat
  pendingCustodyDispatches : AList fun _ : Nat => PendingCustodyDispatch Peer
  nextRequestId : Nat
  seenMarkers : List String
  connected : List Peer

/-- A node over this store that was just started and has nobody around. -/
def RelayNode.started {Peer : Type} (custody : RelayCustodyStore) : RelayNode Peer where
  custody := custody
  recentDuplicates := ∅
  relayBudget := 0
  relayCountThisHour := 0
  pendingCustodyDispatches := ∅
  nextRequestId := 0
  seenMarkers := []
  connected := []

/-- `should_reject_cheap_heuristics`. -/
def shouldRejectCheapHeuristics (messageId : String) (envelopeLen : Nat) : Option String :=
  if messageId.isEmpty then some "relay_message_id_empty"
  else if messageId.utf8ByteSize > relayMaxMessageIdLen then some "relay_message_id_too_long"
  else if envelopeLen = 0 then some "relay_envelope_empty"
  else if envelopeLen > relayMaxEnvelopeBytes then some "relay_envelope_too_large"
  else none

/-- The key of `is_recent_duplicate` and `record_accepted`. -/
def duplicateKey (source destination relayMessageId : String) : String :=
  source ++ "::" ++ destination ++ "::" ++ relayMessageId

/-- `prune_duplicate_window`. -/
def pruneDuplicateWindow (seen : AList fun _ : String => Nat) (now : Nat) :
    AList fun _ : String => Nat :=
  retain seen fun _ seenMs => now - seenMs ≤ relayDuplicateWindowMs

/-- `is_recent_duplicate`, after its pruning. -/
def isRecentDuplicate (seen : AList fun _ : String => Nat) (key : String) (now : Nat) : Bool :=
  match seen.lookup key with
  | some seenMs => now - seenMs ≤ relayDuplicateWindowMs
  | none => false

/-- `record_accepted`. -/
def recordAccepted (seen : AList fun _ : String => Nat) (key : String) (now : Nat) :
    AList fun _ : String => Nat :=
  let seen := (pruneDuplicateWindow seen now).insert key now
  if len seen > relayMaxTrackedDuplicates then
    match minBy (fun a b => compare a.2 b.2) seen.entries with
    | some oldest => seen.erase oldest.1
    | none => seen
  else seen

/-- `resolve_custody_metadata`; the compat phases only differ in what they log. -/
def resolveCustodyMetadata (P : Platform) (s : RelayCustodyStore) (now : Nat)
    (recipientIdentityId intendedDeviceId : Option String) :
    Except String (Option String × Option String) × RelayCustodyStore :=
  match recipientIdentityId, intendedDeviceId with
  | some identityId, some deviceId =>
    match s.registry.enforceCustody P now identityId deviceId with
    | (.ok (.active identityId deviceId), registry) =>
      (.ok (some identityId, some deviceId), { s with registry })
    | (.ok (.redirected identityId _ toDeviceId), registry) =>
      (.ok (some identityId, some toDeviceId), { s with registry })
    | (.error error, registry) => (.error error.asCode, { s with registry })
  | _, _ => (.ok (recipientIdentityId, intendedDeviceId), s)

/-- What can happen at a relay, with what the handler reads from outside. -/
inductive RelayEvent (Peer : Type) where
  | relayRequest (env : Reading) (hourElapsed admitted : Bool) (peer : Peer)
      (request : RelayRequest)
  | pull (env : Reading) (destination : Peer) (triggerReason : String)
  | response (env : Reading) (requestId : Nat) (accepted : Bool) (error : Option String)
  | outboundFailure (env : Reading) (requestId : Nat) (error : String)
  | convergenceMarker (env : Reading) (relayMessageId destinationPeerId : String)
  | connected (peer : Peer)
  | disconnected (env : Reading) (peer : Peer)

/-- An event that only books what became of dispatches. -/
def RelayEvent.IsBooking {Peer : Type} : RelayEvent Peer → Prop
  | .relayRequest .. | .pull .. => False
  | _ => True

section Relay

variable {Peer : Type} [DecidableEq Peer] (ids : PeerIds Peer) (P : Platform)
  (crc : Bytes → UInt32)

namespace RelayNode

/-- The loop of `dispatch_pending_custody_for_peer`: the node and what it sent. -/
def dispatchLoop (env : Reading) (destinationPeer : Peer) (triggerReason : String) :
    List CustodyMessage → RelayNode Peer → RelayNode Peer × List (Sent Peer)
  | [], n => (n, [])
  | record :: records, n =>
    if len n.pendingCustodyDispatches ≥ relayMaxInflightDispatches then (n, [])
    else
      match n.custody.markDispatching env (ids.toText destinationPeer) record.custodyId
        triggerReason with
      | (.error _, custody) =>
        dispatchLoop env destinationPeer triggerReason records { n with custody }
      | (.ok (), custody) =>
        let sent : Sent Peer :=
          { requestId := n.nextRequestId, peer := destinationPeer, custodyId := record.custodyId
            envelopeData := wrapInDriftFrame crc record.envelopeData }
        let (n, more) := dispatchLoop env destinationPeer triggerReason records
          { n with
            custody
            nextRequestId := n.nextRequestId + 1
            pendingCustodyDispatches := n.pendingCustodyDispatches.insert n.nextRequestId
              { destinationPeer, custodyId := record.custodyId
                relayMessageId := record.relayMessageId } }
        (n, sent :: more)

/-- `dispatch_pending_custody_for_peer`. -/
def dispatchPendingCustodyForPeer (env : Reading) (destinationPeer : Peer) (triggerReason : String)
    (n : RelayNode Peer) : RelayNode Peer × List (Sent Peer) :=
  if destinationPeer ∉ n.connected then (n, [])
  else if len n.pendingCustodyDispatches ≥ relayMaxInflightDispatches then (n, [])
  else
    dispatchLoop ids crc env destinationPeer triggerReason
      (n.custody.pendingForDestination (ids.toText destinationPeer) 64) n

/-- The end of the relay request handler: the destination is parsed and the
metadata resolved; take the bytes into custody unless they were seen lately. -/
def takeIntoCustody (env : Reading) (peer destination : Peer) (request : RelayRequest)
    (identityId deviceId : Option String) (n : RelayNode Peer) :
    RelayResponse × RelayNode Peer × List (Sent Peer) :=
  let key := duplicateKey (ids.toText peer) (ids.toText destination) request.messageId
  let n := { n with recentDuplicates := pruneDuplicateWindow n.recentDuplicates env.now }
  if isRecentDuplicate n.recentDuplicates key env.now then
    ({ accepted := true, error := none, messageId := request.messageId }, n, [])
  else
    match n.custody.acceptCustody P env (ids.toText peer) (ids.toText destination)
      request.messageId request.envelopeData identityId deviceId with
    | (.error e, custody) =>
      ({ accepted := false, error := some ("custody_store_failed: " ++ e)
         messageId := request.messageId }, { n with custody }, [])
    | (.ok _, custody) =>
      ({ accepted := true, error := none, messageId := request.messageId },
        dispatchPendingCustodyForPeer ids crc env destination "accept_immediate_pull"
          { n with custody, recentDuplicates := recordAccepted n.recentDuplicates key env.now })

/-- The hourly reset of the relay budget counter. -/
def resetRelayHour (hourElapsed : Bool) (n : RelayNode Peer) : RelayNode Peer :=
  { n with relayCountThisHour := if hourElapsed then 0 else n.relayCountThisHour }

/-- The relay request handler. `admitted` is the outcome of the spam score and the
peer's token bucket. -/
def handleRelayRequest (env : Reading) (hourElapsed admitted : Bool) (peer : Peer)
    (request : RelayRequest) (n : RelayNode Peer) :
    RelayResponse × RelayNode Peer × List (Sent Peer) :=
  let n := n.resetRelayHour hourElapsed
  let reject (reason : String) : RelayResponse :=
    { accepted := false, error := some reason, messageId := request.messageId }
  match shouldRejectCheapHeuristics request.messageId request.envelopeData.length with
  | some reason => (reject reason, n, [])
  | none =>
    if n.relayBudget > 0 ∧ n.relayCountThisHour ≥ n.relayBudget then
      (reject "relay_budget_exhausted", n, [])
    else if len n.pendingCustodyDispatches ≥ relayMaxInflightDispatches then
      (reject "relay_inflight_capped", n, [])
    else if !admitted then (reject "relay_peer_rejected", n, [])
    else
      let n := { n with relayCountThisHour := n.relayCountThisHour + 1 }
      match ids.fromBytes request.destinationPeer with
      | none => (reject "Invalid destination peer ID", n, [])
      | some destination =>
        match resolveCustodyMetadata P n.custody env.now request.recipientIdentityId
          request.intendedDeviceId with
        | (.error error, custody) => (reject error, { n with custody }, [])
        | (.ok (identityId, deviceId), custody) =>
          takeIntoCustody ids P crc env peer destination request identityId deviceId
            { n with custody }

/-- `mark_delivered` for each of the dispatches. -/
def markAllDelivered (env : Reading) (reason : String) :
    List (PendingCustodyDispatch Peer) → RelayCustodyStore → RelayCustodyStore
  | [], s => s
  | d :: ds, s =>
    markAllDelivered env reason ds
      (s.markDelivered env (ids.toText d.destinationPeer) d.custodyId reason).2

/-- `apply_delivery_convergence_marker`, the relay's part of it. -/
def applyDeliveryConvergenceMarker (env : Reading) (relayMessageId destinationPeerId : String)
    (n : RelayNode Peer) : RelayNode Peer :=
  let stale (d : PendingCustodyDispatch Peer) : Bool :=
    d.relayMessageId = relayMessageId ∧ ids.toText d.destinationPeer = destinationPeerId
  let removed := (n.pendingCustodyDispatches.entries.map Sigma.snd).filter stale
  let custody := markAllDelivered ids env "delivery_convergence_marker_inflight" removed n.custody
  { n with
    pendingCustodyDispatches := retain n.pendingCustodyDispatches fun _ d => !stale d
    custody := (custody.convergeDeliveredForMessage env destinationPeerId relayMessageId
      "delivery_convergence_marker").2 }

/-- Take a dispatch off the in-flight map and book it as failed. -/
def failDispatch (env : Reading) (requestId : Nat) (reason : String) (n : RelayNode Peer) :
    RelayNode Peer :=
  match n.pendingCustodyDispatches.lookup requestId with
  | none => n
  | some d =>
    { n with
      pendingCustodyDispatches := n.pendingCustodyDispatches.erase requestId
      custody := (n.custody.markDispatchFailed env (ids.toText d.destinationPeer) d.custodyId
        reason).2 }

/-- The response to a custody dispatch: an acknowledgement finalises the record and
applies a convergence marker of its own, once per message and destination. -/
def handleResponse (env : Reading) (requestId : Nat) (accepted : Bool) (error : Option String)
    (n : RelayNode Peer) : RelayNode Peer :=
  match n.pendingCustodyDispatches.lookup requestId with
  | none => n
  | some d =>
    if accepted then
      let destination := ids.toText d.destinationPeer
      let n := { n with
        pendingCustodyDispatches := n.pendingCustodyDispatches.erase requestId
        custody := (n.custody.markDelivered env destination d.custodyId "recipient_ack").2 }
      let key := destination ++ "::" ++ d.relayMessageId
      if key ∈ n.seenMarkers then n
      else
        applyDeliveryConvergenceMarker ids env d.relayMessageId destination
          { n with seenMarkers := key :: n.seenMarkers }
    else
      n.failDispatch ids env requestId
        ("recipient_rejected:" ++ error.getD "recipient_rejected")

/-- The peer is gone: every dispatch in flight to it has failed. -/
def handleDisconnected (env : Reading) (peer : Peer) (n : RelayNode Peer) : RelayNode Peer :=
  let stale := (n.pendingCustodyDispatches.entries.filter fun entry =>
    entry.2.destinationPeer = peer).map Sigma.fst
  stale.foldl (fun n requestId => n.failDispatch ids env requestId "peer_disconnected")
    { n with connected := n.connected.filter (· ≠ peer) }

/-- One event: the node afterwards and what it sent on. -/
def step (n : RelayNode Peer) : RelayEvent Peer → RelayNode Peer × List (Sent Peer)
  | .relayRequest env hourElapsed admitted peer request =>
    (handleRelayRequest ids P crc env hourElapsed admitted peer request n).2
  | .pull env destination triggerReason =>
    dispatchPendingCustodyForPeer ids crc env destination triggerReason n
  | .response env requestId accepted error =>
    (n.handleResponse ids env requestId accepted error, [])
  | .outboundFailure env requestId error =>
    (n.failDispatch ids env requestId ("dispatch_outbound_failure:" ++ error), [])
  | .convergenceMarker env relayMessageId destinationPeerId =>
    let key := destinationPeerId ++ "::" ++ relayMessageId
    if key ∈ n.seenMarkers then (n, [])
    else
      (applyDeliveryConvergenceMarker ids env relayMessageId destinationPeerId
        { n with seenMarkers := key :: n.seenMarkers }, [])
  | .connected peer => ({ n with connected := peer :: n.connected }, [])
  | .disconnected env peer => (n.handleDisconnected ids env peer, [])

/-- A run, and everything it sent on. -/
def run (n : RelayNode Peer) : List (RelayEvent Peer) → RelayNode Peer × List (Sent Peer)
  | [] => (n, [])
  | event :: events =>
    let (next, sent) := n.step ids P crc event
    let (last, more) := run next events
    (last, sent ++ more)

/-! ## What the handlers do to the node -/

open RelayCustodyStore

/-- `n'` has no dispatch in flight that `n` does not have. -/
def NoNewDispatch (n n' : RelayNode Peer) : Prop :=
  ∀ requestId d, n'.pendingCustodyDispatches.lookup requestId = some d →
    n.pendingCustodyDispatches.lookup requestId = some d

/-- A relation that holds between a store and what any bookings of dispatches make of it. -/
structure Books (R : RelayCustodyStore → RelayCustodyStore → Prop) : Prop where
  refl : ∀ s, R s s
  trans : ∀ {s t u}, R s t → R t u → R s u
  dispatching : ∀ s env destination custodyId reason,
    R s (markDispatching s env destination custodyId reason).2
  failed : ∀ s env destination custodyId reason,
    R s (markDispatchFailed s env destination custodyId reason).2
  delivered : ∀ s env destination custodyId reason,
    R s (markDelivered s env destination custodyId reason).2
  converged : ∀ s env destination relayMessageId reason,
    R s (convergeDeliveredForMessage s env destination relayMessageId reason).2

/-- From `n` to `n'` dispatches were booked and none was started. -/
structure Serves (R : RelayCustodyStore → RelayCustodyStore → Prop) (n n' : RelayNode Peer) :
    Prop where
  custody : R n.custody n'.custody
  window : n'.recentDuplicates = n.recentDuplicates
  dispatches : NoNewDispatch n n'

section Books

variable {R : RelayCustodyStore → RelayCustodyStore → Prop} {n n' : RelayNode Peer} (env : Reading)

section
omit [DecidableEq Peer]

theorem Serves.erase {requestId : Nat} (hcustody : R n.custody n'.custody)
    (hwindow : n'.recentDuplicates = n.recentDuplicates)
    (h : n'.pendingCustodyDispatches = n.pendingCustodyDispatches.erase requestId) :
    Serves R n n' := by
  refine ⟨hcustody, hwindow, fun other d hd => ?_⟩
  rw [h] at hd
  exact lookup_of_lookup_erase hd

variable (hR : Books R)
include hR

theorem Books.serves_trans {n'' : RelayNode Peer} (h : Serves R n n') (h' : Serves R n' n'') :
    Serves R n n'' :=
  ⟨hR.trans h.custody h'.custody, h'.window.trans h.window, fun requestId d hd =>
    h.dispatches requestId d (h'.dispatches requestId d hd)⟩

theorem Books.dispatchLoop (peer : Peer) (reason : String) (records : List CustodyMessage) :
    ∀ n : RelayNode Peer,
      R n.custody (dispatchLoop ids crc env peer reason records n).1.custody ∧
      (dispatchLoop ids crc env peer reason records n).1.recentDuplicates = n.recentDuplicates := by
  induction records with
  | nil => exact fun n => ⟨hR.refl _, rfl⟩
  | cons record records ih =>
    intro n
    have hmark := hR.dispatching n.custody env (ids.toText peer) record.custodyId reason
    unfold RelayNode.dispatchLoop
    split
    next => exact ⟨hR.refl _, rfl⟩
    split
    next custody heq =>
      rw [heq] at hmark
      exact (ih { n with custody }).imp_left (hR.trans hmark)
    next custody heq =>
      rw [heq] at hmark
      exact (ih { n with
        custody
        nextRequestId := n.nextRequestId + 1
        pendingCustodyDispatches := n.pendingCustodyDispatches.insert n.nextRequestId
          { destinationPeer := peer, custodyId := record.custodyId
            relayMessageId := record.relayMessageId } }).imp_left (hR.trans hmark)

theorem Books.markAllDelivered (reason : String) (dispatches : List (PendingCustodyDispatch Peer)) :
    ∀ s : RelayCustodyStore, R s (markAllDelivered ids env reason dispatches s) := by
  induction dispatches with
  | nil => exact hR.refl
  | cons d ds ih => exact fun s => hR.trans (hR.delivered s env _ _ _) (ih _)

theorem Books.applyDeliveryConvergenceMarker (relayMessageId destinationPeerId : String)
    (n : RelayNode Peer) :
    Serves R n (applyDeliveryConvergenceMarker ids env relayMessageId destinationPeerId n) :=
  ⟨hR.trans (hR.markAllDelivered ids env _ _ _) (hR.converged _ _ _ _ _), rfl,
    fun _ _ hd => (lookup_retain.mp hd).1⟩

theorem Books.failDispatch (requestId : Nat) (reason : String) (n : RelayNode Peer) :
    Serves R n (n.failDispatch ids env requestId reason) := by
  unfold RelayNode.failDispatch
  split
  next => exact ⟨hR.refl _, rfl, fun _ _ hd => hd⟩
  next => exact .erase (hR.failed _ _ _ _ _) rfl rfl

theorem Books.handleResponse (requestId : Nat) (accepted : Bool) (error : Option String)
    (n : RelayNode Peer) :
    Serves R n (n.handleResponse ids env requestId accepted error) := by
  unfold RelayNode.handleResponse
  split
  next => exact ⟨hR.refl _, rfl, fun _ _ hd => hd⟩
  next d _ =>
    split
    next =>
      have hdelivered := hR.delivered n.custody env (ids.toText d.destinationPeer) d.custodyId
        "recipient_ack"
      dsimp only
      split
      next => exact .erase hdelivered rfl rfl
      refine hR.serves_trans ?_ (hR.applyDeliveryConvergenceMarker ids env _ _ _)
      exact .erase hdelivered rfl rfl
    next => exact hR.failDispatch ids env _ _ n

end

variable (hR : Books R)
include hR

theorem Books.dispatchPendingCustodyForPeer (peer : Peer) (reason : String) (n : RelayNode Peer) :
    let out := (dispatchPendingCustodyForPeer ids crc env peer reason n).1
    R n.custody out.custody ∧ out.recentDuplicates = n.recentDuplicates := by
  unfold RelayNode.dispatchPendingCustodyForPeer
  split
  next => exact ⟨hR.refl _, rfl⟩
  split
  next => exact ⟨hR.refl _, rfl⟩
  next => exact hR.dispatchLoop ids crc env peer reason _ n

theorem Books.handleDisconnected (peer : Peer) (n : RelayNode Peer) :
    Serves R n (n.handleDisconnected ids env peer) := by
  have hfold : ∀ (requests : List Nat) (n : RelayNode Peer), Serves R n
      (requests.foldl (fun n requestId => n.failDispatch ids env requestId "peer_disconnected")
        n) := by
    intro requests
    induction requests with
    | nil => exact fun n => ⟨hR.refl _, rfl, fun _ _ hd => hd⟩
    | cons requestId requests ih =>
      exact fun n => hR.serves_trans (hR.failDispatch ids env _ _ n) (ih _)
  obtain ⟨hcustody, hwindow, hdispatches⟩ :=
    hfold _ { n with connected := n.connected.filter (· ≠ peer) }
  exact ⟨hcustody, hwindow, hdispatches⟩

/-- **Every event but a request or a pull** books what became of dispatches, and sends
nothing. -/
theorem Books.step (n : RelayNode Peer) {event : RelayEvent Peer} (h : event.IsBooking) :
    Serves R n (n.step ids P crc event).1 ∧ (n.step ids P crc event).2 = [] := by
  cases event with
  | relayRequest => exact h.elim
  | pull => exact h.elim
  | response env requestId accepted error =>
    exact ⟨hR.handleResponse ids env requestId accepted error n, rfl⟩
  | outboundFailure env requestId error => exact ⟨hR.failDispatch ids env requestId _ n, rfl⟩
  | convergenceMarker env relayMessageId destinationPeerId =>
    unfold RelayNode.step
    dsimp only
    split
    next => exact ⟨⟨hR.refl _, rfl, fun _ _ hd => hd⟩, rfl⟩
    obtain ⟨hcustody, hwindow, hdispatches⟩ := hR.applyDeliveryConvergenceMarker ids env
      relayMessageId destinationPeerId { n with seenMarkers := _ }
    exact ⟨⟨hcustody, hwindow, hdispatches⟩, rfl⟩
  | connected peer => exact ⟨⟨hR.refl _, rfl, fun _ _ hd => hd⟩, rfl⟩
  | disconnected env peer => exact ⟨hR.handleDisconnected ids env peer n, rfl⟩

/-- **A request** is refused, and nothing is sent, or it comes to the store after the
registry was asked. -/
theorem Books.handleRelayRequest (hourElapsed admitted : Bool) (peer : Peer)
    (request : RelayRequest) (n : RelayNode Peer)
    (hresolve : R n.custody (resolveCustodyMetadata P (n.resetRelayHour hourElapsed).custody env.now
      request.recipientIdentityId request.intendedDeviceId).2) :
    let out := RelayNode.handleRelayRequest ids P crc env hourElapsed admitted peer request n
    (out.1.accepted = false ∧ Serves R n out.2.1 ∧ out.2.2 = []) ∨
    ∃ destination identityId deviceId next,
      ids.fromBytes request.destinationPeer = some destination ∧ Serves R n next ∧
      out = takeIntoCustody ids P crc env peer destination request identityId deviceId next := by
  have hrefused : Serves R n (n.resetRelayHour hourElapsed) :=
    ⟨hR.refl _, rfl, fun _ _ hd => hd⟩
  unfold RelayNode.handleRelayRequest
  dsimp only
  split
  next => exact .inl ⟨rfl, hrefused, rfl⟩
  split
  next => exact .inl ⟨rfl, hrefused, rfl⟩
  split
  next => exact .inl ⟨rfl, hrefused, rfl⟩
  split
  next => exact .inl ⟨rfl, hrefused, rfl⟩
  split
  next => exact .inl ⟨rfl, ⟨hR.refl _, rfl, fun _ _ hd => hd⟩, rfl⟩
  next destination hdestination =>
    split
    next heq =>
      rw [heq] at hresolve
      exact .inl ⟨rfl, ⟨hresolve, rfl, fun _ _ hd => hd⟩, rfl⟩
    next identityId deviceId custody heq =>
      rw [heq] at hresolve
      exact .inr ⟨destination, identityId, deviceId, { n.resetRelayHour hourElapsed with
        custody := custody
        relayCountThisHour := (n.resetRelayHour hourElapsed).relayCountThisHour + 1 },
        hdestination, ⟨hresolve, rfl, fun _ _ hd => hd⟩, rfl⟩

end Books

/-! ## What the relay sends on -/

/-- Everything in `sent` is a framed record of `s`. -/
def FromStored (s : RelayCustodyStore) (sent : List (Sent Peer)) : Prop :=
  ∀ m ∈ sent, ∃ r ∈ s.values,
    r.custodyId = m.custodyId ∧ m.envelopeData = wrapInDriftFrame crc r.envelopeData

variable {data : Bytes} {s u : RelayCustodyStore} {custodyId : String}

theorem books_noNew : Books NoNew :=
  ⟨.refl, .trans, noNew_markDispatching, noNew_markDispatchFailed, noNew_markDelivered,
    noNew_convergeDeliveredForMessage⟩

section
variable (env : Reading) (destinationPeer : Peer) (triggerReason : String)

omit [DecidableEq Peer] in
theorem fromStored_dispatchLoop (records : List CustodyMessage) :
    ∀ n : RelayNode Peer, (∀ r ∈ records, r ∈ s.values) →
      FromStored crc s (dispatchLoop ids crc env destinationPeer triggerReason records n).2 := by
  have hnil : FromStored crc s ([] : List (Sent Peer)) := fun _ hm => absurd hm not_mem_nil
  induction records with
  | nil => exact fun n _ => hnil
  | cons record records ih =>
    intro n hstored
    have hrest : ∀ r ∈ records, r ∈ s.values := fun r hr =>
      hstored r (mem_cons_of_mem record hr)
    unfold dispatchLoop
    split
    next => exact hnil
    split
    next => exact ih _ hrest
    intro m hm
    rcases mem_cons.mp hm with rfl | hm
    · exact ⟨record, hstored record mem_cons_self, rfl, rfl⟩
    · exact ih _ hrest m hm

theorem dispatchPendingCustodyForPeer_spec (n : RelayNode Peer) :
    NoNew n.custody
      (dispatchPendingCustodyForPeer ids crc env destinationPeer triggerReason n).1.custody ∧
    FromStored crc n.custody
      (dispatchPendingCustodyForPeer ids crc env destinationPeer triggerReason n).2 := by
  refine ⟨(books_noNew.dispatchPendingCustodyForPeer ids crc env _ _ n).1, ?_⟩
  unfold dispatchPendingCustodyForPeer
  split
  next => exact fun _ hm => absurd hm not_mem_nil
  split
  next => exact fun _ hm => absurd hm not_mem_nil
  exact fromStored_dispatchLoop ids crc env destinationPeer triggerReason _ n
    fun r hr => mem_values_of_mem_pending hr

end

theorem noNew_resolveCustodyMetadata (s : RelayCustodyStore) (now : Nat)
    (identityId deviceId : Option String) :
    NoNew s (resolveCustodyMetadata P s now identityId deviceId).2 := by
  unfold resolveCustodyMetadata
  split
  next => grind [noNew_of_enforceCustody]
  next => exact .refl s

/-- Between `s` and `u` at most one acceptance happened, of these bytes. -/
def Admits (data : Bytes) (s u : RelayCustodyStore) : Prop :=
  ∃ t, NoNew s t ∧ (u = t ∨ ∃ env source destination messageId identityId deviceId,
    u = (t.acceptCustody P env source destination messageId data identityId deviceId).2)

/-- What an event can do: perhaps one acceptance, then sending from what is stored,
which adds nothing. -/
def Effect (data : Bytes) (s : RelayCustodyStore)
    (out : RelayNode Peer × List (Sent Peer)) : Prop :=
  ∃ u, Admits P data s u ∧ NoNew u out.1.custody ∧ FromStored crc u out.2

variable {out : RelayNode Peer × List (Sent Peer)}

omit [DecidableEq Peer] in
theorem Effect.of_noNew (h : NoNew s out.1.custody) (hsent : out.2 = []) :
    Effect P crc data s out :=
  ⟨s, ⟨s, .refl s, .inl rfl⟩, h, hsent ▸ fun _ hm => absurd hm not_mem_nil⟩

section
variable (env : Reading)

theorem takeIntoCustody_effect (peer destination : Peer) (request : RelayRequest)
    (identityId deviceId : Option String) (n : RelayNode Peer) (hnew : NoNew s n.custody) :
    Effect P crc request.envelopeData s
      (takeIntoCustody ids P crc env peer destination request identityId deviceId n).2 := by
  unfold takeIntoCustody
  dsimp only
  split
  next => exact .of_noNew P crc hnew rfl
  -- the store after the acceptance, whether it succeeded or not
  have hadmits (custody : RelayCustodyStore) (result : Except String CustodyMessage)
      (heq : n.custody.acceptCustody P env (ids.toText peer) (ids.toText destination)
        request.messageId request.envelopeData identityId deviceId = (result, custody)) :
      Admits P request.envelopeData s custody :=
    ⟨n.custody, hnew, .inr ⟨env, _, _, _, _, _, (congrArg Prod.snd heq).symm⟩⟩
  split
  next heq =>
    exact ⟨_, hadmits _ _ heq, .refl _, fun _ hm => absurd hm not_mem_nil⟩
  next heq =>
    exact ⟨_, hadmits _ _ heq, dispatchPendingCustodyForPeer_spec ids crc env destination
      "accept_immediate_pull" { n with custody := _, recentDuplicates := _ }⟩

theorem handleRelayRequest_effect (hourElapsed admitted : Bool) (peer : Peer)
    (request : RelayRequest) (n : RelayNode Peer) :
    Effect P crc request.envelopeData n.custody
      (handleRelayRequest ids P crc env hourElapsed admitted peer request n).2 := by
  rcases books_noNew.handleRelayRequest ids P crc env hourElapsed admitted peer request n
    (noNew_resolveCustodyMetadata P n.custody env.now _ _) with
      ⟨_, hserves, hsent⟩ | ⟨destination, identityId, deviceId, next, _, hserves, hout⟩
  · exact .of_noNew P crc hserves.custody hsent
  · rw [hout]
    exact takeIntoCustody_effect ids P crc env peer destination request _ _ _ hserves.custody

end

theorem step_effect (n : RelayNode Peer) (event : RelayEvent Peer) :
    ∃ data, Effect P crc data n.custody (n.step ids P crc event) := by
  have hbooking : event.IsBooking → Effect P crc [] n.custody (n.step ids P crc event) := by
    intro h
    obtain ⟨hserves, hsent⟩ := books_noNew.step ids P crc n h
    exact .of_noNew P crc hserves.custody hsent
  cases event with
  | relayRequest env hourElapsed admitted peer request =>
    exact ⟨_, handleRelayRequest_effect ids P crc env hourElapsed admitted peer request n⟩
  | pull env destination triggerReason =>
    exact ⟨[], n.custody, ⟨_, .refl _, .inl rfl⟩,
      dispatchPendingCustodyForPeer_spec ids crc env destination triggerReason n⟩
  | _ => exact ⟨[], hbooking trivial⟩

theorem Admits.holds (h : Admits P data s u) {held : Bytes} (hs : Holds custodyId held s) :
    Holds custodyId held u := by
  obtain ⟨t, hnew, rfl | ⟨env, source, destination, messageId, identityId, deviceId, rfl⟩⟩ := h
  · exact hs.of_noNew hnew
  · exact (hs.of_noNew hnew).acceptCustody P env source destination messageId data _ _

/-- A custody id that was not there before belongs to the bytes admitted. -/
theorem Admits.holds_new (h : Admits P data s u) {c : CustodyMessage}
    (hold : ∀ r ∈ s.values, r.custodyId ≠ c.custodyId) (hc : c ∈ u.values) :
    Holds c.custodyId data u := by
  obtain ⟨t, hnew, hu⟩ := h
  have ht : ∀ r ∈ t.values, r.custodyId ≠ c.custodyId := by
    intro r hr
    obtain ⟨r₀, hr₀, hid, _⟩ := hnew.origin r hr
    exact hid ▸ hold r₀ hr₀
  rcases hu with rfl | ⟨env, source, destination, messageId, identityId, deviceId, rfl⟩
  · exact absurd rfl (ht c hc)
  · exact holds_of_acceptCustody ht hc

/-- The custody id stands for these bytes, in the store and in what was sent. -/
def Carries (custodyId : String) (data : Bytes) (out : RelayNode Peer × List (Sent Peer)) :
    Prop :=
  Holds custodyId data out.1.custody ∧
    ∀ m ∈ out.2, m.custodyId = custodyId → m.envelopeData = wrapInDriftFrame crc data

omit [DecidableEq Peer] in
theorem carries_of_holds (hu : Holds custodyId data u) (hnew : NoNew u out.1.custody)
    (hsent : FromStored crc u out.2) : Carries crc custodyId data out := by
  refine ⟨hu.of_noNew hnew, fun m hm hid => ?_⟩
  obtain ⟨r, hr, hrid, hdata⟩ := hsent m hm
  rw [hdata, hu.unchanged r hr (hrid.trans hid)]

theorem step_carries {n : RelayNode Peer} (h : Holds custodyId data n.custody)
    (event : RelayEvent Peer) :
    Carries crc custodyId data (n.step ids P crc event) := by
  obtain ⟨_, u, hadmits, hnew, hsent⟩ := step_effect ids P crc n event
  exact carries_of_holds crc (hadmits.holds P h) hnew hsent

/-- In every run the bytes of a custody record stay what they were. -/
theorem run_carries (events : List (RelayEvent Peer)) :
    ∀ {n : RelayNode Peer}, Holds custodyId data n.custody →
      Carries crc custodyId data (n.run ids P crc events) := by
  induction events with
  | nil => exact fun h => ⟨h, fun _ hm => absurd hm not_mem_nil⟩
  | cons event events ih =>
    intro n h
    obtain ⟨hnext, hsent⟩ := step_carries ids P crc h event
    obtain ⟨hlast, hmore⟩ := ih hnext
    refine ⟨hlast, fun m hm hid => ?_⟩
    rcases mem_append.mp hm with hm | hm
    · exact hsent m hm hid
    · exact hmore m hm hid

/-- A request that brings in a custody record fixes what is ever sent for it. -/
theorem run_relayRequest_carries (env : Reading) (hourElapsed admitted : Bool) (peer : Peer)
    (request : RelayRequest) (n : RelayNode Peer) {c : CustodyMessage}
    (hold : ∀ r ∈ n.custody.values, r.custodyId ≠ c.custodyId)
    (hc : c ∈ (n.step ids P crc
      (.relayRequest env hourElapsed admitted peer request)).1.custody.values)
    (events : List (RelayEvent Peer)) :
    ∀ m ∈ (n.run ids P crc (.relayRequest env hourElapsed admitted peer request :: events)).2,
      m.custodyId = c.custodyId → m.envelopeData = wrapInDriftFrame crc request.envelopeData := by
  obtain ⟨u, hadmits, hnew, hsent⟩ :=
    handleRelayRequest_effect ids P crc env hourElapsed admitted peer request n
  obtain ⟨c₀, hc₀, hid, _⟩ := hnew.origin c hc
  have hu : Holds c.custodyId request.envelopeData u :=
    hid ▸ hadmits.holds_new P (hid ▸ hold) hc₀
  obtain ⟨hnext, hfirst⟩ := carries_of_holds crc hu hnew hsent
  obtain ⟨_, hmore⟩ := run_carries ids P crc events hnext
  intro m hm hmid
  rcases mem_append.mp hm with hm | hm
  · exact hfirst m hm hmid
  · exact hmore m hm hmid

end RelayNode

end Relay

end Scm.Transport
