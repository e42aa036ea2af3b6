import Scm.Core.Sending
import Scm.Store.OutboxLedger

/-!
# Maintenance — `core/src/iron_core.rs`, `perform_maintenance`

Maintenance removes what has been in the outbox for seven days, scans for peers to block and
notes both in the audit log. How long a message has been queued is the difference of two clock
readings: `prepare_message` writes `queued_at` in milliseconds (`as_millis`), `remove_expired`
compares it with a clock in seconds (`as_secs`), and the subtraction saturates.

For the clocks of this century a message then goes some fifty thousand years after it was
queued (`removed_after_week_iff`).

The calls here are those of the core that touch the outbox; `block_and_delete` drains a queue
as `flush_outbox_for_peer` does. What the abuse scan answers and does to the blocked peers is
an input. The routing layer's and the health monitor's clean-up and the check of the audit
chain at the end leave nothing that is modelled here.
-/

namespace Scm.Core

open Drift Messaging Runs Store

/-- The entries of the audit log that maintenance writes. -/
inductive MaintenanceEvent where
  | storageCompacted (identityId : Option String) (details : String)
  | contactBlocked (identityId : Option String) (details : String)
  deriving DecidableEq, Repr

/-- `IronCore`, with what `perform_maintenance` uses besides. -/
structure MaintainedCore extends SendingCore where
  maintenanceEvents : List MaintenanceEvent

/-- What a maintenance call meets: its clock in milliseconds, and the abuse scan, which blocks
peers and says how many, or fails. -/
structure MaintenanceReading where
  now : Option Nat
  evaluateAllTracked : BlockedManager → Except IronCoreError Nat × BlockedManager

namespace MaintainedCore

variable (S : SenderPrimitives) (lz4 : Lz4)

/-- The age at which maintenance removes a message, in seconds. -/
def maxOutboxAgeSecs : Nat := 604800

/-- `perform_maintenance`. -/
def performMaintenance (core : MaintainedCore) (reading : MaintenanceReading) : MaintainedCore :=
  let (removed, outbox) := core.outbox.removeExpired (seconds reading.now) maxOutboxAgeSecs
  let identityId := core.signingKey.map S.identityId
  let compacted := MaintenanceEvent.storageCompacted identityId ("removed=" ++ toString removed)
  let (scanned, blockedManager) := reading.evaluateAllTracked core.blockedManager
  let blocked := match scanned with
    | .ok count =>
      if count > 0 then
        [MaintenanceEvent.contactBlocked identityId ("auto_blocked=" ++ toString count)]
      else []
    -- the failure is logged and dropped
    | .error _ => []
  { core with
    outbox, blockedManager
    maintenanceEvents := core.maintenanceEvents ++ compacted :: blocked }

/-- A call on the core that touches the outbox. -/
inductive Call where
  | prepareMessage (surroundings : Surroundings) (draws : Draws) (recipientId text : String)
      (messageType : MessageType)
  | markMessageSent (messageId : String)
  | flushOutboxForPeer (peerId : String)
  | performMaintenance (reading : MaintenanceReading)

/-- One call. -/
def apply (core : MaintainedCore) : Call → MaintainedCore
  | .prepareMessage surroundings draws recipientId text messageType =>
    { core with toSendingCore := (Scm.Core.prepareMessage S lz4 surroundings draws
        core.toSendingCore recipientId text messageType).2 }
  | .markMessageSent messageId =>
    { core with toSendingCore := (Scm.Core.markMessageSent S core.toSendingCore messageId).2 }
  | .flushOutboxForPeer peerId => { core with outbox := (core.outbox.drainForPeer peerId).2 }
  | .performMaintenance reading => core.performMaintenance S reading

/-- A call that finds the queues in some order. -/
def step (core : MaintainedCore) (event : MapOrder × Call) : MaintainedCore :=
  apply S lz4 { core with outbox := core.outbox.reordered event.1 } event.2

variable {S lz4}

section
variable {core : MaintainedCore} {order : MapOrder} {reading : MaintenanceReading}

theorem mem_peek_performMaintenance {peer : String} {msg : QueuedMessage} :
    msg ∈ (core.step S lz4 (order, .performMaintenance reading)).outbox.peekForPeer peer ↔
      msg ∈ core.outbox.peekForPeer peer ∧
        seconds reading.now - msg.queuedAt < maxOutboxAgeSecs := by
  have hqueue : (core.step S lz4 (order, .performMaintenance reading)).outbox.peekForPeer peer
      = (core.outbox.peekForPeer peer).filter
        (Outbox.fresh (seconds reading.now) maxOutboxAgeSecs) := by
    rw [← Outbox.peekForPeer_reordered core.outbox order, ← Outbox.peekForPeer_removeExpired]
    rfl
  rw [hqueue, List.mem_filter, Outbox.fresh, decide_eq_true_iff]

theorem prepareMessage_fst_outbox (surroundings : Surroundings) (draws : Draws) (core : SendingCore)
    (outbox : Outbox) (recipientId text : String) (messageType : MessageType) :
    (prepareMessage S lz4 surroundings draws { core with outbox } recipientId text messageType).1
      = (prepareMessage S lz4 surroundings draws core recipientId text messageType).1 := by
  unfold prepareMessage
  cases core.signingKey with
  | none => rfl
  | some signingKey =>
    dsimp only
    cases sealMessage S lz4 draws signingKey recipientId text messageType with
    | error e => rfl
    | ok sealed => rfl

theorem mem_peek_prepareMessage {surroundings : Surroundings} {draws : Draws}
    {recipientId text : String} {messageType : MessageType} {prepared : PreparedMessage}
    (hprepared : (prepareMessage S lz4 surroundings draws core.toSendingCore recipientId text
      messageType).1 = .ok prepared)
    (hroute : handoffToDrift S surroundings draws recipientId = false)
    (hroom : core.outbox.total < maxTotalQueued ∧
      (core.outbox.peekForPeer recipientId).length < maxQueuePerPeer) :
    queuedMessage S draws recipientId prepared.envelopeData
      ∈ (core.step S lz4 (order, .prepareMessage surroundings draws recipientId text
        messageType)).outbox.peekForPeer recipientId := by
  obtain ⟨_, e, _, _, _, hafter⟩ := prepareMessage_eq_ok
    ((prepareMessage_fst_outbox surroundings draws core.toSendingCore
      (core.outbox.reordered order) recipientId text messageType).trans hprepared)
  rw [← Outbox.peekForPeer_reordered core.outbox order] at hroom
  have hstep : (core.step S lz4 (order, .prepareMessage surroundings draws recipientId text
      messageType)).outbox = (core.outbox.reordered order).push
        (queuedMessage S draws recipientId prepared.envelopeData) := by
    have hhanded := congrArg SendingCore.outbox (hafter surroundings.order surroundings.cmp)
    have hqueued := hhanded.trans (handOver_outbox hroute _ e prepared.envelopeData).1
    rw [Outbox.enqueue_snd] at hqueued
    exact hqueued.trans (if_pos hroom)
  rw [hstep]
  exact Outbox.mem_peekForPeer_push _ _

end

/-- **When maintenance removes a message after seven days.** A message was queued at `t`, and
after any other calls maintenance runs at `u`, both in milliseconds. Removed exactly when it
is still queued and seven days have passed: that is so when it is not queued any more, when
neither the seven days are over nor the clock in seconds is past the other in milliseconds by
604800, or when both are. -/
theorem removed_after_week_iff (core : MaintainedCore) (order : MapOrder)
    (surroundings : Surroundings) (draws : Draws) (recipientId text : String)
    (messageType : MessageType) {prepared : PreparedMessage}
    (hprepared : (prepareMessage S lz4 surroundings draws core.toSendingCore recipientId text
      messageType).1 = .ok prepared)
    (hroute : handoffToDrift S surroundings draws recipientId = false)
    (hroom : core.outbox.total < maxTotalQueued ∧
      (core.outbox.peekForPeer recipientId).length < maxQueuePerPeer)
    {t : Nat} (ht : draws.queuedAt = some t) (events : List (MapOrder × Call)) (order' : MapOrder)
    (reading : MaintenanceReading) {u : Nat} (hu : reading.now = some u) :
    let msg := queuedMessage S draws recipientId prepared.envelopeData
    let queued := core.step S lz4 (order, .prepareMessage surroundings draws recipientId text
      messageType)
    let before := run (step S lz4) queued events
    let after := before.step S lz4 (order', .performMaintenance reading)
    let isQueued := fun core : MaintainedCore => msg ∈ core.outbox.peekForPeer recipientId
    isQueued queued ∧
      ((isQueued before ∧ ¬ isQueued after ↔ isQueued before ∧ 604800000 ≤ u - t) ↔
        ¬ isQueued before ∨
          (u - t < 604800000 ∧ u / 1000 < t % 2 ^ 64 + 604800) ∨
          (604800000 ≤ u - t ∧ t % 2 ^ 64 + 604800 ≤ u / 1000)) := by
  intro msg queued before after isQueued
  refine ⟨mem_peek_prepareMessage hprepared hroute hroom, ?_⟩
  have hafter : isQueued after ↔ isQueued before ∧ u / 1000 - t % 2 ^ 64 < 604800 := by
    have hclock : seconds reading.now = u / 1000 := by rw [hu]; rfl
    have hstamp : msg.queuedAt = t % 2 ^ 64 := by
      show draws.queuedAt.getD 0 % 2 ^ 64 = _
      rw [ht]
      rfl
    rw [← hclock, ← hstamp]
    exact mem_peek_performMaintenance
  rw [hafter]
  by_cases hbefore : isQueued before
  · grind
  · simp only [hbefore, false_and, not_false_eq_true, true_or]

end MaintainedCore

/-! ## A message of 2023 -/

/-- Alice's core, with nothing in it. -/
def demoMaintainedCore : MaintainedCore where
  toSendingCore := flooded 0
  maintenanceEvents := []

/-- Maintenance at a time, with a scan that blocks nobody. -/
def quietMaintenance (now : Nat) : MaintenanceReading where
  now := some now
  evaluateAllTracked blocked := (.ok 0, blocked)

/-- The message waits for Bob. -/
def WaitsForBob (prepared : PreparedMessage) (core : MaintainedCore) : Prop :=
  queuedMessage demoSenderPrimitives (draw 0) demoRecipientId prepared.envelopeData
    ∈ core.outbox.peekForPeer demoRecipientId

/-- Alice's core after writing "hi" to Bob. -/
def demoQueued : MaintainedCore :=
  demoMaintainedCore.step demoSenderPrimitives DriftEnvelope.literalLz4
    (.same, .prepareMessage demoSurroundings (draw 0) demoRecipientId "hi" .text)

/-- That core after maintenance. -/
def demoMaintained (now : Nat) : MaintainedCore :=
  demoQueued.step demoSenderPrimitives DriftEnvelope.literalLz4
    (.same, .performMaintenance (quietMaintenance now))

theorem demoMaintainedCore_room : demoMaintainedCore.outbox.total < maxTotalQueued ∧
    (demoMaintainedCore.outbox.peekForPeer demoRecipientId).length < maxQueuePerPeer :=
  ⟨by decide, by decide⟩

/-- After one day it is not removed, and should not be. -/
theorem kept_after_one_day :
    ∃ prepared, (prepareMessage demoSenderPrimitives DriftEnvelope.literalLz4 demoSurroundings
        (draw 0) demoMaintainedCore.toSendingCore demoRecipientId "hi" .text).1 = .ok prepared ∧
      (WaitsForBob prepared demoQueued ∧ ¬ WaitsForBob prepared (demoMaintained 1700086400000) ↔
        WaitsForBob prepared demoQueued ∧ 604800000 ≤ 1700086400000 - 1700000000000) := by
  obtain ⟨prepared, hprepared, _⟩ := prepareMessage_draw 0 (flooding 0 (by omega)).signingKey
  have hiff := (MaintainedCore.removed_after_week_iff demoMaintainedCore .same demoSurroundings
    (draw 0) demoRecipientId "hi" .text hprepared rfl demoMaintainedCore_room
    (t := 1700000000000) rfl [] .same (quietMaintenance 1700086400000) (u := 1700086400000) rfl).2
  rw [run_nil] at hiff
  refine ⟨prepared, hprepared, ?_⟩
  unfold WaitsForBob demoMaintained demoQueued
  exact hiff.mpr (.inr (.inl (by omega)))

/-- After eight days it should be removed, and is still there. -/
theorem kept_after_eight_days :
    ∃ prepared, (prepareMessage demoSenderPrimitives DriftEnvelope.literalLz4 demoSurroundings
        (draw 0) demoMaintainedCore.toSendingCore demoRecipientId "hi" .text).1 = .ok prepared ∧
      WaitsForBob prepared demoQueued ∧ 604800000 ≤ 1700691200000 - 1700000000000 ∧
      WaitsForBob prepared (demoMaintained 1700691200000) := by
  obtain ⟨prepared, hprepared, _⟩ := prepareMessage_draw 0 (flooding 0 (by omega)).signingKey
  have hqueued : WaitsForBob prepared demoQueued :=
    MaintainedCore.mem_peek_prepareMessage hprepared rfl demoMaintainedCore_room
  refine ⟨prepared, hprepared, hqueued, by omega,
    MaintainedCore.mem_peek_performMaintenance.mpr ⟨hqueued, ?_⟩⟩
  -- 1700691200 seconds less 1700000000000 saturates
  show 1700691200000 / 1000 - 1700000000000 % 2 ^ 64 < 604800
  omega

end Scm.Core
