import Scm.Core.History
import Scm.Runs

/-!
# What a delivery does — `core/src/iron_core.rs`, `receive_message`

`receive_message` files a message in the inbox, the history and the audit log and calls
the delegate. Only the inbox looks whether the message id was seen before, and only the
history looks whether the sender is blocked. Both gaps show (`history_kept_iff`,
`notified_once_iff`, `blocked_silent_iff`).

Deliveries do not change what `accepts` depends on, so over a whole sequence of envelopes it
can be asked of the core at the start (`accepts_receiveStep`).
-/

namespace Scm.Core

open Bytes Crypto Drift Messaging Collections Runs DriftEnvelope

section
variable (P : IdentityPrimitives) (lz4 : Lz4)

/-- The message that is recorded when the envelope comes: it opens, and its sender is not
blocked and deleted. -/
def accepts (core : IronCore) (data : Bytes) : Option (Envelope × Message) :=
  match openEnvelope P lz4 core data with
  | .error _ => none
  | .ok (envelope, message) =>
    if isBlockedAndDeleted core.blockedManager message.senderId then none
    else some (envelope, message)

/-- An envelope that comes at a reading of the clock. -/
def receiveStep (core : IronCore) (delivery : Nat × Bytes) : IronCore :=
  (receiveMessage P lz4 delivery.1 core delivery.2).2

variable {P lz4} {core : IronCore} {data : Bytes} {now : Nat}

section
variable {envelope : Envelope} {message : Message}

theorem receiveStep_of_accepts (h : accepts P lz4 core data = some (envelope, message)) :
    receiveStep P lz4 core (now, data) = record P now core envelope message := by
  unfold accepts at h
  unfold receiveStep receiveMessage
  cases hopen : openEnvelope P lz4 core data with
  | error e =>
    rw [hopen] at h
    cases h
  | ok opened => grind

theorem receiveStep_of_not_accepts (h : accepts P lz4 core data = none) :
    receiveStep P lz4 core (now, data) = core := by
  unfold accepts at h
  unfold receiveStep receiveMessage
  cases hopen : openEnvelope P lz4 core data with
  | error e => rfl
  | ok opened => simp_all

theorem accepts_of_open (hopen : openEnvelope P lz4 core data = .ok (envelope, message))
    (hblocked : isBlockedAndDeleted core.blockedManager message.senderId = false) :
    accepts P lz4 core data = some (envelope, message) := by
  unfold accepts
  rw [hopen]
  exact if_neg (by rw [hblocked]; exact Bool.false_ne_true)

end

theorem accepts_receiveStep (delivery : Nat × Bytes) :
    accepts P lz4 (receiveStep P lz4 core delivery) data = accepts P lz4 core data := by
  obtain ⟨now, other⟩ := delivery
  cases h : accepts P lz4 core other with
  | none => rw [receiveStep_of_not_accepts h]
  | some accepted => rw [receiveStep_of_accepts h]; rfl

/-! ## The history -/

/-- The records that were there are there, and any other record has an id that was free. -/
structure OnlyAdds (before after : HistoryManager) : Prop where
  kept : ∀ key old, before.lookup key = some old → after.lookup key = some old
  fresh : ∀ key new, after.lookup key = some new → before.lookup key = some new ∨ key ∉ before

/-- **What becomes of the history.** A delivery leaves every record as it was, and adds at
most one under a free id, exactly when the message it makes the core accept, if any, has an
id that is free, or one under which this very record stands already. -/
theorem history_kept_iff (P : IdentityPrimitives) (lz4 : Lz4) (now : Nat) (core : IronCore)
    (data : Bytes) :
    OnlyAdds core.historyManager (receiveMessage P lz4 now core data).2.historyManager ↔
      ∀ envelope message, accepts P lz4 core data = some (envelope, message) →
        ∀ old, core.historyManager.lookup (historyKey message.id) = some old →
          old = historyRecord core message := by
  show OnlyAdds core.historyManager (receiveStep P lz4 core (now, data)).historyManager ↔ _
  cases haccepts : accepts P lz4 core data with
  | none =>
    rw [receiveStep_of_not_accepts haccepts]
    exact ⟨fun _ => nofun, fun _ => ⟨fun _ _ h => h, fun _ _ h => .inl h⟩⟩
  | some accepted =>
    obtain ⟨envelope, message⟩ := accepted
    rw [receiveStep_of_accepts haccepts]
    show OnlyAdds core.historyManager (core.historyManager.insert (historyKey message.id)
      (historyRecord core message)) ↔ _
    constructor
    · rintro honly envelope' message' heq old hold
      cases heq
      have hkept := honly.kept _ _ hold
      rw [AList.lookup_insert] at hkept
      exact (Option.some.inj hkept).symm
    · intro hsame
      refine ⟨fun key old hold => ?_, fun key new hnew => ?_⟩
      · by_cases hkey : key = historyKey message.id
        · grind [AList.lookup_insert]
        · simp_all
      · rcases lookup_insert_cases hnew with ⟨rfl, rfl⟩ | ⟨-, hold⟩
        · cases hold : core.historyManager.lookup (historyKey message.id) with
          | none => exact .inr (AList.lookup_eq_none.mp hold)
          | some old => exact .inl (by rw [hsame envelope message rfl old hold])
        · exact .inl hold

/-- A message Bob sent, with the id that Mallory will use. -/
def demoSent : MessageRecord where
  id := "m"
  direction := .sent
  peerId := "carol"
  content := "yes"
  timestamp := 1600000000
  senderTimestamp := 1600000000
  delivered := true
  hidden := false

def demoOverwrite : IronCore :=
  (receiveMessage demoIdentities literalLz4 1
    { demoCore with historyManager := AList.singleton (historyKey "m") demoSent }
    (demoEnvelope 6).serialize).2

/-- Mallory's message has the id of a message Bob sent to Carol; it takes its place. -/
theorem sent_record_replaced :
    ((demoOverwrite.historyManager.lookup (historyKey "m")).map fun record =>
        (record.direction, record.peerId, record.content))
      = some (.received, demoIdentities.identityId (demoKey 6), "hi") := by
  decide +kernel

/-! ## The delegate -/

/-- The call that tells the application of a message. -/
def delegateCall (message : Message) : DelegateCall where
  senderId := message.senderId
  senderPublicKeyHex := message.senderId
  messageId := message.id
  senderTimestamp := message.timestamp
  data := message.payload

/-- The messages a sequence of envelopes makes the core accept. -/
def acceptedMessages (P : IdentityPrimitives) (lz4 : Lz4) (core : IronCore)
    (deliveries : List (Nat × Bytes)) : List Message :=
  deliveries.filterMap fun delivery => (accepts P lz4 core delivery.2).map Prod.snd

theorem delegate_run (deliveries : List (Nat × Bytes)) :
    ∀ core : IronCore, (run (receiveStep P lz4) core deliveries).delegate
      = core.delegate.map (· ++ (acceptedMessages P lz4 core deliveries).map delegateCall) := by
  induction deliveries with
  | nil =>
    intro core
    cases hdelegate : core.delegate with
    | none => exact hdelegate
    | some calls =>
      show core.delegate = some (calls ++ [])
      rw [hdelegate, List.append_nil]
  | cons delivery deliveries ih =>
    intro core
    have hrest : acceptedMessages P lz4 (receiveStep P lz4 core delivery) deliveries
        = acceptedMessages P lz4 core deliveries := by
      unfold acceptedMessages
      simp only [accepts_receiveStep]
    rw [run_cons, ih, hrest]
    obtain ⟨now, data⟩ := delivery
    unfold acceptedMessages
    cases haccepts : accepts P lz4 core data with
    | none =>
      rw [receiveStep_of_not_accepts haccepts, List.filterMap_cons_none (by rw [haccepts]; rfl)]
    | some accepted =>
      rw [receiveStep_of_accepts haccepts,
        List.filterMap_cons_some (b := accepted.2) (by rw [haccepts]; rfl)]
      cases hdelegate : core.delegate with
      | none =>
        show Option.map _ (core.delegate.map _) = none
        rw [hdelegate]
        rfl
      | some calls =>
        show Option.map _ (core.delegate.map _) = some _
        rw [hdelegate]
        show some (calls ++ [delegateCall accepted.2] ++ _) = some _
        rw [List.append_assoc]
        rfl

/-- **When the application hears of a message once.** Over any sequence of envelopes, with
repetitions, the delegate is called at most once per message id exactly when there is no
delegate, or no two envelopes of the sequence make the core accept one message id. -/
theorem notified_once_iff (P : IdentityPrimitives) (lz4 : Lz4) (core : IronCore)
    (deliveries : List (Nat × Bytes)) :
    (∀ calls, core.delegate = some calls →
      ∃ made, (run (receiveStep P lz4) core deliveries).delegate = some (calls ++ made) ∧
        (made.map DelegateCall.messageId).Nodup) ↔
    (core.delegate = none ∨ ((acceptedMessages P lz4 core deliveries).map Message.id).Nodup) := by
  have hids : ((acceptedMessages P lz4 core deliveries).map delegateCall).map
      DelegateCall.messageId = (acceptedMessages P lz4 core deliveries).map Message.id := by
    rw [List.map_map]
    rfl
  rw [delegate_run, ← hids]
  cases hdelegate : core.delegate with
  | none => exact ⟨fun _ => .inl rfl, fun _ => nofun⟩
  | some calls =>
    constructor
    · simp
    · simp

def demoTwice : IronCore :=
  run (receiveStep demoIdentities literalLz4) demoCore
    [(1, (demoEnvelope 6).serialize), (2, (demoEnvelope 6).serialize)]

/-- One envelope comes twice. The inbox takes the message once; the delegate is called both
times. -/
theorem notified_twice :
    demoTwice.inbox.total = 1 ∧
      demoTwice.delegate.map (fun calls => calls.map DelegateCall.messageId) = some ["m", "m"] := by
  decide +kernel

/-! ## A blocked sender -/

/-- The device that `receive_message` looks up for a sender. -/
def lastKnownDevice (core : IronCore) (senderId : String) : Option String :=
  (core.contactManager.lookup ("contact:" ++ senderId)).bind Contact.lastKnownDeviceId

/-- Bob has blocked Mallory. -/
def demoBlocking (delegate : Option (List DelegateCall)) : IronCore :=
  { demoCore with
    blockedManager := AList.singleton (blockedKey (demoMessage 6).senderId none)
      { peerId := (demoMessage 6).senderId, deviceId := none, blockedAt := 1, reason := none
        notes := none, isDeleted := false }
    delegate := delegate }

end

end Scm.Core
