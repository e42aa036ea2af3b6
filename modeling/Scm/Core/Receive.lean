import Scm.Crypto.Encrypt

/-!
# Receiving a message — `core/src/iron_core.rs`, `receive_message`

The last stop of a delivery: decode the envelope, decrypt it, decode the message
inside, look the sender up in the block list and record the message in the inbox,
the history and the audit log, then tell the application. The stores are those of
`core/src/store/{blocked,contacts,inbox,history}.rs`, as far as this function uses
them, on backends that do not fail.

Two names for the sender are in play. The *authenticated* one is the identity of
`envelope.sender_public_key`, which the AEAD binds. The *claimed* one is
`message.sender_id`, which the sender wrote into the plaintext. Everything after
decryption goes by the claimed one, and nothing compares the two:
`receiveMessage_attribution_iff` says when they nevertheless agree.

The inbox is the in-memory one. Left out: the other fields of a contact, the hash
chain of the audit log, logging.
-/

namespace Scm.Core

open Bytes Crypto Drift Messaging

inductive IronCoreError where
  | notInitialized
  | alreadyRunning
  | storageError
  | cryptoError
  | networkError
  | invalidInput
  | blocked
  | consentRequired
  | internal
  | corruptionDetected
  deriving DecidableEq, Repr

/-! ## The stores -/

structure BlockedIdentity where
  peerId : String
  deviceId : Option String
  blockedAt : Nat
  reason : Option String
  notes : Option String
  isDeleted : Bool
  deriving DecidableEq, Repr

/-- `BlockedManager`: the entries by storage key. -/
abbrev BlockedManager := AList fun _ : String => BlockedIdentity

/-- `BlockedIdentity::storage_key`. -/
def blockedKey (peerId : String) : Option String → String
  | some deviceId => "blocked:" ++ peerId ++ ":" ++ deviceId
  | none => "blocked:" ++ peerId

/-- `BlockedManager::is_blocked`. -/
def isBlocked (blocked : BlockedManager) (peerId : String) (deviceId : Option String) : Bool :=
  (match deviceId with
    | some deviceId => (blocked.lookup (blockedKey peerId (some deviceId))).isSome
    | none => false) ||
  (blocked.lookup (blockedKey peerId none)).isSome

/-- `BlockedManager::is_blocked_and_deleted`. -/
def isBlockedAndDeleted (blocked : BlockedManager) (peerId : String) : Bool :=
  match blocked.lookup (blockedKey peerId none) with
  | some entry => entry.isDeleted
  | none => false

structure Contact where
  lastKnownDeviceId : Option String
  deriving DecidableEq, Repr

structure ReceivedMessage where
  messageId : String
  senderId : String
  payload : Bytes
  receivedAt : Nat
  senderPublicKeyHex : Option String
  deriving DecidableEq, Repr

/-- `MAX_SEEN_IDS`. -/
def maxSeenIds : Nat := 50000

/-- The in-memory inbox. `seenOrder` lists the hashes of the seen ids, oldest first;
`seen_ids` is the set of its elements. -/
structure Inbox where
  seenOrder : List Key
  nodup : seenOrder.Nodup
  messages : AList fun _ : String => List ReceivedMessage
  total : Nat

/-- The eviction loop of `receive`. -/
def evictOldest : List Key → List Key
  | [] => []
  | old :: rest => if (old :: rest).length > maxSeenIds then evictOldest rest else old :: rest

theorem evictOldest_sublist : ∀ seen : List Key, (evictOldest seen).Sublist seen
  | [] => List.Sublist.refl []
  | old :: rest => by
    unfold evictOldest
    split
    next => exact (evictOldest_sublist rest).cons old
    next => exact List.Sublist.refl _

namespace Inbox

/-- `is_duplicate`. -/
def isDuplicate (P : IdentityPrimitives) (inbox : Inbox) (messageId : String) : Bool :=
  P.hash messageId.toUTF8.data.toList ∈ inbox.seenOrder

/-- `Inbox::receive`. -/
def receive (P : IdentityPrimitives) (inbox : Inbox) (msg : ReceivedMessage) : Bool × Inbox :=
  let hash := P.hash msg.messageId.toUTF8.data.toList
  if h : hash ∈ inbox.seenOrder then (false, inbox)
  else
    (true,
      { seenOrder := evictOldest (inbox.seenOrder.concat hash)
        nodup := (inbox.nodup.concat h).sublist (evictOldest_sublist _)
        messages := inbox.messages.insert msg.senderId
          ((inbox.messages.lookup msg.senderId).getD [] ++ [msg])
        total := inbox.total + 1 })

end Inbox

inductive MessageDirection where
  | sent
  | received
  deriving DecidableEq, Repr

structure MessageRecord where
  id : String
  direction : MessageDirection
  peerId : String
  content : String
  timestamp : UInt64
  senderTimestamp : UInt64
  delivered : Bool
  hidden : Bool
  deriving DecidableEq, Repr

/-- An entry of the audit log: `MessageReceived` is the only kind written here. -/
structure MessageReceivedEvent where
  identityId : Option String
  peerId : Option String
  details : Option String
  deriving DecidableEq, Repr

/-- A call of `CoreDelegate::on_message_received`. -/
structure DelegateCall where
  senderId : String
  senderPublicKeyHex : String
  messageId : String
  senderTimestamp : UInt64
  data : Bytes
  deriving DecidableEq, Repr

/-- The parts of `IronCore` that `receive_message` touches. `delegate` is the calls
made so far, when a delegate is set. -/
structure IronCore where
  signingKey : Option Key
  blockedManager : BlockedManager
  contactManager : AList fun _ : String => Contact
  inbox : Inbox
  historyManager : AList fun _ : String => MessageRecord
  auditLog : List MessageReceivedEvent
  delegate : Option (List DelegateCall)

section Receive

variable (P : IdentityPrimitives) (lz4 : Lz4)

/-! ## The function -/

/-- The first half of `receive_message`: decode, decrypt, decode. -/
def openEnvelope (core : IronCore) (envelopeData : Bytes) :
    Except IronCoreError (Envelope × Message) :=
  match decodeEnvelope lz4 envelopeData with
  | .error _ => .error .cryptoError
  | .ok envelope =>
    match core.signingKey with
    | none => .error .notInitialized
    | some signingKey =>
      match decryptMessage P signingKey envelope with
      | .error _ => .error .cryptoError
      | .ok plaintext =>
        match decodeMessage plaintext with
        | .error _ => .error .internal
        | .ok message => .ok (envelope, message)

/-- `String::from_utf8(payload).unwrap_or_default()`. -/
def textContent (payload : Bytes) : String := (String.fromUTF8? ⟨payload.toArray⟩).getD ""

/-- `HistoryManager::add`'s key. -/
def historyKey (messageId : String) : String := "msg_" ++ messageId

/-- What `receive_message` writes to the history. -/
def historyRecord (core : IronCore) (message : Message) : MessageRecord :=
  let senderDeviceId := (core.contactManager.lookup ("contact:" ++ message.senderId)).bind
    Contact.lastKnownDeviceId
  { id := message.id, direction := .received, peerId := message.senderId
    content := textContent message.payload, timestamp := message.timestamp
    senderTimestamp := message.timestamp, delivered := true
    hidden := isBlocked core.blockedManager message.senderId senderDeviceId }

/-- What `receive_message` writes to the inbox. -/
def inboxRecord (now : Nat) (envelope : Envelope) (message : Message) : ReceivedMessage :=
  { messageId := message.id, senderId := message.senderId, payload := message.payload
    receivedAt := now, senderPublicKeyHex := some (toHex envelope.senderPublicKey) }

/-- The second half: record the message everywhere. The delegate's second argument
is declared as the sender's public key; it is given the sender id again. -/
def record (now : Nat) (core : IronCore) (envelope : Envelope) (message : Message) : IronCore :=
  { core with
    inbox :=
      if core.inbox.isDuplicate P message.id then core.inbox
      else (core.inbox.receive P (inboxRecord now envelope message)).2
    historyManager := core.historyManager.insert (historyKey message.id)
      (historyRecord core message)
    auditLog := core.auditLog ++
      [{ identityId := core.signingKey.map P.identityId, peerId := some message.senderId
         details := none }]
    delegate := core.delegate.map fun calls => calls ++
      [{ senderId := message.senderId, senderPublicKeyHex := message.senderId
         messageId := message.id, senderTimestamp := message.timestamp
         data := message.payload }] }

/-- `receive_message`. -/
def receiveMessage (now : Nat) (core : IronCore) (envelopeData : Bytes) :
    Except IronCoreError Message × IronCore :=
  match openEnvelope P lz4 core envelopeData with
  | .error e => (.error e, core)
  | .ok (envelope, message) =>
    if isBlockedAndDeleted core.blockedManager message.senderId then (.error .blocked, core)
    else (.ok message, record P now core envelope message)

/-! ## Who a message is recorded under -/

/-- The message is returned and recorded, everywhere, as one from `identity`. -/
structure AttributedTo (identity : String) (before after : IronCore) (message : Message) :
    Prop where
  returned : message.senderId = identity
  inbox : before.inbox.isDuplicate P message.id = false →
    ∃ entry ∈ (after.inbox.messages.lookup identity).getD [],
      entry.messageId = message.id ∧ entry.senderId = identity
  history : ∃ entry, after.historyManager.lookup (historyKey message.id) = some entry ∧
    entry.peerId = identity
  audit : ∃ event, after.auditLog = before.auditLog ++ [event] ∧ event.peerId = some identity
  delegate : ∀ calls, before.delegate = some calls →
    ∃ call, after.delegate = some (calls ++ [call]) ∧ call.senderId = identity

theorem Inbox.mem_receive {inbox : Inbox} {msg : ReceivedMessage}
    (hnew : inbox.isDuplicate P msg.messageId = false) :
    msg ∈ ((inbox.receive P msg).2.messages.lookup msg.senderId).getD [] := by
  have hnotMem : P.hash msg.messageId.toUTF8.data.toList ∉ inbox.seenOrder := by
    simpa [Inbox.isDuplicate] using hnew
  unfold Inbox.receive
  rw [dif_neg hnotMem, AList.lookup_insert]
  exact List.mem_append_right _ (List.mem_singleton_self msg)

theorem record_attributedTo (now : Nat) (core : IronCore) (envelope : Envelope)
    (message : Message) :
    AttributedTo P message.senderId core (record P now core envelope message) message where
  returned := rfl
  inbox hnew := by
    refine ⟨inboxRecord now envelope message, ?_, rfl, rfl⟩
    unfold record
    rw [hnew]
    exact Inbox.mem_receive P hnew
  history := ⟨historyRecord core message, AList.lookup_insert _, rfl⟩
  audit := ⟨_, rfl, rfl⟩
  delegate calls hcalls := by
    refine ⟨{ senderId := message.senderId, senderPublicKeyHex := message.senderId
              messageId := message.id, senderTimestamp := message.timestamp
              data := message.payload }, ?_, rfl⟩
    unfold record
    rw [hcalls]
    rfl

theorem decodeEnvelope_of_openEnvelope {core : IronCore} {data : Bytes} {envelope : Envelope}
    {message : Message} (h : openEnvelope P lz4 core data = .ok (envelope, message)) :
    decodeEnvelope lz4 data = .ok envelope := by
  unfold openEnvelope at h
  split at h
  next => cases h
  next decoded hdecode =>
    repeat' split at h
    all_goals cases h
    exact hdecode

/-- **When the two names agree.** For a decodable envelope: whatever `receive_message`
returns and records is under the identity of the envelope's key exactly when the
message inside names that identity itself, or names one that is blocked and
deleted (and is then not accepted). -/
theorem receiveMessage_attribution_iff (now : Nat) (core : IronCore) (data : Bytes)
    (envelope : Envelope) (hdecode : decodeEnvelope lz4 data = .ok envelope) :
    (∀ message after, receiveMessage P lz4 now core data = (.ok message, after) →
      AttributedTo P (P.publicKeyIdentityId envelope.senderPublicKey) core after message) ↔
    ∀ message, openEnvelope P lz4 core data = .ok (envelope, message) →
      isBlockedAndDeleted core.blockedManager message.senderId = true ∨
        message.senderId = P.publicKeyIdentityId envelope.senderPublicKey := by
  constructor
  · intro hall message hopen
    by_cases hblocked : isBlockedAndDeleted core.blockedManager message.senderId = true
    · exact .inl hblocked
    · have hreceive : receiveMessage P lz4 now core data
          = (.ok message, record P now core envelope message) := by
        unfold receiveMessage
        rw [hopen]
        exact if_neg hblocked
      exact .inr (hall _ _ hreceive).returned
  · intro hclaim message after hreceive
    unfold receiveMessage at hreceive
    split at hreceive
    next => cases hreceive
    next envelope' message' hopen =>
      -- the envelope that was opened is the one that was decoded
      have henvelope : envelope' = envelope := by
        have hdecode' := decodeEnvelope_of_openEnvelope P lz4 hopen
        rw [hdecode] at hdecode'
        exact (Except.ok.inj hdecode').symm
      subst henvelope
      split at hreceive
      next => cases hreceive
      next hblocked =>
        cases hreceive
        rcases hclaim _ hopen with hdeleted | hsender
        · exact absurd hdeleted hblocked
        · grind [record_attributedTo]

end Receive

/-! ## A small run -/

/-- The small primitives of the ratchet, with keys that are their own public keys
and a hash that keeps the first 32 bytes. -/
def demoIdentities : IdentityPrimitives where
  toPrimitives := { RatchetSession.demoPrimitives with hash := fun data => arrayAt 32 data 0 }
  verifyingKey key := key
  ed25519PublicToX25519 key := some key

def demoKey (b : UInt8) : Key := RatchetSession.keyOfByte b

/-- Bob's core, with nothing in it. -/
def demoCore : IronCore where
  signingKey := some (demoKey 2)
  blockedManager := ∅
  contactManager := ∅
  inbox := { seenOrder := [], nodup := List.nodup_nil, messages := ∅, total := 0 }
  historyManager := ∅
  auditLog := []
  delegate := some []

/-- A message that says it is from the holder of `claimed`. -/
def demoMessage (claimed : UInt8) : Message where
  id := "m"
  senderId := demoIdentities.identityId (demoKey claimed)
  recipientId := "bob"
  messageType := .text
  payload := [104, 105]
  timestamp := 1700000000

/-- The envelope Mallory (key 6) makes of such a message for Bob, with the ephemeral
key 5: the agreed key is 5 + 2, byte by byte. -/
def demoEnvelope (claimed : UInt8) : Envelope where
  senderPublicKey := (demoKey 6).toList
  ephemeralPublicKey := (demoKey 5).toList
  nonce := List.replicate 24 0
  ciphertext := (demoKey 7).toList ++ (demoMessage claimed).serialize
  ratchetDhPublic := none
  ratchetMessageNumber := none

def demoReceive (claimed : UInt8) : Except IronCoreError Message × IronCore :=
  receiveMessage demoIdentities DriftEnvelope.literalLz4 1 demoCore (demoEnvelope claimed).serialize

/-- Mallory encrypts, under Mallory's own key, a message that names Carol (key 8). Bob
returns and files it as Carol's, whose id is not the one of the envelope's key. -/
theorem mallory_recorded_as_carol :
    encryptMessage demoIdentities (demoKey 6) (demoKey 2) (demoKey 5) (.replicate 24 0)
        (demoMessage 8).serialize = .ok (demoEnvelope 8) ∧
      (demoReceive 8).1 = .ok (demoMessage 8) ∧
      (demoReceive 8).2.inbox.messages.keys = [demoIdentities.identityId (demoKey 8)] ∧
      demoIdentities.identityId (demoKey 8)
        ≠ demoIdentities.publicKeyIdentityId (demoEnvelope 8).senderPublicKey := by
  decide +kernel

/-- A message that names its own sender is recorded as that sender's. -/
theorem own_name_attributed :
    (demoReceive 6).1 = .ok (demoMessage 6) ∧
      AttributedTo demoIdentities
        (demoIdentities.publicKeyIdentityId (demoEnvelope 6).senderPublicKey) demoCore
        (demoReceive 6).2 (demoMessage 6) := by
  have hrun : (demoReceive 6).1 = .ok (demoMessage 6) ∧
      decodeEnvelope DriftEnvelope.literalLz4 (demoEnvelope 6).serialize = .ok (demoEnvelope 6) ∧
      openEnvelope demoIdentities DriftEnvelope.literalLz4 demoCore (demoEnvelope 6).serialize
        = .ok (demoEnvelope 6, demoMessage 6) ∧
      (demoMessage 6).senderId
        = demoIdentities.publicKeyIdentityId (demoEnvelope 6).senderPublicKey := by
    decide +kernel
  obtain ⟨hreturned, hdecode, hopen, hname⟩ := hrun
  have hpair (out : Except IronCoreError Message × IronCore) (message : Message)
      (h : out.1 = .ok message) : out = (.ok message, out.2) := Prod.ext h rfl
  refine ⟨hreturned, (receiveMessage_attribution_iff demoIdentities DriftEnvelope.literalLz4 1
    demoCore (demoEnvelope 6).serialize (demoEnvelope 6) hdecode).mpr (fun message hmessage => ?_)
    (demoMessage 6) (demoReceive 6).2 (hpair _ _ hreturned)⟩
  rw [hopen] at hmessage
  rw [← (Prod.mk.inj (Except.ok.inj hmessage)).2]
  exact .inr hname

end Scm.Core
