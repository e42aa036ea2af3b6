import Scm.Core.Receive
import Scm.Drift.Store
import Scm.Store.Outbox
import Scm.Store.RelayRegistry

/-!
# Preparing a message — `core/src/iron_core.rs`, `prepare_message_internal`

The other end of a delivery: write the message, encode it, encrypt it under a fresh
key, turn the envelope into a signed Drift envelope (`from_legacy_envelope`,
`drift/envelope.rs`) and serialise that. Then the routing engine is asked, and the
bytes go to the drift store when it says store-and-carry and to the outbox otherwise.

Each stage has a size limit of its own: 8 KiB for the payload, 256 KiB for the encoded
message, 65535 bytes for the ciphertext after compression and 256 KiB for the envelope
at the other end. `receiveMessage_prepareMessage` is the composition.

The random draws and the clock are inputs (`Draws`); a clock before 1970 is `none`.
The outcome of the routing engine, of the onion wrapping and the iteration order of the
drift store are inputs too (`Surroundings`): nothing here depends on them. The second
argument `_ttl` is not read by the source. The audit entry is kept apart from those of
`receive_message`.
-/

namespace Scm.Core

open Bytes Crypto Drift Messaging Store

/-- The crates a sender uses besides. -/
structure SenderPrimitives extends IdentityPrimitives where
  /-- `signing_key.sign(data).to_bytes()`. -/
  sign : Key → Bytes → Vector UInt8 64
  /-- `Uuid::to_string`. -/
  uuidText : MessageId → String
  /-- `Uuid::parse_str`. -/
  parseUuid : String → Option MessageId

/-- Documented behaviour: the text form of a UUID parses back. -/
structure SenderPrimitives.Correct (S : SenderPrimitives) : Prop where
  identity : S.toIdentityPrimitives.Correct
  parses : ∀ uuid, S.parseUuid (S.uuidText uuid) = some uuid

/-- How much the crates add: a UUID has at most 36 characters, a ciphertext is longer than its
plaintext by the tag (16 bytes; 64 are allowed for here), and LZ4 stays within
`get_maximum_output_size` and the prepended length. -/
structure SenderPrimitives.Sizes (S : SenderPrimitives) (lz4 : Lz4) : Prop where
  uuid : ∀ uuid, (S.uuidText uuid).utf8ByteSize ≤ 36
  aead : ∀ {key nonce aad plaintext ciphertext},
    S.aeadEncrypt key nonce aad plaintext = some ciphertext →
      ciphertext.length ≤ plaintext.length + 64
  compress : ∀ x, (lz4.compress x).length ≤ 24 + x.length * 110 / 100

/-! ## The Drift envelope of a message -/

end Scm.Core

namespace Scm.Drift.DriftEnvelope

open Bytes Crypto Messaging Scm.Core

/-- `hint_from_public_key`. -/
def hintFromPublicKey (S : SenderPrimitives) (publicKey : Key) : Vector UInt8 4 :=
  arrayAt 4 (S.hash publicKey.toList).toList 0

/-- What `sign` feeds to the hasher: every field but the signature, with the ciphertext
as it is before compression. -/
def signedBytes (e : DriftEnvelope) : Bytes :=
  [e.version, e.typeByte] ++ e.messageId.toList ++ e.recipientHint.toList ++
    leBytes 4 e.createdAt.toNat ++ leBytes 4 e.ttlExpiry.toNat ++ [e.hopCount, e.priority] ++
    e.senderPublicKey.toList ++ e.ephemeralPublicKey.toList ++ e.nonce.toList ++
    leBytes 2 e.ciphertext.length ++ e.ciphertext ++ e.ratchetSection

/-- `DriftEnvelope::sign`. -/
def sign (S : SenderPrimitives) (e : DriftEnvelope) (signingKey : Key) : Vector UInt8 64 :=
  S.sign signingKey (S.hash e.signedBytes).toList

/-- The envelope `from_legacy_envelope` signs. -/
def unsigned (S : SenderPrimitives) (legacy : Envelope) (messageId : MessageId)
    (recipientPublicKey : Key) (createdAt : UInt32) (ratchetDhPublic : Option Key) :
    DriftEnvelope where
  version := driftVersion
  envelopeType := .encryptedMessage
  compressed := legacy.ciphertext.length > compressionThreshold
  messageId := messageId
  recipientHint := hintFromPublicKey S recipientPublicKey
  createdAt := createdAt
  ttlExpiry := createdAt + 604800
  hopCount := 0
  priority := 128
  senderPublicKey := arrayAt 32 legacy.senderPublicKey 0
  ephemeralPublicKey := arrayAt 32 legacy.ephemeralPublicKey 0
  nonce := arrayAt 24 legacy.nonce 0
  signature := .replicate 64 0
  ciphertext := legacy.ciphertext
  ratchetDhPublic := ratchetDhPublic
  ratchetMessageNumber := legacy.ratchetMessageNumber

/-- `DriftEnvelope::from_legacy_envelope`; `now` in milliseconds. The texts of the
UUID and clock errors end in the crates' own messages, which are left out. -/
def fromLegacyEnvelope (S : SenderPrimitives) (now : Option Nat) (legacy : Envelope)
    (messageId : String) (recipientPublicKey signingKey : Key) :
    Except DriftError DriftEnvelope :=
  match S.parseUuid messageId with
  | none => .error (.ioError "Invalid message ID: ")
  | some uuid =>
    match now with
    | none => .error (.ioError "Time error: ")
    | some now =>
      if legacy.senderPublicKey.length ≠ 32 then
        .error (.ioError "Invalid sender public key length")
      else if legacy.ephemeralPublicKey.length ≠ 32 then
        .error (.ioError "Invalid ephemeral public key length")
      else if legacy.nonce.length ≠ 24 then .error (.ioError "Invalid nonce length")
      else if legacy.ratchetDhPublic.any fun key => key.length ≠ 32 then
        .error (.ioError "Invalid ratchet_dh_public length")
      else
        let e := unsigned S legacy uuid recipientPublicKey (UInt32.ofNat (now / 1000))
          (legacy.ratchetDhPublic.map fun key => arrayAt 32 key 0)
        .ok { e with signature := e.sign S signingKey }

/-- The conversion of an envelope whose fields have the right lengths, and back. -/
theorem fromLegacyEnvelope_spec {S : SenderPrimitives} {messageId : String} {uuid : MessageId}
    (huuid : S.parseUuid messageId = some uuid) (now : Nat) (recipientPublicKey signingKey : Key)
    (sender ephemeral : Key) (nonce : Vector UInt8 24) (ciphertext : Bytes) :
    let legacy : Envelope :=
      { senderPublicKey := sender.toList, ephemeralPublicKey := ephemeral.toList
        nonce := nonce.toList, ciphertext, ratchetDhPublic := none, ratchetMessageNumber := none }
    ∃ e, fromLegacyEnvelope S (some now) legacy messageId recipientPublicKey signingKey = .ok e ∧
      e.toLegacyEnvelope = legacy ∧ e.version = driftVersion ∧
      e.ratchetDhPublic.isSome = e.ratchetMessageNumber.isSome ∧ e.ciphertext = ciphertext ∧
      e.messageId = uuid := by
  intro legacy
  refine ⟨{ unsigned S legacy uuid recipientPublicKey (UInt32.ofNat (now / 1000)) none with
    signature := (unsigned S legacy uuid recipientPublicKey (UInt32.ofNat (now / 1000)) none).sign S
      signingKey }, ?_, ?_, rfl, rfl, rfl, rfl⟩
  · unfold fromLegacyEnvelope
    rw [huuid]
    dsimp only
    rw [if_neg (by simp [legacy]), if_neg (by simp [legacy]), if_neg (by simp [legacy])]
    rfl
  · unfold toLegacyEnvelope unsigned
    dsimp only [legacy]
    simp only [arrayAt_toList]
    rfl

theorem ok_of_fromLegacyEnvelope {S : SenderPrimitives} {now : Option Nat} {legacy : Envelope}
    {messageId : String} {recipientPublicKey signingKey : Key} {e : DriftEnvelope}
    (h : fromLegacyEnvelope S now legacy messageId recipientPublicKey signingKey = .ok e) :
    ∃ ms, now = some ms := by
  unfold fromLegacyEnvelope at h
  split at h
  next => cases h
  next => grind

end Scm.Drift.DriftEnvelope

namespace Scm.Crypto

open Messaging

theorem encryptMessage_eq_ok {P : IdentityPrimitives} {senderSigningKey recipientPublicKey : Key}
    {ephemeralSecret : Key} {nonce : Vector UInt8 24} {plaintext : Bytes} {e : Envelope}
    (h : encryptMessage P senderSigningKey recipientPublicKey ephemeralSecret nonce plaintext
      = .ok e) :
    ∃ key ciphertext, P.aeadEncrypt key nonce.toList (P.verifyingKey senderSigningKey).toList
        plaintext = some ciphertext ∧
      e = { senderPublicKey := (P.verifyingKey senderSigningKey).toList
            ephemeralPublicKey := (P.publicKey ephemeralSecret).toList
            nonce := nonce.toList, ciphertext
            ratchetDhPublic := none, ratchetMessageNumber := none } := by
  unfold encryptMessage at h
  split at h
  next => cases h
  next => grind

end Scm.Crypto

namespace Scm.Core

open Bytes Crypto Drift Messaging Store

/-! ## The function -/

/-- `NextHop` (`routing/engine.rs`), with the peers' ids. -/
inductive NextHop where
  | direct (peerId : Key)
  | gateway (gatewayId : Key) (hopsRemaining : UInt8)
  | globalRoute (nextHopId : Key) (totalHops : UInt8)
  | storeAndCarry
  | routeDiscovery (hint : Vector UInt8 4)
  deriving DecidableEq, Repr

/-- The random draws and the clock readings of one call, in the order of the source. -/
structure Draws where
  uuid : MessageId
  writtenAt : Option Nat
  ephemeralSecret : Key
  nonce : Vector UInt8 24
  sealedAt : Option Nat
  routedAt : Option Nat
  queuedAt : Option Nat

/-- `duration_since(UNIX_EPOCH).unwrap_or_default().as_secs()`. -/
def seconds (now : Option Nat) : Nat := now.getD 0 / 1000

/-- What the rest of the core answers during a call: the routing engine, the onion
wrapping (`None` when there is no relay or it fails), and the drift store's map, whose
iteration order and scores decide an eviction. -/
structure Surroundings where
  makeRoutingDecision : Vector UInt8 4 → MessageId → UInt8 → Nat → Option NextHop
  prepareOnionMessage : Bytes → Option Bytes
  order : MeshStore → MeshStore
  cmp : Comparison

/-- A `MessageSent` entry of the audit log. -/
structure MessageSentEvent where
  identityId : Option String
  peerId : Option String
  details : Option String
  deriving DecidableEq, Repr

/-- `IronCore`, with what `prepare_message` and `mark_message_sent` use. -/
structure SendingCore extends IronCore where
  outbox : Outbox
  driftStore : MeshStore
  onionRoutingEnabled : Bool
  messageSentEvents : List MessageSentEvent

structure PreparedMessage where
  messageId : String
  envelopeData : Bytes
  deriving DecidableEq, Repr

section Prepare

variable (S : SenderPrimitives) (lz4 : Lz4)

/-- The message `prepare_message_internal` writes. -/
def writtenMessage (draws : Draws) (signingKey : Key) (recipientId text : String)
    (messageType : MessageType) : Message where
  id := S.uuidText draws.uuid
  senderId := S.identityId signingKey
  recipientId := recipientId
  messageType := messageType
  payload := text.toUTF8.data.toList
  timestamp := UInt64.ofNat (seconds draws.writtenAt)

/-- `hex::decode` and the conversion to `[u8; 32]`. -/
def parseRecipient (recipientId : String) : Option Key :=
  match hexDecode recipientId.toList with
  | none => none
  | some bytes => if bytes.length = 32 then some (arrayAt 32 bytes 0) else none

/-- The first half: write, encode, encrypt, convert and serialise. -/
def sealMessage (draws : Draws) (signingKey : Key) (recipientId text : String)
    (messageType : MessageType) : Except IronCoreError (DriftEnvelope × Bytes) :=
  match parseRecipient recipientId with
  | none => .error .invalidInput
  | some recipientPk =>
    match encodeMessage (writtenMessage S draws signingKey recipientId text messageType) with
    | .error _ => .error .internal
    | .ok messageBytes =>
      match encryptMessage S.toIdentityPrimitives signingKey recipientPk draws.ephemeralSecret
        draws.nonce messageBytes with
      | .error _ => .error .cryptoError
      | .ok envelope =>
        match DriftEnvelope.fromLegacyEnvelope S draws.sealedAt envelope (S.uuidText draws.uuid)
          recipientPk signingKey with
        | .error _ => .error .internal
        | .ok driftEnv =>
          match driftEnv.toBytes lz4 with
          | .error _ => .error .internal
          | .ok envelopeData => .ok (driftEnv, envelopeData)

/-- The onion layer, when it is switched on and can be had. -/
def wrapOnion (surroundings : Surroundings) (core : SendingCore) (envelopeData : Bytes) :
    Bytes :=
  if core.onionRoutingEnabled then
    (surroundings.prepareOnionMessage envelopeData).getD envelopeData
  else envelopeData

/-- Whether the routing engine says store-and-carry. The hint is that of the
recipient's id as text. -/
def handoffToDrift (surroundings : Surroundings) (draws : Draws) (recipientId : String) : Bool :=
  let hint := arrayAt 4 (S.hash recipientId.toUTF8.data.toList).toList 0
  let msgIdBytes := (S.parseUuid (S.uuidText draws.uuid)).getD (.replicate 16 0)
  surroundings.makeRoutingDecision hint msgIdBytes 128 (seconds draws.routedAt)
    = some .storeAndCarry

/-- What goes to the drift store. -/
def storedEnvelope (draws : Draws) (driftEnv : DriftEnvelope) (envelopeData : Bytes) :
    StoredEnvelope where
  envelopeData := envelopeData
  messageId := driftEnv.messageId
  recipientHint := driftEnv.recipientHint
  createdAt := driftEnv.createdAt
  ttlExpiry := driftEnv.ttlExpiry
  hopCount := driftEnv.hopCount
  priority := driftEnv.priority
  receivedAt := UInt64.ofNat (seconds draws.queuedAt)

/-- What goes to the outbox. -/
def queuedMessage (draws : Draws) (recipientId : String) (envelopeData : Bytes) :
    QueuedMessage where
  messageId := S.uuidText draws.uuid
  recipientId := recipientId
  envelopeData := envelopeData
  queuedAt := draws.queuedAt.getD 0 % 2 ^ 64
  attempts := 0

/-- The second half: hand the bytes over and note it. The result of the enqueue is not
looked at. -/
def handOver (surroundings : Surroundings) (draws : Draws) (core : SendingCore)
    (recipientId : String) (driftEnv : DriftEnvelope) (envelopeData : Bytes) : SendingCore :=
  let core :=
    if handoffToDrift S surroundings draws recipientId then
      { core with driftStore := (core.driftStore.insertIn surroundings.order surroundings.cmp
          (storedEnvelope draws driftEnv envelopeData)).2 }
    else
      { core with outbox :=
          (core.outbox.enqueue (queuedMessage S draws recipientId envelopeData)).2 }
  { core with messageSentEvents := core.messageSentEvents ++
      [{ identityId := core.signingKey.map S.identityId, peerId := some recipientId
         details := none }] }

/-- `prepare_message`. -/
def prepareMessage (surroundings : Surroundings) (draws : Draws) (core : SendingCore)
    (recipientId text : String) (messageType : MessageType) :
    Except IronCoreError PreparedMessage × SendingCore :=
  match core.signingKey with
  | none => (.error .notInitialized, core)
  | some signingKey =>
    match sealMessage S lz4 draws signingKey recipientId text messageType with
    | .error e => (.error e, core)
    | .ok (driftEnv, bytes) =>
      let envelopeData := wrapOnion surroundings core bytes
      (.ok { messageId := S.uuidText draws.uuid, envelopeData },
        handOver S surroundings draws core recipientId driftEnv envelopeData)

/-- `mark_message_sent`. -/
def markMessageSent (core : SendingCore) (messageId : String) : Bool × SendingCore :=
  let (outboxRemoved, outbox) := core.outbox.remove messageId
  match S.parseUuid messageId with
  | some uuid =>
    let (driftRemoved, driftStore) := core.driftStore.remove uuid
    (outboxRemoved || driftRemoved, { core with outbox, driftStore })
  | none => (outboxRemoved, { core with outbox })

/-! ## From one core to the other -/

variable {S lz4}

variable {draws : Draws} {e : DriftEnvelope} {recipientId text : String}

theorem sealMessage_eq_ok {signingKey : Key} {messageType : MessageType} {data : Bytes}
    (h : sealMessage S lz4 draws signingKey recipientId text messageType = .ok (e, data)) :
    ∃ recipientPk plaintext envelope, parseRecipient recipientId = some recipientPk ∧
      encodeMessage (writtenMessage S draws signingKey recipientId text messageType)
        = .ok plaintext ∧
      encryptMessage S.toIdentityPrimitives signingKey recipientPk draws.ephemeralSecret draws.nonce
        plaintext = .ok envelope ∧
      DriftEnvelope.fromLegacyEnvelope S draws.sealedAt envelope (S.uuidText draws.uuid) recipientPk
        signingKey = .ok e ∧
      e.toBytes lz4 = .ok data := by
  unfold sealMessage at h
  split at h
  next => cases h
  next recipientPk hrecipient => grind

theorem toLegacyEnvelope_of_convert (hS : S.Correct) {signingKey recipientPk : Key}
    {plaintext : Bytes} {envelope : Envelope}
    (hencrypt : encryptMessage S.toIdentityPrimitives signingKey recipientPk draws.ephemeralSecret
      draws.nonce plaintext = .ok envelope)
    (hconvert : DriftEnvelope.fromLegacyEnvelope S draws.sealedAt envelope (S.uuidText draws.uuid)
      recipientPk signingKey = .ok e) :
    e.toLegacyEnvelope = envelope ∧ e.version = driftVersion ∧
      e.ratchetDhPublic.isSome = e.ratchetMessageNumber.isSome ∧ e.messageId = draws.uuid := by
  obtain ⟨ms, hms⟩ := DriftEnvelope.ok_of_fromLegacyEnvelope hconvert
  obtain ⟨key, ciphertext, _, rfl⟩ := encryptMessage_eq_ok hencrypt
  obtain ⟨e', he', hlegacy, hversion, hboth, _, hid⟩ := DriftEnvelope.fromLegacyEnvelope_spec
    (hS.parses draws.uuid) ms recipientPk signingKey (S.verifyingKey signingKey)
    (S.publicKey draws.ephemeralSecret) draws.nonce ciphertext
  rw [hms, he'] at hconvert
  cases hconvert
  exact ⟨hlegacy, hversion, hboth, hid⟩

/-- What was sealed for a core opens there to the message that was written. -/
theorem openEnvelope_sealMessage (hS : S.Correct) (hlz : lz4.Inverts) {senderKey recipientKey : Key}
    {messageType : MessageType} {data : Bytes}
    (hrecipientId : parseRecipient recipientId = some (S.verifyingKey recipientKey))
    (h : sealMessage S lz4 draws senderKey recipientId text messageType = .ok (e, data))
    {recipient : IronCore} (hkey : recipient.signingKey = some recipientKey) :
    openEnvelope S.toIdentityPrimitives lz4 recipient data
      = .ok (e.toLegacyEnvelope,
        writtenMessage S draws senderKey recipientId text messageType) := by
  obtain ⟨recipientPk, plaintext, envelope, hparse, hencode, hencrypt, hconvert, hbytes⟩ :=
    sealMessage_eq_ok h
  cases hrecipientId.symm.trans hparse
  obtain ⟨hlegacy, hversion, hboth, _⟩ := toLegacyEnvelope_of_convert hS hencrypt hconvert
  obtain ⟨envelope', hencrypt', _, hdecrypt⟩ := decryptMessage_encryptMessage hS.identity senderKey
    recipientKey draws.ephemeralSecret draws.nonce plaintext
  cases hencrypt'.symm.trans hencrypt
  unfold openEnvelope
  rw [decodeEnvelope_toBytes hlz hversion hboth hbytes, hkey, hlegacy]
  dsimp only
  rw [hdecrypt]
  dsimp only
  rw [decodeMessage_encodeMessage hencode]

/-! ## The limits -/

theorem utf8ByteSize_of_parseRecipient {key : Key} (h : parseRecipient recipientId = some key) :
    recipientId.utf8ByteSize = 64 := by
  unfold parseRecipient at h
  split at h
  next => cases h
  next bytes hbytes => grind [utf8ByteSize_of_hexDecode, String.ofList_toList]

theorem utf8ByteSize_toHex (data : Bytes) : (toHex data).utf8ByteSize = 2 * data.length := by
  have hsize := utf8ByteSize_of_hexDecode (hexDecode_toHex data)
  rw [String.ofList_toList] at hsize
  exact hsize

/-- A message with a payload within its limit is far within the limit on messages. -/
theorem encodeMessage_writtenMessage (hsize : S.Sizes lz4) (draws : Draws) (signingKey : Key)
    (messageType : MessageType) (hrecipient : recipientId.utf8ByteSize = 64)
    (htext : text.utf8ByteSize ≤ maxPayloadSize) :
    ∃ plaintext, encodeMessage (writtenMessage S draws signingKey recipientId text messageType)
        = .ok plaintext ∧ plaintext.length ≤ maxPayloadSize + 208 := by
  have hid := hsize.uuid draws.uuid
  have hsender : (S.identityId signingKey).utf8ByteSize = 64 := by
    rw [IdentityPrimitives.identityId, IdentityPrimitives.publicKeyIdentityId, utf8ByteSize_toHex,
      Vector.length_toList]
  have hlength : (writtenMessage S draws signingKey recipientId text messageType).serialize.length
      ≤ text.utf8ByteSize + 208 := by
    simp only [Message.serialize, writtenMessage, Bincode.putString, Bincode.putBytes,
      List.length_append, leBytes_length]
    show 8 + (S.uuidText draws.uuid).utf8ByteSize + (8 + (S.identityId signingKey).utf8ByteSize
      + (8 + recipientId.utf8ByteSize + (4 + (8 + text.utf8ByteSize + 8)))) ≤ _
    omega
  have hpayload : validatePayloadSize text.toUTF8.data.toList = .ok () :=
    if_neg (Nat.not_lt_of_le htext)
  have hlimit : maxMessageSize = 262144 := rfl
  have hpayloadLimit : maxPayloadSize = 8192 := rfl
  refine ⟨(writtenMessage S draws signingKey recipientId text messageType).serialize, ?_, by omega⟩
  rw [encodeMessage, show validatePayloadSize (writtenMessage ..).payload = _ from hpayload]
  rw [if_neg (by omega)]

/-- Whatever the threshold, the ciphertext of such a message fits the envelope. -/
theorem toBytes_of_length_le (hsize : S.Sizes lz4) (h : e.ciphertext.length ≤ maxPayloadSize + 272)
    : ∃ data, e.toBytes lz4 = .ok data := by
  have hpayloadLimit : maxPayloadSize = 8192 := rfl
  have hcompress := hsize.compress e.ciphertext
  refine ⟨_, DriftEnvelope.toBytes_eq_ok_iff.mpr ⟨?_, rfl⟩⟩
  unfold DriftEnvelope.wireCiphertext DriftEnvelope.maxCiphertext
  split <;> omega

theorem sealMessage_of_text_le (hS : S.Correct) (hsize : S.Sizes lz4) {now : Nat}
    (hnow : draws.sealedAt = some now) (senderKey : Key) {recipientKey : Key}
    (messageType : MessageType)
    (hrecipientId : parseRecipient recipientId = some (S.verifyingKey recipientKey))
    (htext : text.utf8ByteSize ≤ maxPayloadSize) :
    ∃ out, sealMessage S lz4 draws senderKey recipientId text messageType = .ok out := by
  obtain ⟨plaintext, hencode, hlength⟩ := encodeMessage_writtenMessage hsize draws senderKey
    messageType (utf8ByteSize_of_parseRecipient hrecipientId) htext
  obtain ⟨envelope, hencrypt, _, _⟩ := decryptMessage_encryptMessage hS.identity senderKey
    recipientKey draws.ephemeralSecret draws.nonce plaintext
  obtain ⟨key, ciphertext, hseal, rfl⟩ := encryptMessage_eq_ok hencrypt
  obtain ⟨e, hconvert, _, _, _, hciphertext, _⟩ := DriftEnvelope.fromLegacyEnvelope_spec
    (hS.parses draws.uuid) now (S.verifyingKey recipientKey) senderKey (S.verifyingKey senderKey)
    (S.publicKey draws.ephemeralSecret) draws.nonce ciphertext
  have hfits : e.ciphertext.length ≤ maxPayloadSize + 272 := by
    have htag := hsize.aead hseal
    rw [hciphertext]
    omega
  obtain ⟨data, hdata⟩ := toBytes_of_length_le hsize hfits
  refine ⟨(e, data), ?_⟩
  unfold sealMessage
  rw [hrecipientId]
  rw [hencode]
  dsimp only
  rw [hencrypt]
  dsimp only
  rw [hnow, hconvert]
  dsimp only
  rw [hdata]

/-- **From one core to the other.** Without onion routing, and unless the recipient
has blocked and deleted the sender, whatever `prepare_message` returns for the
recipient's key is opened there to the message that was written: the same id, sender,
payload, type and timestamp. And for a text within the payload limit it does return
something. -/
theorem receiveMessage_prepareMessage (hS : S.Correct) (hlz : lz4.Inverts)
    (surroundings : Surroundings) (draws : Draws) {sender : SendingCore} {recipient : IronCore}
    {senderKey recipientKey : Key} (hsender : sender.signingKey = some senderKey)
    (hrecipient : recipient.signingKey = some recipientKey)
    (honion : sender.onionRoutingEnabled = false)
    (hblocked : isBlockedAndDeleted recipient.blockedManager (S.identityId senderKey) = false)
    {recipientId : String}
    (hrecipientId : parseRecipient recipientId = some (S.verifyingKey recipientKey)) (text : String)
    (messageType : MessageType) (receivedAt : Nat) :
    let out := (prepareMessage S lz4 surroundings draws sender recipientId text messageType).1
    (S.Sizes lz4 → draws.sealedAt ≠ none → text.utf8ByteSize ≤ maxPayloadSize →
      ∃ prepared, out = .ok prepared) ∧
    ∀ prepared, out = .ok prepared →
      (receiveMessage S.toIdentityPrimitives lz4 receivedAt recipient prepared.envelopeData).1
        = .ok { id := prepared.messageId, senderId := S.identityId senderKey, recipientId
                messageType, payload := text.toUTF8.data.toList
                timestamp := UInt64.ofNat (seconds draws.writtenAt) } := by
  intro out
  constructor
  · intro hsize hclock htext
    obtain ⟨now, hnow⟩ := Option.ne_none_iff_exists'.mp hclock
    obtain ⟨sealed, hseal⟩ := sealMessage_of_text_le hS hsize hnow senderKey messageType
      hrecipientId htext
    refine ⟨{ messageId := S.uuidText draws.uuid
              envelopeData := wrapOnion surroundings sender sealed.2 }, ?_⟩
    show (prepareMessage S lz4 surroundings draws sender recipientId text messageType).1 = _
    unfold prepareMessage
    rw [hsender]
    dsimp only
    rw [hseal]
  · intro prepared hout
    have hprepare : (prepareMessage S lz4 surroundings draws sender recipientId text messageType).1
        = .ok prepared := hout
    unfold prepareMessage at hprepare
    rw [hsender] at hprepare
    dsimp only at hprepare
    split at hprepare
    next => cases hprepare
    next driftEnv bytes hseal =>
      cases hprepare
      have hbytes : wrapOnion surroundings sender bytes = bytes := by
        rw [wrapOnion, honion]
        rfl
      have hopen := openEnvelope_sealMessage hS hlz hrecipientId hseal hrecipient
      unfold receiveMessage
      rw [hbytes, hopen]
      dsimp only
      rw [if_neg (by rw [writtenMessage, hblocked]; exact Bool.false_ne_true)]
      rfl

end Prepare

/-! ## A small run -/

/-- The small primitives of the recipient, a constant signature, and the plain hex form
of a UUID. -/
def demoSenderPrimitives : SenderPrimitives where
  toIdentityPrimitives := demoIdentities
  sign _ _ := .replicate 64 0
  uuidText uuid := toHex uuid.toList
  parseUuid text := (hexDecode text.toList).map fun bytes => arrayAt 16 bytes 0

theorem demoIdentities_correct : demoIdentities.Correct where
  toCorrect :=
    { agree := fun s t => demoPrimitives_correct.agree s t
      opens := fun key nonce aad plaintext => demoPrimitives_correct.opens key nonce aad plaintext }
  converts _ := rfl

theorem demoSenderPrimitives_correct : demoSenderPrimitives.Correct := by
  refine ⟨demoIdentities_correct, fun uuid => ?_⟩
  show (hexDecode (toHex uuid.toList).toList).map (fun bytes => arrayAt 16 bytes 0) = some uuid
  rw [hexDecode_toHex, Option.map_some, arrayAt_toList]

/-- Routes directly, without onion layers, in the order of the list. -/
def demoSurroundings : Surroundings where
  makeRoutingDecision _ _ _ _ := none
  prepareOnionMessage _ := none
  order s := s
  cmp _ _ := .eq

def demoDraws : Draws where
  uuid := .replicate 16 9
  writtenAt := some 1700000000000
  ephemeralSecret := demoKey 5
  nonce := .replicate 24 0
  sealedAt := some 1700000000000
  routedAt := some 1700000000000
  queuedAt := some 1700000000000

/-- Alice's core (key 6), with nothing in it. -/
def demoSendingCore : SendingCore where
  toIronCore := { demoCore with signingKey := some (demoKey 6) }
  outbox := Outbox.new
  driftStore := MeshStore.new
  onionRoutingEnabled := false
  messageSentEvents := []

def demoRecipientId : String := toHex (demoKey 2).toList

theorem demoSenderPrimitives_sizes : demoSenderPrimitives.Sizes DriftEnvelope.literalLz4 where
  uuid uuid := by
    show (toHex uuid.toList).utf8ByteSize ≤ 36
    rw [utf8ByteSize_toHex, Vector.length_toList]
    omega
  aead {key nonce aad plaintext ciphertext} h := by
    cases h
    show (key.toList ++ plaintext).length ≤ _
    rw [List.length_append, Vector.length_toList]
    omega
  compress x := by
    show (leBytes 4 x.length ++ UInt8.ofNat (16 * x.length) :: x).length ≤ _
    rw [List.length_append, leBytes_length, List.length_cons]
    omega

theorem parseRecipient_demo :
    parseRecipient demoRecipientId = some (demoSenderPrimitives.verifyingKey (demoKey 2)) := by
  rw [parseRecipient, demoRecipientId, hexDecode_toHex]
  show (if (demoKey 2).toList.length = 32 then some (arrayAt 32 (demoKey 2).toList 0) else none) = _
  rw [if_pos (Vector.length_toList ..), arrayAt_toList]
  rfl

/-- Alice writes "hi" to Bob. -/
theorem receiveMessage_prepareMessage_hi :
    ∃ prepared, (prepareMessage demoSenderPrimitives DriftEnvelope.literalLz4 demoSurroundings
      demoDraws
        demoSendingCore demoRecipientId "hi" .text).1 = .ok prepared ∧
      (receiveMessage demoIdentities DriftEnvelope.literalLz4 1 demoCore prepared.envelopeData).1
        = .ok { id := prepared.messageId, senderId := demoIdentities.identityId (demoKey 6)
                recipientId := demoRecipientId, messageType := .text, payload := [104, 105]
                timestamp := 1700000000 } := by
  have hsender : demoSendingCore.signingKey = some (demoKey 6) := rfl
  have hrecipient : demoCore.signingKey = some (demoKey 2) := rfl
  obtain ⟨hsome, hround⟩ := receiveMessage_prepareMessage demoSenderPrimitives_correct
    DriftEnvelope.literalLz4_inverts demoSurroundings demoDraws hsender hrecipient rfl rfl
    parseRecipient_demo "hi" .text 1
  obtain ⟨prepared, hprepared⟩ := hsome demoSenderPrimitives_sizes nofun (by decide)
  exact ⟨prepared, hprepared, hround prepared hprepared⟩

end Scm.Core
