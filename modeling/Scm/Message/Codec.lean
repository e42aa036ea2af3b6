import Scm.Bincode
import Scm.Drift.Envelope

/-!
# Messages and envelopes — `core/src/message/types.rs`, `core/src/message/codec.rs`

A `Message` is what the application writes, an `Envelope` what travels. Both are
bincode; an envelope may also come in the Drift format, which is tried first when
the first byte is the Drift version.

`decodeMessage_encodeMessage` and `decodeEnvelope_serialize` are the round trips.
The second one needs the sender key to be 32 bytes: the bincode form then starts
with 32, which is not the Drift version, so the Drift decoder is not consulted.
`encode_envelope` writes the Drift format where it can and bincode where it cannot.
-/

namespace Scm.Messaging

open Bytes Bincode Drift

/-- `MAX_MESSAGE_SIZE`. -/
def maxMessageSize : Nat := 256 * 1024

/-- `MAX_PAYLOAD_SIZE`. -/
def maxPayloadSize : Nat := 8 * 1024

inductive MessageType where
  | text
  | receipt
  | onionRelay
  deriving DecidableEq, Repr

structure Message where
  id : String
  senderId : String
  recipientId : String
  messageType : MessageType
  payload : Bytes
  timestamp : UInt64
  deriving DecidableEq, Repr

structure Envelope where
  senderPublicKey : Bytes
  ephemeralPublicKey : Bytes
  nonce : Bytes
  ciphertext : Bytes
  ratchetDhPublic : Option Bytes
  ratchetMessageNumber : Option UInt32
  deriving DecidableEq, Repr

/-- The variant index of a message type. -/
def MessageType.index : MessageType → Nat
  | .text => 0
  | .receipt => 1
  | .onionRelay => 2

def MessageType.read : Reader MessageType := do
  let index ← uint 4
  match index with
  | 0 => return .text
  | 1 => return .receipt
  | 2 => return .onionRelay
  | _ => failure

/-! ## Messages -/

namespace Message

def serialize (m : Message) : Bytes :=
  putString m.id ++ (putString m.senderId ++ (putString m.recipientId ++
    (leBytes 4 m.messageType.index ++ (putBytes m.payload ++ leBytes 8 m.timestamp.toNat))))

def read : Reader Message := do
  let id ← string
  let senderId ← string
  let recipientId ← string
  let messageType ← MessageType.read
  let payload ← bytes
  let timestamp ← u64
  return { id, senderId, recipientId, messageType, payload, timestamp }

end Message

/-- `validate_payload_size`. -/
def validatePayloadSize (payload : Bytes) : Except String Unit :=
  if payload.length > maxPayloadSize then
    .error ("Payload too large: " ++ toString payload.length ++ " bytes (max " ++
      toString maxPayloadSize ++ ")")
  else .ok ()

/-- `encode_message`. -/
def encodeMessage (m : Message) : Except String Bytes :=
  match validatePayloadSize m.payload with
  | .error e => .error e
  | .ok () =>
    if m.serialize.length > maxMessageSize then
      .error ("Encoded message too large: " ++ toString m.serialize.length ++ " bytes (max " ++
        toString maxMessageSize ++ ")")
    else .ok m.serialize

/-- `decode_message`. -/
def decodeMessage (data : Bytes) : Except String Message :=
  if data.length > maxMessageSize then
    .error ("Message too large: " ++ toString data.length ++ " bytes (max " ++
      toString maxMessageSize ++ ")")
  else
    match deserialize Message.read data with
    | some m => .ok m
    | none => .error "bincode"

theorem MessageType.read_append (t : MessageType) (rest : Bytes) :
    MessageType.read (leBytes 4 t.index ++ rest) = some (t, rest) := by
  have hindex : t.index < 256 ^ 4 := by cases t <;> decide
  rw [MessageType.read, bind_eq _ (uint_append hindex rest)]
  cases t <;> rfl

/-- Every field of a message fits its length prefix when the message is at most
as long as the size limit. -/
theorem Message.deserialize_serialize {m : Message} (h : m.serialize.length ≤ maxMessageSize) :
    deserialize Message.read m.serialize = some m := by
  have hmax : maxMessageSize = 262144 := rfl
  simp only [Message.serialize, putString, putBytes, List.length_append, leBytes_length] at h
  have hid : m.id.utf8ByteSize < 2 ^ 64 := by
    show m.id.toUTF8.data.toList.length < 2 ^ 64
    omega
  have hsender : m.senderId.utf8ByteSize < 2 ^ 64 := by
    show m.senderId.toUTF8.data.toList.length < 2 ^ 64
    omega
  have hrecipient : m.recipientId.utf8ByteSize < 2 ^ 64 := by
    show m.recipientId.toUTF8.data.toList.length < 2 ^ 64
    omega
  have hpayload : m.payload.length < 2 ^ 64 := by omega
  have htime := u64_append m.timestamp []
  rw [List.append_nil] at htime
  -- one rewrite for each field, in order
  have hread : Message.read m.serialize = some (m, []) := by
    rw [Message.read, Message.serialize, bind_eq _ (string_append hid _),
      bind_eq _ (string_append hsender _), bind_eq _ (string_append hrecipient _),
      bind_eq _ (MessageType.read_append _ _), bind_eq _ (bytes_append hpayload _), bind_eq _ htime]
    rfl
  rw [deserialize, hread]
  rfl

theorem decodeMessage_encodeMessage {m : Message} {data : Bytes}
    (h : encodeMessage m = .ok data) : decodeMessage data = .ok m := by
  unfold encodeMessage at h
  split at h
  next => cases h
  next => grind [decodeMessage, Message.deserialize_serialize]

/-! ## Envelopes -/

namespace Envelope

def serialize (e : Envelope) : Bytes :=
  putBytes e.senderPublicKey ++ (putBytes e.ephemeralPublicKey ++ (putBytes e.nonce ++
    (putBytes e.ciphertext ++ (putOption putBytes e.ratchetDhPublic ++
      putOption (fun n => leBytes 4 n.toNat) e.ratchetMessageNumber))))

def read : Reader Envelope := do
  let senderPublicKey ← bytes
  let ephemeralPublicKey ← bytes
  let nonce ← bytes
  let ciphertext ← bytes
  let ratchetDhPublic ← option bytes
  let ratchetMessageNumber ← option u32
  return { senderPublicKey, ephemeralPublicKey, nonce, ciphertext, ratchetDhPublic
           ratchetMessageNumber }

end Envelope

end Scm.Messaging

/-- `DriftEnvelope::to_legacy_envelope`. -/
def Scm.Drift.DriftEnvelope.toLegacyEnvelope (e : Scm.Drift.DriftEnvelope) :
    Scm.Messaging.Envelope where
  senderPublicKey := e.senderPublicKey.toList
  ephemeralPublicKey := e.ephemeralPublicKey.toList
  nonce := e.nonce.toList
  ciphertext := e.ciphertext
  ratchetDhPublic := e.ratchetDhPublic.map Vector.toList
  ratchetMessageNumber := e.ratchetMessageNumber

namespace Scm.Messaging

open Bytes Bincode Drift

/-- The Drift half of `decode_envelope`: tried when the first byte is the version. -/
def decodeDriftEnvelope (lz4 : Lz4) (data : Bytes) : Option Envelope :=
  if data.head? = some driftVersion then
    match DriftEnvelope.fromBytes lz4 data with
    | .ok e => some e.toLegacyEnvelope
    | .error _ => none
  else none

/-- `decode_envelope`. -/
def decodeEnvelope (lz4 : Lz4) (data : Bytes) : Except String Envelope :=
  if data.length > maxMessageSize then
    .error ("Envelope too large: " ++ toString data.length ++ " bytes (max " ++
      toString maxMessageSize ++ ")")
  else
    match decodeDriftEnvelope lz4 data with
    | some e => .ok e
    | none =>
      match deserialize Envelope.read data with
      | some e => .ok e
      | none => .error "bincode"

theorem Envelope.deserialize_serialize {e : Envelope} (h : e.serialize.length ≤ maxMessageSize) :
    deserialize Envelope.read e.serialize = some e := by
  have hmax : maxMessageSize = 262144 := rfl
  simp only [Envelope.serialize, putBytes, List.length_append, leBytes_length] at h
  have hsender : e.senderPublicKey.length < 2 ^ 64 := by omega
  have hephemeral : e.ephemeralPublicKey.length < 2 ^ 64 := by omega
  have hnonce : e.nonce.length < 2 ^ 64 := by omega
  have hciphertext : e.ciphertext.length < 2 ^ 64 := by omega
  have hdh (rest : Bytes) : option bytes (putOption putBytes e.ratchetDhPublic ++ rest)
      = some (e.ratchetDhPublic, rest) := by
    refine option_append fun key hkey => bytes_append ?_ rest
    rw [hkey, putOption, List.length_cons, putBytes, List.length_append] at h
    omega
  have hnumber : option u32 (putOption (fun n => leBytes 4 n.toNat) e.ratchetMessageNumber)
      = some (e.ratchetMessageNumber, []) := by
    have hoption := option_append (o := e.ratchetMessageNumber) fun n _ => u32_append n []
    rwa [List.append_nil] at hoption
  have hread : Envelope.read e.serialize = some (e, []) := by
    rw [Envelope.read, Envelope.serialize, bind_eq _ (bytes_append hsender _),
      bind_eq _ (bytes_append hephemeral _), bind_eq _ (bytes_append hnonce _),
      bind_eq _ (bytes_append hciphertext _), bind_eq _ (hdh _), bind_eq _ hnumber]
    rfl
  rw [deserialize, hread]
  rfl

/-- An envelope with a 32-byte sender key decodes from its bincode form. -/
theorem decodeEnvelope_serialize (lz4 : Lz4) {e : Envelope} (hkey : e.senderPublicKey.length = 32)
    (h : e.serialize.length ≤ maxMessageSize) :
    decodeEnvelope lz4 e.serialize = .ok e := by
  have hdrift : decodeDriftEnvelope lz4 e.serialize = none := by
    refine if_neg ?_
    rw [Envelope.serialize, putBytes, hkey]
    exact fun heq => absurd (Option.some.inj heq) (by decide)
  rw [decodeEnvelope, if_neg (Nat.not_lt_of_le h), hdrift, Envelope.deserialize_serialize h]

/-- The limit on the ciphertext keeps the Drift format far below the limit on the whole. -/
theorem length_toBytes_le {lz4 : Lz4} {e : DriftEnvelope} {data : Bytes}
    (h : e.toBytes lz4 = .ok data) : data.length ≤ maxMessageSize := by
  obtain ⟨hmax, hdata⟩ := DriftEnvelope.toBytes_eq_ok_iff.mp h
  have hsection : e.ratchetSection.length ≤ 37 := by
    unfold DriftEnvelope.ratchetSection
    split <;> simp
  rw [hdata, DriftEnvelope.fields_flatten_length]
  rw [DriftEnvelope.maxCiphertext] at hmax
  have hlimit : maxMessageSize = 262144 := rfl
  omega

theorem decodeEnvelope_toBytes {lz4 : Lz4} (hlz : lz4.Inverts) {e : DriftEnvelope} {data : Bytes}
    (hversion : e.version = driftVersion)
    (hboth : e.ratchetDhPublic.isSome = e.ratchetMessageNumber.isSome)
    (h : e.toBytes lz4 = .ok data) : decodeEnvelope lz4 data = .ok e.toLegacyEnvelope := by
  have hlength := length_toBytes_le h
  obtain ⟨_, hdata⟩ := DriftEnvelope.toBytes_eq_ok_iff.mp h
  have hhead : data.head? = some driftVersion := by
    rw [hdata, ← hversion]
    rfl
  have hdrift : decodeDriftEnvelope lz4 data = some e.toLegacyEnvelope := by
    rw [decodeDriftEnvelope, if_pos hhead, DriftEnvelope.fromBytes_toBytes hlz hversion hboth h]
  rw [decodeEnvelope, if_neg (Nat.not_lt_of_le hlength), hdrift]

/-! ## Old and new nodes -/

/-- Why `encode_drift_envelope` fails. -/
inductive DriftEncodeError where
  | invalidLength (message : String)
  | drift (e : DriftError)
  deriving DecidableEq, Repr

/-- The `DriftEnvelope` of the codec layer: ids, hint and signature are left blank. -/
def unaddressed (now : UInt32) (e : Envelope) : DriftEnvelope where
  version := driftVersion
  envelopeType := .encryptedMessage
  compressed := e.ciphertext.length > compressionThreshold
  messageId := .replicate 16 0
  recipientHint := .replicate 4 0
  createdAt := now
  ttlExpiry := 0
  hopCount := 0
  priority := 128
  senderPublicKey := arrayAt 32 e.senderPublicKey 0
  ephemeralPublicKey := arrayAt 32 e.ephemeralPublicKey 0
  nonce := arrayAt 24 e.nonce 0
  signature := .replicate 64 0
  ciphertext := e.ciphertext
  ratchetDhPublic := e.ratchetDhPublic.map fun key => arrayAt 32 key 0
  ratchetMessageNumber := e.ratchetMessageNumber

/-- `encode_drift_envelope` at the clock reading `now`, in seconds. -/
def encodeDriftEnvelope (lz4 : Lz4) (now : UInt32) (e : Envelope) :
    Except DriftEncodeError Bytes :=
  if e.senderPublicKey.length ≠ 32 then .error (.invalidLength "Invalid sender public key length")
  else if e.ephemeralPublicKey.length ≠ 32 then
    .error (.invalidLength "Invalid ephemeral public key length")
  else if e.nonce.length ≠ 24 then .error (.invalidLength "Invalid nonce length")
  else if e.ratchetDhPublic.any fun key => key.length ≠ 32 then
    .error (.invalidLength "Invalid ratchet DH public key length")
  else (unaddressed now e).toBytes lz4 |>.mapError .drift

/-- The bincode half of `encode_envelope`. -/
def encodeLegacyEnvelope (e : Envelope) : Except String Bytes :=
  if e.serialize.length > maxMessageSize then
    .error ("Encoded envelope too large: " ++ toString e.serialize.length ++ " bytes (max " ++
      toString maxMessageSize ++ ")")
  else .ok e.serialize

/-- `encode_envelope`: the Drift format, or bincode where that fails. -/
def encodeEnvelope (lz4 : Lz4) (now : UInt32) (e : Envelope) : Except String Bytes :=
  match encodeDriftEnvelope lz4 now e with
  | .ok driftBytes =>
    if driftBytes.length ≤ maxMessageSize then .ok driftBytes else encodeLegacyEnvelope e
  | .error _ => encodeLegacyEnvelope e

/-- The shape the cryptography gives an envelope: keys of 32 bytes, a nonce of 24, and the two
ratchet fields both there or both absent. -/
structure Envelope.WellShaped (e : Envelope) : Prop where
  sender : e.senderPublicKey.length = 32
  ephemeral : e.ephemeralPublicKey.length = 32
  nonce : e.nonce.length = 24
  ratchet : (e.ratchetDhPublic = none ∧ e.ratchetMessageNumber = none) ∨
    ∃ key number, e.ratchetDhPublic = some key ∧ e.ratchetMessageNumber = some number ∧
      key.length = 32

/-- Nothing of a well-shaped envelope is lost in the fixed-size fields. -/
theorem toLegacyEnvelope_unaddressed (now : UInt32) {e : Envelope} (h : e.WellShaped) :
    (unaddressed now e).toLegacyEnvelope = e := by
  have hratchet : (e.ratchetDhPublic.map fun key => arrayAt 32 key 0).map Vector.toList
      = e.ratchetDhPublic := by
    rcases h.ratchet with ⟨hdh, _⟩ | ⟨key, _, hdh, _, hkey⟩
    · rw [hdh]
      rfl
    · rw [hdh, Option.map_some, Option.map_some, toList_arrayAt hkey]
  unfold unaddressed DriftEnvelope.toLegacyEnvelope
  dsimp only
  rw [toList_arrayAt h.sender, toList_arrayAt h.ephemeral, toList_arrayAt h.nonce, hratchet]

section
variable {lz4 : Lz4} {now : UInt32} {e : Envelope}

/-- The Drift format is the one used where the encoder takes the envelope. -/
theorem encodeEnvelope_of_toBytes (he : e.WellShaped) {b : Bytes}
    (h : (unaddressed now e).toBytes lz4 = .ok b) : encodeEnvelope lz4 now e = .ok b := by
  have hratchet : ¬ e.ratchetDhPublic.any (fun key => key.length ≠ 32) := by
    rcases he.ratchet with ⟨hdh, _⟩ | ⟨key, _, hdh, _, hkey⟩
    · simp [hdh]
    · simp [hdh, hkey]
  have hdrift : encodeDriftEnvelope lz4 now e = .ok b := by
    unfold encodeDriftEnvelope
    rw [if_neg (not_not_intro he.sender), if_neg (not_not_intro he.ephemeral),
      if_neg (not_not_intro he.nonce), if_neg hratchet, h]
    rfl
  rw [encodeEnvelope, hdrift]
  exact if_pos (length_toBytes_le h)

theorem encodeEnvelope_cases {b : Bytes} (h : encodeEnvelope lz4 now e = .ok b) :
    (unaddressed now e).toBytes lz4 = .ok b ∨
      b = e.serialize ∧ e.serialize.length ≤ maxMessageSize := by
  have hlegacy : encodeLegacyEnvelope e = .ok b →
      b = e.serialize ∧ e.serialize.length ≤ maxMessageSize := by grind [encodeLegacyEnvelope]
  have hdrift : ∀ driftBytes, encodeDriftEnvelope lz4 now e = .ok driftBytes →
      (unaddressed now e).toBytes lz4 = .ok driftBytes := by
    intro driftBytes hok
    unfold encodeDriftEnvelope at hok
    repeat' split at hok
    any_goals cases hok
    cases hbytes : (unaddressed now e).toBytes lz4 with
    | error _ =>
      rw [hbytes] at hok
      cases hok
    | ok bytes =>
      rw [hbytes] at hok
      cases hok
      rfl
  unfold encodeEnvelope at h
  split at h
  next driftBytes hok => grind
  next => exact .inr (hlegacy h)

end

/-- **Old and new nodes read each other.** What `encode_envelope` puts out, in whichever of the
two formats, decodes to the envelope; and so does the bincode form an old node sends. -/
theorem decodeEnvelope_interoperates (lz4 : Lz4) (hlz : lz4.Inverts) (now : UInt32) (e : Envelope)
    (he : e.WellShaped) :
    (∀ b, encodeEnvelope lz4 now e = .ok b → decodeEnvelope lz4 b = .ok e) ∧
      (e.serialize.length ≤ maxMessageSize → decodeEnvelope lz4 e.serialize = .ok e) := by
  refine ⟨fun b hb => ?_, decodeEnvelope_serialize lz4 he.sender⟩
  rcases encodeEnvelope_cases hb with hdrift | ⟨rfl, hfit⟩
  · have hboth : (unaddressed now e).ratchetDhPublic.isSome
        = (unaddressed now e).ratchetMessageNumber.isSome := by
      show (e.ratchetDhPublic.map _).isSome = e.ratchetMessageNumber.isSome
      rcases he.ratchet with ⟨hdh, hnumber⟩ | ⟨key, number, hdh, hnumber, _⟩
      · rw [hdh, hnumber]
        rfl
      · rw [hdh, hnumber]
        rfl
    rw [decodeEnvelope_toBytes hlz rfl hboth hdrift, toLegacyEnvelope_unaddressed now he]
  · exact decodeEnvelope_serialize lz4 he.sender hfit

/-- A ratcheted envelope with a short ciphertext. -/
def demoRatcheted : Envelope where
  senderPublicKey := List.replicate 32 1
  ephemeralPublicKey := List.replicate 32 2
  nonce := List.replicate 24 3
  ciphertext := [0xca, 0xfe]
  ratchetDhPublic := some (List.replicate 32 4)
  ratchetMessageNumber := some 70000

theorem decodeEnvelope_interoperates_demo :
    ∃ b, encodeEnvelope DriftEnvelope.literalLz4 1700000000 demoRatcheted = .ok b ∧
      b ≠ demoRatcheted.serialize ∧
      decodeEnvelope DriftEnvelope.literalLz4 b = .ok demoRatcheted ∧
      decodeEnvelope DriftEnvelope.literalLz4 demoRatcheted.serialize = .ok demoRatcheted := by
  have hshape : demoRatcheted.WellShaped :=
    ⟨rfl, rfl, rfl, .inr ⟨_, _, rfl, rfl, rfl⟩⟩
  obtain ⟨hnew, hold⟩ := decodeEnvelope_interoperates DriftEnvelope.literalLz4
    DriftEnvelope.literalLz4_inverts 1700000000 demoRatcheted hshape
  have hencode : encodeEnvelope DriftEnvelope.literalLz4 1700000000 demoRatcheted
      = .ok ((unaddressed 1700000000 demoRatcheted).fields [0xca, 0xfe]).flatten :=
    encodeEnvelope_of_toBytes hshape rfl
  exact ⟨_, hencode, by decide, hnew _ hencode, hold (by decide +kernel)⟩

end Scm.Messaging
