import Scm.Drift.Frame

/-!
# Drift envelopes — `core/src/drift/envelope.rs`, `core/src/drift/compress.rs`

The compact binary envelope a relay stores and forwards: a fixed 184-byte
header, a `u16`-prefixed ciphertext that is LZ4-compressed when the high bit of
the type byte is set, and a one-byte flag in front of an optional ratchet
section. `toBytes` and `fromBytes` follow the Rust bodies; the running `offset`
of the decoder is written out as the number it has at each field.

The two directions check lengths in different units — the encoder bounds the
*compressed* ciphertext, the decoder decompresses after it has sliced — so the
round trip `fromBytes_toBytes` is stated for every envelope the encoder accepts.

LZ4 is the `lz4_flex` crate, so it enters as a parameter (`Lz4`); the only fact
used about it is that decompression undoes compression (`Lz4.Inverts`).

A present ratchet key with an absent message number encodes as number `0`, which
is why the round trip asks for both ratchet fields or neither.
-/

namespace Scm.Drift

open Bytes

/-- `lz4_flex::compress_prepend_size` and `lz4_flex::decompress_size_prepended`. -/
structure Lz4 where
  compress : Bytes → Bytes
  decompress : Bytes → Except String Bytes

/-- Decompression undoes compression. -/
def Lz4.Inverts (lz4 : Lz4) : Prop := ∀ x, lz4.decompress (lz4.compress x) = .ok x

/-- `DRIFT_VERSION`. -/
def driftVersion : UInt8 := 0x01

/-- `COMPRESSION_THRESHOLD`. -/
def compressionThreshold : Nat := 256

/-- `COMPRESSION_FLAG`. -/
def compressionFlag : UInt8 := 0x80

inductive EnvelopeType where
  | encryptedMessage
  | deliveryReceipt
  | syncRequest
  | syncResponse
  | peerAnnouncement
  | routeAdvertisement
  | coverTraffic
  | onionMessage
  deriving DecidableEq, Repr

/-- `EnvelopeType::from_u8`. -/
def EnvelopeType.fromU8 (value : UInt8) : Except DriftError EnvelopeType :=
  if value = 0x01 then .ok .encryptedMessage
  else if value = 0x02 then .ok .deliveryReceipt
  else if value = 0x03 then .ok .syncRequest
  else if value = 0x04 then .ok .syncResponse
  else if value = 0x05 then .ok .peerAnnouncement
  else if value = 0x06 then .ok .routeAdvertisement
  else if value = 0x07 then .ok .coverTraffic
  else if value = 0x08 then .ok .onionMessage
  else .error (.invalidEnvelopeType value)

/-- `EnvelopeType::as_u8`. -/
def EnvelopeType.asU8 : EnvelopeType → UInt8
  | .encryptedMessage => 0x01
  | .deliveryReceipt => 0x02
  | .syncRequest => 0x03
  | .syncResponse => 0x04
  | .peerAnnouncement => 0x05
  | .routeAdvertisement => 0x06
  | .coverTraffic => 0x07
  | .onionMessage => 0x08

structure DriftEnvelope where
  version : UInt8
  envelopeType : EnvelopeType
  compressed : Bool
  messageId : Vector UInt8 16
  recipientHint : Vector UInt8 4
  createdAt : UInt32
  ttlExpiry : UInt32
  hopCount : UInt8
  priority : UInt8
  senderPublicKey : Vector UInt8 32
  ephemeralPublicKey : Vector UInt8 32
  nonce : Vector UInt8 24
  signature : Vector UInt8 64
  ciphertext : Bytes
  ratchetDhPublic : Option (Vector UInt8 32)
  ratchetMessageNumber : Option UInt32
  deriving DecidableEq, Repr

namespace DriftEnvelope

/-- `DriftEnvelope::FIXED_OVERHEAD`. -/
def fixedOverhead : Nat := 187

/-- `DriftEnvelope::MAX_CIPHERTEXT`. -/
def maxCiphertext : Nat := 65535

/-- The type byte with the compression flag folded in. -/
def typeByte (e : DriftEnvelope) : UInt8 :=
  e.envelopeType.asU8 ||| (if e.compressed then compressionFlag else 0)

/-- The ciphertext as it goes on the wire. -/
def wireCiphertext (lz4 : Lz4) (e : DriftEnvelope) : Bytes :=
  if e.compressed then lz4.compress e.ciphertext else e.ciphertext

/-- The ratchet section: flag `0x01`, key and message number, or flag `0x00`. -/
def ratchetSection (e : DriftEnvelope) : Bytes :=
  match e.ratchetDhPublic with
  | some dhPublic =>
    0x01 :: (dhPublic.toList ++ leBytes 4 (e.ratchetMessageNumber.getD 0).toNat)
  | none => [0x00]

/-- The fields in wire order, with `ciphertext` the wire ciphertext. -/
def fields (e : DriftEnvelope) (ciphertext : Bytes) : List Bytes :=
  [[e.version], [e.typeByte], e.messageId.toList,
    e.recipientHint.toList, leBytes 4 e.createdAt.toNat, leBytes 4 e.ttlExpiry.toNat,
    [e.hopCount], [e.priority],
    e.senderPublicKey.toList, e.ephemeralPublicKey.toList, e.nonce.toList, e.signature.toList,
    leBytes 2 ciphertext.length, ciphertext, e.ratchetSection]

/-- `DriftEnvelope::to_bytes`. -/
def toBytes (lz4 : Lz4) (e : DriftEnvelope) : Except DriftError Bytes :=
  if (e.wireCiphertext lz4).length > maxCiphertext then
    .error (.ciphertextTooLarge (e.wireCiphertext lz4).length)
  else
    .ok (e.fields (e.wireCiphertext lz4)).flatten

/-- The ratchet extension at `offset`; envelopes of older nodes end before it. -/
def readRatchet (data : Bytes) (offset : Nat) :
    Except DriftError (Option (Vector UInt8 32) × Option UInt32) :=
  if offset < data.length then
    if byteAt data offset = 0x01 then
      if offset + 1 + 32 + 4 ≤ data.length then
        .ok (some (arrayAt 32 data (offset + 1)),
          some (UInt32.ofNat (leAt 4 data (offset + 1 + 32))))
      else
        .error (.bufferTooShort (offset + 1 + 32 + 4) data.length)
    else
      .ok (none, none)
  else
    .ok (none, none)

/-- The ciphertext bytes `wire`, decompressed when the flag was set. -/
def readCiphertext (lz4 : Lz4) (compressed : Bool) (wire : Bytes) :
    Except DriftError Bytes :=
  if compressed then
    match lz4.decompress wire with
    | .ok plain => .ok plain
    | .error e => .error (.decompressionFailed e)
  else
    .ok wire

/-- `DriftEnvelope::from_bytes`. -/
def fromBytes (lz4 : Lz4) (data : Bytes) : Except DriftError DriftEnvelope :=
  if data.length < fixedOverhead then
    .error (.bufferTooShort fixedOverhead data.length)
  else if byteAt data 0 ≠ driftVersion then
    .error (.invalidVersion (byteAt data 0))
  else
    let compressed := (byteAt data 1 &&& compressionFlag) != 0
    match EnvelopeType.fromU8 (byteAt data 1 &&& ~~~compressionFlag) with
    | .error e => .error e
    | .ok envelopeType =>
      let ciphertextLen := leAt 2 data 184
      if data.length < 186 + ciphertextLen then
        .error (.bufferTooShort (186 + ciphertextLen) data.length)
      else
        match readCiphertext lz4 compressed (slice data 186 (186 + ciphertextLen)) with
        | .error e => .error e
        | .ok ciphertext =>
          match readRatchet data (186 + ciphertextLen) with
          | .error e => .error e
          | .ok (ratchetDhPublic, ratchetMessageNumber) =>
            .ok {
              version := byteAt data 0
              envelopeType, compressed
              messageId := arrayAt 16 data 2
              recipientHint := arrayAt 4 data 18
              createdAt := UInt32.ofNat (leAt 4 data 22)
              ttlExpiry := UInt32.ofNat (leAt 4 data 26)
              hopCount := byteAt data 30
              priority := byteAt data 31
              senderPublicKey := arrayAt 32 data 32
              ephemeralPublicKey := arrayAt 32 data 64
              nonce := arrayAt 24 data 96
              signature := arrayAt 64 data 120
              ciphertext, ratchetDhPublic, ratchetMessageNumber }

/-- `DriftEnvelope::increment_hop`: saturating. -/
def incrementHop (e : DriftEnvelope) : DriftEnvelope :=
  { e with hopCount := if e.hopCount = 255 then 255 else e.hopCount + 1 }

/-- `DriftEnvelope::is_expired` at the clock reading `now`, in seconds. -/
def isExpired (e : DriftEnvelope) (now : UInt32) : Bool :=
  if e.ttlExpiry = 0 then false else now > e.ttlExpiry

/-- What a relay does to an envelope it passes on: parse, count the hop,
encode again. -/
def forward (lz4 : Lz4) (data : Bytes) : Except DriftError Bytes :=
  match fromBytes lz4 data with
  | .error e => .error e
  | .ok e => e.incrementHop.toBytes lz4

/-! ## The type byte -/

theorem typeByte_flag (e : DriftEnvelope) :
    ((e.typeByte &&& compressionFlag) != 0) = e.compressed := by
  unfold typeByte
  cases e.envelopeType <;> cases e.compressed <;> rfl

theorem fromU8_typeByte (e : DriftEnvelope) :
    EnvelopeType.fromU8 (e.typeByte &&& ~~~compressionFlag) = .ok e.envelopeType := by
  unfold typeByte
  cases e.envelopeType <;> cases e.compressed <;> rfl

/-! ## The round trip -/

section
variable {lz4 : Lz4} {e : DriftEnvelope} {b : Bytes}

theorem toBytes_eq_ok_iff :
    e.toBytes lz4 = .ok b ↔
      (e.wireCiphertext lz4).length ≤ maxCiphertext ∧
        b = (e.fields (e.wireCiphertext lz4)).flatten := by
  unfold toBytes
  split
  next hbig => grind
  next hfit => grind

theorem fields_flatten_length (e : DriftEnvelope) (ct : Bytes) :
    (e.fields ct).flatten.length = 186 + ct.length + e.ratchetSection.length := by
  simp [fields]
  omega

/-- The wire ciphertext reads back as the envelope's own ciphertext. -/
theorem readCiphertext_wire {lz4 : Lz4} (hlz : lz4.Inverts) (e : DriftEnvelope) :
    readCiphertext lz4 e.compressed (e.wireCiphertext lz4) = .ok e.ciphertext := by
  unfold readCiphertext wireCiphertext
  cases e.compressed with
  | false => rfl
  | true =>
    rw [if_pos rfl, if_pos rfl, hlz]

/-- The ratchet section at the end of the data reads back as the two ratchet
fields, when both are present or both are absent. -/
theorem readRatchet_section {data : Bytes} {offset : Nat}
    (hboth : e.ratchetDhPublic.isSome = e.ratchetMessageNumber.isSome)
    (h : data.drop offset = e.ratchetSection) :
    readRatchet data offset = .ok (e.ratchetDhPublic, e.ratchetMessageNumber) := by
  have hlen : data.length - offset = e.ratchetSection.length := by
    rw [← h, List.length_drop]
  unfold readRatchet
  cases hdh : e.ratchetDhPublic with
  | none =>
    rw [hdh] at hboth
    have hnum : e.ratchetMessageNumber = none := by
      simpa using hboth.symm
    rw [ratchetSection, hdh] at h hlen
    have hlen : data.length - offset = 1 := hlen
    have hflag : byteAt data offset = 0x00 := byteAt_of_drop h
    rw [if_pos (by omega), hflag, if_neg (by decide), hnum]
  | some dhPublic =>
    rw [hdh] at hboth
    obtain ⟨num, hnum⟩ := Option.isSome_iff_exists.mp hboth.symm
    rw [ratchetSection, hdh, hnum] at h hlen
    have hlen : data.length - offset = 37 := by simpa using hlen
    have hflag : byteAt data offset = 0x01 := byteAt_of_drop h
    have hkey : data.drop (offset + 1) = dhPublic.toList ++ (leBytes 4 num.toNat ++ []) := by
      exact drop_add_of_drop (x := [0x01]) h rfl
    have hread : leAt 4 data (offset + 1 + 32) = num.toNat :=
      leAt_of_drop (drop_add_of_drop hkey (by simp)) num.toNat_lt
    rw [if_pos (by omega), hflag, if_pos rfl, if_pos (by omega), arrayAt_of_drop hkey, hread,
      UInt32.ofNat_toNat, hnum]

theorem fromBytes_toBytes {lz4 : Lz4} (hlz : lz4.Inverts) {e : DriftEnvelope} {b : Bytes}
    (hver : e.version = driftVersion)
    (hboth : e.ratchetDhPublic.isSome = e.ratchetMessageNumber.isSome)
    (h : e.toBytes lz4 = .ok b) : fromBytes lz4 b = .ok e := by
  obtain ⟨hmax, hb⟩ := toBytes_eq_ok_iff.mp h
  generalize hct : e.wireCiphertext lz4 = ct at hmax hb
  rw [maxCiphertext] at hmax
  have hsec : 1 ≤ e.ratchetSection.length := by
    unfold ratchetSection
    split <;> simp
  have hlen : b.length = 186 + ct.length + e.ratchetSection.length := by
    rw [hb, fields_flatten_length]
  -- one `drop` equation per field, in wire order
  have h0 : b.drop 0 = (e.fields ct).flatten := by rw [List.drop_zero, hb]
  have h1 := drop_add_of_drop (x := [e.version]) h0 rfl
  have h2 := drop_add_of_drop (x := [e.typeByte]) h1 rfl
  have h18 := drop_add_of_drop (k := 16) h2 (by simp)
  have h22 := drop_add_of_drop (k := 4) h18 (by simp)
  have h26 := drop_add_of_drop (k := 4) h22 (by simp)
  have h30 := drop_add_of_drop (k := 4) h26 (by simp)
  have h31 := drop_add_of_drop (x := [e.hopCount]) h30 rfl
  have h32 := drop_add_of_drop (x := [e.priority]) h31 rfl
  have h64 := drop_add_of_drop (k := 32) h32 (by simp)
  have h96 := drop_add_of_drop (k := 32) h64 (by simp)
  have h120 := drop_add_of_drop (k := 24) h96 (by simp)
  have h184 := drop_add_of_drop (k := 64) h120 (by simp)
  have h186 := drop_add_of_drop (k := 2) h184 (by simp)
  have hend : b.drop (186 + ct.length) = e.ratchetSection ++ [] :=
    drop_add_of_drop (x := ct) h186 rfl
  rw [List.append_nil] at hend
  have hctlen : leAt 2 b 184 = ct.length := leAt_of_drop h184 (by omega)
  have hslice : slice b 186 (186 + ct.length) = ct := slice_of_drop h186 (by omega)
  have hv : byteAt b 0 = e.version := byteAt_of_drop h0
  have ht : byteAt b 1 = e.typeByte := byteAt_of_drop h1
  have hcreated : leAt 4 b 22 = e.createdAt.toNat := leAt_of_drop h22 e.createdAt.toNat_lt
  have httl : leAt 4 b 26 = e.ttlExpiry.toNat := leAt_of_drop h26 e.ttlExpiry.toNat_lt
  have hhop : byteAt b 30 = e.hopCount := byteAt_of_drop h30
  have hprio : byteAt b 31 = e.priority := byteAt_of_drop h31
  have hid : arrayAt 16 b 2 = e.messageId := arrayAt_of_drop h2
  have hhint : arrayAt 4 b 18 = e.recipientHint := arrayAt_of_drop h18
  have hsender : arrayAt 32 b 32 = e.senderPublicKey := arrayAt_of_drop h32
  have heph : arrayAt 32 b 64 = e.ephemeralPublicKey := arrayAt_of_drop h64
  have hnonce : arrayAt 24 b 96 = e.nonce := arrayAt_of_drop h96
  have hsig : arrayAt 64 b 120 = e.signature := arrayAt_of_drop h120
  have hplain : readCiphertext lz4 e.compressed ct = .ok e.ciphertext := by
    rw [← hct, readCiphertext_wire hlz]
  unfold fromBytes
  rw [if_neg (by rw [fixedOverhead]; omega), hv, if_neg (by simp [hver])]
  simp only [ht, typeByte_flag, fromU8_typeByte, hctlen]
  rw [if_neg (by omega), hslice, hplain]
  simp only [readRatchet_section hboth hend]
  rw [hid, hhint, hcreated, httl, hhop, hprio, hsender, heph, hnonce, hsig,
    UInt32.ofNat_toNat, UInt32.ofNat_toNat]

/-- Counting a hop changes nothing the encoder's length check looks at. -/
theorem toBytes_incrementHop (h : e.toBytes lz4 = .ok b) :
    ∃ b', e.incrementHop.toBytes lz4 = .ok b' :=
  ⟨_, toBytes_eq_ok_iff.mpr ⟨(toBytes_eq_ok_iff.mp h).1, rfl⟩⟩

end

/-- **Round trip and forwarding.** An encoded envelope of the current version
parses back to itself, field by field; and a relay that parses it, counts the
hop and encodes it again produces bytes that parse to the same envelope with
only the hop count changed. -/
theorem roundTrip_and_forward (lz4 : Lz4) (hlz : lz4.Inverts) (e : DriftEnvelope) (b : Bytes)
    (hver : e.version = driftVersion)
    (hboth : e.ratchetDhPublic.isSome = e.ratchetMessageNumber.isSome) (h : e.toBytes lz4 = .ok b) :
    fromBytes lz4 b = .ok e ∧
      ∃ b', forward lz4 b = .ok b' ∧ fromBytes lz4 b' = .ok
        { e with hopCount := if e.hopCount = 255 then 255 else e.hopCount + 1 } := by
  have hparse := fromBytes_toBytes hlz hver hboth h
  refine ⟨hparse, ?_⟩
  obtain ⟨b', hb'⟩ := toBytes_incrementHop h
  refine ⟨b', ?_, fromBytes_toBytes (e := e.incrementHop) hlz hver hboth hb'⟩
  unfold forward
  rw [hparse]
  exact hb'

/-- The LZ4 block of an input too short to hold a match (under 13 bytes): the
prepended size, one token with the literal count in its high nibble, and the
literals. -/
def literalLz4 : Lz4 where
  compress x := leBytes 4 x.length ++ UInt8.ofNat (16 * x.length) :: x
  decompress data := .ok (data.drop 5)

theorem literalLz4_inverts : literalLz4.Inverts := by
  intro x
  show Except.ok ((leBytes 4 x.length ++ UInt8.ofNat (16 * x.length) :: x).drop 5) = _
  rfl

/-- A compressed, ratcheted envelope one hop short of the saturation point. -/
def sampleEnvelope : DriftEnvelope where
  version := driftVersion
  envelopeType := .onionMessage
  compressed := true
  messageId := .replicate 16 7
  recipientHint := #v[1, 2, 3, 4]
  createdAt := 1700000000
  ttlExpiry := 0
  hopCount := 254
  priority := 128
  senderPublicKey := .replicate 32 11
  ephemeralPublicKey := .replicate 32 12
  nonce := .replicate 24 13
  signature := .replicate 64 14
  ciphertext := [0xde, 0xad, 0xbe, 0xef]
  ratchetDhPublic := some (.replicate 32 15)
  ratchetMessageNumber := some 70000

theorem roundTrip_and_forward_sample :
    ∃ b, sampleEnvelope.toBytes literalLz4 = .ok b ∧ fromBytes literalLz4 b = .ok sampleEnvelope ∧
      ∃ b', forward literalLz4 b = .ok b' ∧
        fromBytes literalLz4 b' = .ok { sampleEnvelope with hopCount := 255 } :=
  ⟨_, rfl, roundTrip_and_forward literalLz4 literalLz4_inverts sampleEnvelope _ rfl rfl rfl⟩

end DriftEnvelope

end Scm.Drift
