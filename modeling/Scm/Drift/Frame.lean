import Scm.Bytes

/-!
# Drift frames — `core/src/drift/frame.rs`

The transport framing: `[2 LE length][1 type][N payload][4 LE CRC32]`, where
`length = 1 + N` counts the type byte and the payload and the CRC covers
everything before it. `DriftFrame.toBytes` and `DriftFrame.fromBytes` follow
the Rust bodies check by check, errors included; the CRC32 hasher is a
parameter, because nothing the codec guarantees depends on which function of
the bytes it is.

`fromBytes_eq_ok_iff` is the codec theorem: the decoder accepts *exactly* the
encoder's image. Its second half, `toBytes_of_fromBytes`, is what rules out
trailing bytes and second encodings.

The oversize guard of `from_bytes` (`length > FRAME_MAX_PAYLOAD + 1`) is kept
as it stands although it cannot fire: the length field is a `u16`.
-/

namespace Scm.Drift

open List Bytes

/-- `DriftError` (`drift/mod.rs`). -/
inductive DriftError where
  | bufferTooShort (need got : Nat)
  | invalidEnvelopeType (value : UInt8)
  | ciphertextTooLarge (len : Nat)
  | invalidVersion (version : UInt8)
  | crcMismatch
  | decompressionFailed (message : String)
  | invalidFrameType (value : UInt8)
  | timeout
  | ioError (message : String)
  deriving DecidableEq, Repr

/-- `u16::MAX`. -/
def u16Max : Nat := 65535

/-- `FRAME_MAX_PAYLOAD`. -/
def frameMaxPayload : Nat := 65535

inductive FrameType where
  | data
  | syncReq
  | syncResp
  | ping
  | peerInfo
  deriving DecidableEq, Repr

/-- `FrameType::from_u8`. -/
def FrameType.fromU8 (value : UInt8) : Except DriftError FrameType :=
  if value = 0x01 then .ok .data
  else if value = 0x02 then .ok .syncReq
  else if value = 0x03 then .ok .syncResp
  else if value = 0x04 then .ok .ping
  else if value = 0x05 then .ok .peerInfo
  else .error (.invalidFrameType value)

/-- `FrameType::as_u8` — the `repr(u8)` discriminants. -/
def FrameType.asU8 : FrameType → UInt8
  | .data => 0x01
  | .syncReq => 0x02
  | .syncResp => 0x03
  | .ping => 0x04
  | .peerInfo => 0x05

theorem FrameType.fromU8_asU8 (t : FrameType) : FrameType.fromU8 t.asU8 = .ok t := by
  cases t <;> rfl

theorem FrameType.asU8_of_fromU8 {value : UInt8} {t : FrameType}
    (h : FrameType.fromU8 value = .ok t) : t.asU8 = value := by
  unfold FrameType.fromU8 at h
  repeat' split at h
  all_goals first | (cases h; subst_vars; rfl) | cases h

structure DriftFrame where
  frameType : FrameType
  payload : Bytes
  deriving DecidableEq, Repr

namespace DriftFrame

/-- `DriftFrame::TRANSPORT_OVERHEAD`: 2 (length) + 1 (type) + 4 (CRC32). -/
def transportOverhead : Nat := 7

/-- The bytes the CRC covers: length, type and payload. -/
def checked (f : DriftFrame) : Bytes :=
  leBytes 2 (1 + f.payload.length) ++ f.frameType.asU8 :: f.payload

/-- `DriftFrame::to_bytes`. -/
def toBytes (crc : Bytes → UInt32) (f : DriftFrame) : Except DriftError Bytes :=
  if 1 + f.payload.length > u16Max then
    .error (.bufferTooShort (1 + f.payload.length) u16Max)
  else
    .ok (f.checked ++ leBytes 4 (crc f.checked).toNat)

/-- `DriftFrame::from_bytes`. -/
def fromBytes (crc : Bytes → UInt32) (data : Bytes) : Except DriftError DriftFrame :=
  if data.length < transportOverhead then
    .error (.bufferTooShort transportOverhead data.length)
  else
    let length := leAt 2 data 0
    if length > frameMaxPayload + 1 then
      .error (.bufferTooShort frameMaxPayload length)
    else if data.length ≠ 2 + length + 4 then
      .error (.bufferTooShort (2 + length + 4) data.length)
    else
      let crcOffset := data.length - 4
      if (crc (data.take crcOffset)).toNat ≠ leAt 4 data crcOffset then
        .error .crcMismatch
      else
        match FrameType.fromU8 (byteAt data 2) with
        | .error e => .error e
        | .ok frameType => .ok { frameType, payload := slice data 3 crcOffset }

theorem checked_length (f : DriftFrame) : f.checked.length = 3 + f.payload.length := by
  simp [checked]
  omega

section
variable {crc : Bytes → UInt32} {f : DriftFrame} {b : Bytes}

/-- A successful encoding is the checked part followed by its CRC, and it is
seven bytes longer than the payload. -/
theorem toBytes_eq_ok_iff :
    f.toBytes crc = .ok b ↔
      f.payload.length < u16Max ∧ b = f.checked ++ leBytes 4 (crc f.checked).toNat := by
  unfold toBytes
  split
  next hbig => grind
  next hfit => grind

/-- What the encoder writes parses back to the frame it was given. -/
theorem fromBytes_toBytes (h : f.toBytes crc = .ok b) : fromBytes crc b = .ok f := by
  obtain ⟨hlt, hb⟩ := toBytes_eq_ok_iff.mp h
  have hu : u16Max = 65535 := rfl
  have hlen : b.length = f.payload.length + 7 := by
    rw [hb, length_append, checked_length, leBytes_length]
    omega
  -- walk the layout: length, type byte, payload, CRC
  have h0 : b.drop 0 = leBytes 2 (1 + f.payload.length) ++
      (f.frameType.asU8 :: f.payload ++ leBytes 4 (crc f.checked).toNat) := by
    rw [drop_zero, hb, checked, append_assoc]
  have h2 := drop_add_of_drop h0 (leBytes_length _ _)
  have h3 : b.drop 3 = f.payload ++ leBytes 4 (crc f.checked).toNat :=
    drop_add_of_drop (a := 2) (k := 1) (x := [f.frameType.asU8]) h2 rfl
  have hcrc : b.drop (b.length - 4) = leBytes 4 (crc f.checked).toNat ++ [] := by
    rw [hlen, show f.payload.length + 7 - 4 = 3 + f.payload.length by omega]
    exact drop_add_of_drop h3 rfl
  have htake : b.take (b.length - 4) = f.checked := by grind [checked_length]
  have hlength : leAt 2 b 0 = 1 + f.payload.length := leAt_of_drop h0 (by omega)
  have hread : leAt 4 b (b.length - 4) = (crc f.checked).toNat :=
    leAt_of_drop hcrc (crc f.checked).toNat_lt
  have htype : byteAt b 2 = f.frameType.asU8 := byteAt_of_drop h2
  have hpayload : slice b 3 (b.length - 4) = f.payload := slice_of_drop h3 (by omega)
  unfold fromBytes
  rw [if_neg (by rw [transportOverhead]; omega)]
  simp only [hlength]
  rw [if_neg (by rw [frameMaxPayload]; omega), if_neg (by omega), htake, hread,
    if_neg (by simp), htype, FrameType.fromU8_asU8, hpayload]

/-- What the decoder accepts is what the encoder writes for the frame it
returns. -/
theorem toBytes_of_fromBytes (h : fromBytes crc b = .ok f) : f.toBytes crc = .ok b := by
  unfold fromBytes at h
  split at h
  next => cases h
  next hmin =>
    dsimp only at h
    split at h
    next => cases h
    split at h
    next => cases h
    next hexact =>
      split at h
      next => cases h
      next hcrc =>
        split at h
        next => cases h
        next t ht =>
          cases h
          rw [transportOverhead] at hmin
          have hexact : b.length = 2 + leAt 2 b 0 + 4 := Classical.not_not.mp hexact
          have hcrc : (crc (b.take (b.length - 4))).toNat = leAt 4 b (b.length - 4) :=
            Classical.not_not.mp hcrc
          have hlt16 := leAt_lt 2 b 0
          have hplen : (slice b 3 (b.length - 4)).length = b.length - 7 := by grind [slice]
          -- the checked part of the returned frame is the part of `b` that was checked
          have hchecked : (DriftFrame.mk t (slice b 3 (b.length - 4))).checked
              = b.take (b.length - 4) := by
            have hlength : 1 + (slice b 3 (b.length - 4)).length = leAt 2 b 0 := by omega
            have htail : b.drop 2 = t.asU8 :: b.drop 3 := by
              grind [FrameType.asU8_of_fromU8, drop_eq_byteAt_cons]
            rw [checked, hlength, leBytes_leAt (by omega), drop_zero, slice,
              show b.length - 4 = 2 + (b.length - 4 - 2) by omega, take_add, htail,
              show b.length - 4 - 2 = (b.length - 4 - 3) + 1 by omega, take_succ_cons,
              show 2 + (b.length - 4 - 3 + 1) - 3 = b.length - 4 - 3 by omega]
          have hround : leBytes 4 (leAt 4 b (b.length - 4)) = b.drop (b.length - 4) := by
            rw [leBytes_leAt (by omega), take_of_length_le (by rw [length_drop]; omega)]
          refine toBytes_eq_ok_iff.mpr ⟨?_, ?_⟩
          · grind [u16Max]
          · rw [hchecked, hcrc, hround, take_append_drop]

end

/-- **The decoder accepts exactly the encoder's image**, whatever the CRC is:
no trailing bytes, no second encoding of a frame, no encoding that is refused. -/
theorem fromBytes_eq_ok_iff (crc : Bytes → UInt32) (b : Bytes) (f : DriftFrame) :
    fromBytes crc b = .ok f ↔ f.toBytes crc = .ok b :=
  ⟨toBytes_of_fromBytes, fromBytes_toBytes⟩

end DriftFrame

end Scm.Drift
