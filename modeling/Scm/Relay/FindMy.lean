import Scm.Bytes
import Scm.Collections

/-!
# Wake-up beacons — `core/src/relay/findmy.rs`

A beacon has the flag of a payload in the top bit of its first byte, in the place of the top bit of
the recipient's hint: what is decoded has the hint with that bit cleared (`decodeWakeup_encode`).
-/

namespace Scm.Relay

open Bytes

structure WakeUpPayload where
  recipientHint : Vector UInt8 4
  messageAvailable : Bool
  relayHint : Vector UInt8 4
  deriving DecidableEq, Repr

/-- The errors that are returned. -/
inductive FindMyError where
  | invalidLength
  deriving DecidableEq, Repr

/-- The keystream of a key, a BLAKE3 hash. -/
abbrev Keystream := Vector UInt8 32 → Vector UInt8 32

/-- `encode_wakeup`. -/
def encodeWakeup (keystream : Keystream) (payload : WakeUpPayload) (key : Vector UInt8 32) :
    Bytes :=
  let msgFlag : UInt8 := if payload.messageAvailable then 0x80 else 0x00
  [msgFlag ||| (payload.recipientHint[0] &&& 0x7F), payload.recipientHint[1],
      payload.recipientHint[2], payload.recipientHint[3]]
    ++ ((payload.relayHint.zipWith (· ^^^ ·) ((keystream key).take 4)).toList
    ++ ((List.range 13).map (fun i => byteAt (keystream key).toList ((i + 4) % 32)) ++ [0x00]))

/-- `decode_wakeup`. -/
def decodeWakeup (keystream : Keystream) (data : Bytes) (key : Vector UInt8 32) :
    Except FindMyError WakeUpPayload :=
  if data.length < 22 then .error .invalidLength
  else
    .ok {
      recipientHint := #v[byteAt data 0 &&& 0x7F, byteAt data 1, byteAt data 2, byteAt data 3]
      messageAvailable := decide (byteAt data 0 &&& 0x80 ≠ 0)
      relayHint := (arrayAt 4 data 4).zipWith (· ^^^ ·) ((keystream key).take 4) }

/-- `is_our_wakeup`. -/
def isOurWakeup (keystream : Keystream) (beaconData : Bytes) (ourHint : Vector UInt8 4)
    (key : Vector UInt8 32) : Except FindMyError Bool :=
  match decodeWakeup keystream beaconData key with
  | .ok payload => .ok (payload.recipientHint = ourHint)
  | .error .invalidLength => .ok false

/-- The hint with the top bit of its first byte cleared. -/
def lowHint (hint : Vector UInt8 4) : Vector UInt8 4 :=
  #v[hint[0] &&& 0x7F, hint[1], hint[2], hint[3]]

/-- What the flag in the top bit does to a byte. -/
theorem flag_bits (flag : Bool) (b : UInt8) :
    ((if flag then 0x80 else 0x00) ||| (b &&& 0x7F)) &&& 0x7F = b &&& 0x7F ∧
      (((if flag then 0x80 else 0x00) ||| (b &&& 0x7F)) &&& 0x80 ≠ 0 ↔ flag = true) ∧
      (b &&& 0x7F = b ↔ b < 0x80) := by
  have hbytes : ∀ n : Fin 256, ∀ flag : Bool,
      ((if flag then 0x80 else 0x00) ||| (UInt8.ofNat n &&& 0x7F)) &&& 0x7F
          = UInt8.ofNat n &&& 0x7F ∧
        (((if flag then 0x80 else 0x00) ||| (UInt8.ofNat n &&& 0x7F)) &&& 0x80 ≠ 0 ↔ flag = true) ∧
        (UInt8.ofNat n &&& 0x7F = UInt8.ofNat n ↔ UInt8.ofNat n < 0x80) := by
    decide +kernel
  simpa using hbytes ⟨b.toNat, b.toNat_lt⟩ flag

theorem zipWith_xor_xor (a b : Vector UInt8 4) :
    (a.zipWith (· ^^^ ·) b).zipWith (· ^^^ ·) b = a := by
  apply Vector.ext
  intro i hi
  simp only [Vector.getElem_zipWith, UInt8.xor_assoc, UInt8.xor_self, UInt8.xor_zero]

theorem decodeWakeup_encode (keystream : Keystream) (payload : WakeUpPayload)
    (key : Vector UInt8 32) :
    decodeWakeup keystream (encodeWakeup keystream payload key) key
      = .ok { payload with recipientHint := lowHint payload.recipientHint } := by
  have hlength : (encodeWakeup keystream payload key).length = 22 := by simp [encodeWakeup]
  obtain ⟨hlow, hflag, _⟩ := flag_bits payload.messageAvailable payload.recipientHint[0]
  have hrelay : arrayAt 4 (encodeWakeup keystream payload key) 4
      = payload.relayHint.zipWith (· ^^^ ·) ((keystream key).take 4) := arrayAt_of_drop rfl
  have hfirst : byteAt (encodeWakeup keystream payload key) 0
      = (if payload.messageAvailable then 0x80 else 0x00 : UInt8)
        ||| (payload.recipientHint[0] &&& 0x7F) := rfl
  rw [decodeWakeup, if_neg (by omega), hrelay, zipWith_xor_xor, hfirst, hlow]
  simp only [hflag, Bool.decide_eq_true]
  rfl

theorem lowHint_eq_iff (hint : Vector UInt8 4) : lowHint hint = hint ↔ hint[0] < 0x80 := by
  rw [← (flag_bits true hint[0]).2.2]
  constructor
  · intro h
    exact congrArg (fun v : Vector UInt8 4 => v[0]) h
  · intro h
    unfold lowHint
    rw [h]
    ext i hi
    match i, hi with
    | 0, _ | 1, _ | 2, _ | 3, _ => rfl

/-- **A payload comes back, and its beacon is for its hint alone**, exactly when the top bit of
the hint is clear. -/
theorem wakeup_roundTrip_iff (keystream : Keystream) (payload : WakeUpPayload)
    (key : Vector UInt8 32) :
    (decodeWakeup keystream (encodeWakeup keystream payload key) key = .ok payload ∧
      ∀ hint, isOurWakeup keystream (encodeWakeup keystream payload key) hint key = .ok true ↔
        hint = payload.recipientHint) ↔
      payload.recipientHint[0] < 0x80 := by
  rw [← lowHint_eq_iff]
  unfold isOurWakeup
  simp only [decodeWakeup_encode]
  constructor
  · rintro ⟨h, _⟩
    exact congrArg WakeUpPayload.recipientHint (Except.ok.inj h)
  · intro h
    rw [h]
    refine ⟨rfl, fun hint => ?_⟩
    simp [eq_comm]

/-- A hint with its top bit set is not its beacon's hint. -/
theorem wakeup_for_other_hint :
    let payload : WakeUpPayload := ⟨#v[0x80, 1, 2, 3], true, #v[4, 5, 6, 7]⟩
    let beacon := encodeWakeup id payload (.replicate 32 0)
    decodeWakeup id beacon (.replicate 32 0)
      = .ok { payload with recipientHint := #v[0, 1, 2, 3] } ∧
      isOurWakeup id beacon #v[0x80, 1, 2, 3] (.replicate 32 0) = .ok false ∧
      isOurWakeup id beacon #v[0, 1, 2, 3] (.replicate 32 0) = .ok true := by
  decide +kernel

end Scm.Relay
