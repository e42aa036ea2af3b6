import Scm.Bytes
import Mathlib.Data.Nat.Log

/-!
# Message padding — `core/src/privacy/padding.rs`

A message is padded with the marker 0x80 and zeros up to a target size, and unpadded at the last
marker. `unpad_padMessage` is the round trip: after the marker there are only zeros, so whatever
the message ends in, its own bytes are never taken for the marker. All schemes pad through
`pad_message` and differ in the target only.

The marker is always written. So a message that already has the target size comes out one byte
longer (`length_of_padMessage`, `padded_length_iff`).
-/

namespace Scm.Privacy

open List

/-- `STANDARD_SIZES`. -/
def standardSizes : List Nat := [256, 512, 1024, 2048, 4096]

inductive PaddingScheme where
  | none
  | fixed (size : Nat)
  | powerOfTwo
  | random (min max : Nat)
  deriving DecidableEq, Repr

inductive PaddingError where
  | invalidConfig (message : String)
  | messageTooLarge (targetSize : Nat)
  | invalidPaddingFormat
  deriving DecidableEq, Repr

/-- `pad_message`. -/
def padMessage (message : Bytes) (targetSize : Nat) : Except PaddingError Bytes :=
  if message.length > targetSize then .error (.messageTooLarge targetSize)
  else
    let padded := message ++ [0x80]
    .ok (padded ++ List.replicate (targetSize - padded.length) 0x00)

/-- `rposition`: the last position at which the test passes. -/
def rposition {α : Type} (p : α → Bool) (l : List α) : Option Nat :=
  (l.reverse.findIdx? p).map fun i => l.length - 1 - i

/-- `unpad_message`. -/
def unpadMessage (paddedMessage : Bytes) : Except PaddingError Bytes :=
  match rposition (· == 0x80) paddedMessage with
  | none => .error .invalidPaddingFormat
  | some markerPos =>
    if (paddedMessage.drop (markerPos + 1)).any (· != 0x00) then .error .invalidPaddingFormat
    else .ok (paddedMessage.take markerPos)

/-- `pad_to_next_standard_size`. -/
def padToNextStandardSize (message : Bytes) : Except PaddingError Bytes :=
  match standardSizes.find? fun size => size ≥ message.length with
  | none => .error (.invalidConfig "Message exceeds max standard size of 4096")
  | some targetSize => padMessage message targetSize

/-- `u64::next_power_of_two`: a length is far below the last of them. -/
def nextPowerOfTwo (n : Nat) : Nat := 2 ^ Nat.clog 2 n

/-- `apply_padding_scheme`; `genRange min max` is what the random generator draws. -/
def applyPaddingScheme (genRange : Nat → Nat → Nat) (message : Bytes) :
    PaddingScheme → Except PaddingError Bytes
  | .none => .ok message
  | .fixed size => padMessage message size
  | .powerOfTwo => padMessage message (nextPowerOfTwo message.length)
  | .random min max =>
    if min > max ∨ min = 0 then .error (.invalidConfig "Invalid random range")
    else
      let targetSize := genRange min max
      if targetSize < message.length then .error (.messageTooLarge targetSize)
      else padMessage message targetSize

/-! ## There and back -/

theorem rposition_append_cons {α : Type} {p : α → Bool} {front back : List α} {x : α}
    (hx : p x = true) (hback : ∀ y ∈ back, p y = false) :
    rposition p (front ++ x :: back) = some front.length := by
  have hfind : (front ++ x :: back).reverse.findIdx? p = some back.length := by
    rw [reverse_append, reverse_cons, append_assoc, List.findIdx?_append,
      List.findIdx?_eq_none_iff.mpr fun y hy => hback y (mem_reverse.mp hy)]
    simp [List.findIdx?_cons, hx]
  rw [rposition, hfind, Option.map_some]
  congr 1
  simp only [length_append, length_cons]
  omega

variable {message padded : Bytes} {targetSize : Nat}

theorem padMessage_eq_ok_iff : padMessage message targetSize = .ok padded ↔
    message.length ≤ targetSize ∧
      padded = message ++ 0x80 :: List.replicate (targetSize - (message.length + 1)) 0x00 := by
  rw [padMessage]
  split
  next hlarge => exact ⟨fun h => (nomatch h), fun h => absurd h.1 (Nat.not_le.mpr hlarge)⟩
  next hfits => grind

theorem unpad_padMessage (h : padMessage message targetSize = .ok padded) :
    unpadMessage padded = .ok message := by
  obtain ⟨_, rfl⟩ := padMessage_eq_ok_iff.mp h
  have hmarker : rposition (· == 0x80) (message ++ 0x80 ::
      List.replicate (targetSize - (message.length + 1)) 0x00) = some message.length := by
    simp_all [rposition_append_cons]
  rw [unpadMessage, hmarker]
  dsimp only
  rw [take_left, if_neg]
  rw [← drop_drop, drop_left, drop_succ_cons, drop_zero]
  simp

theorem exists_of_padToNextStandardSize (h : padToNextStandardSize message = .ok padded) :
    ∃ targetSize, standardSizes.find? (fun size => size ≥ message.length) = some targetSize ∧
      padMessage message targetSize = .ok padded := by
  rw [padToNextStandardSize] at h
  split at h
  · cases h
  next targetSize hfind => exact ⟨targetSize, hfind, h⟩

theorem exists_of_applyPaddingScheme {genRange : Nat → Nat → Nat} {scheme : PaddingScheme}
    (hscheme : scheme ≠ .none) (h : applyPaddingScheme genRange message scheme = .ok padded) :
    ∃ targetSize, padMessage message targetSize = .ok padded := by
  cases scheme with
  | none => exact absurd rfl hscheme
  | fixed size => exact ⟨size, h⟩
  | powerOfTwo => exact ⟨_, h⟩
  | random min max =>
    rw [applyPaddingScheme] at h
    split at h
    · cases h
    · dsimp only at h
      split at h
      · cases h
      · exact ⟨_, h⟩

/-- Whatever the message and the scheme, what is padded is unpadded to the message. -/
theorem unpadMessage_of_padded (genRange : Nat → Nat → Nat) (message : Bytes) :
    (∀ scheme padded, scheme ≠ .none →
      applyPaddingScheme genRange message scheme = .ok padded →
      unpadMessage padded = .ok message) ∧
    ∀ padded, padToNextStandardSize message = .ok padded → unpadMessage padded = .ok message := by
  constructor
  · intro scheme padded hscheme h
    obtain ⟨_, hpad⟩ := exists_of_applyPaddingScheme hscheme h
    exact unpad_padMessage hpad
  · intro padded h
    obtain ⟨_, _, hpad⟩ := exists_of_padToNextStandardSize h
    exact unpad_padMessage hpad

/-- A message that ends like padding: at its own size, at a power of two, at a size drawn, and at a
standard size. -/
theorem unpadMessage_of_padded_marker :
    unpadMessage [7, 0x80, 0, 0x80] = .ok [7, 0x80, 0] ∧
    unpadMessage [7, 0x80, 0, 0x80] = .ok [7, 0x80, 0] ∧
    unpadMessage [7, 0x80, 0, 0x80, 0, 0] = .ok [7, 0x80, 0] ∧
    unpadMessage ([7, 0x80, 0] ++ 0x80 :: List.replicate 252 0) = .ok [7, 0x80, 0] := by
  have h := unpadMessage_of_padded (fun _ max => max) [7, 0x80, 0]
  exact ⟨h.1 (.fixed 3) _ nofun rfl, h.1 .powerOfTwo _ nofun (by decide +kernel),
    h.1 (.random 3 6) _ nofun rfl, h.2 _ (by decide +kernel)⟩

/-! ## How long it gets -/

theorem length_of_padMessage (h : padMessage message targetSize = .ok padded) :
    padded.length = if message.length = targetSize then targetSize + 1 else targetSize := by
  obtain ⟨hfits, rfl⟩ := padMessage_eq_ok_iff.mp h
  rw [length_append, length_cons, List.length_replicate]
  split <;> omega

theorem length_eq_targetSize_iff (message : Bytes) (targetSize : Nat) :
    (∀ padded, padMessage message targetSize = .ok padded → padded.length = targetSize) ↔
      message.length ≠ targetSize := by
  constructor
  · intro h hlen
    have hpad := padMessage_eq_ok_iff.mpr ⟨Nat.le_of_eq hlen, rfl⟩
    have hexact := h _ hpad
    rw [length_of_padMessage hpad, if_pos hlen] at hexact
    omega
  · intro hlen padded hpad
    rw [length_of_padMessage hpad, if_neg hlen]

/-- A standard size comes out as a standard size unless the message has one already. -/
theorem length_mem_standardSizes_iff (message : Bytes) :
    (∀ padded, padToNextStandardSize message = .ok padded → padded.length ∈ standardSizes) ↔
      message.length ∉ standardSizes := by
  constructor
  · intro h hmem
    have hsizes : ∀ size ∈ standardSizes,
        standardSizes.find? (fun target => target ≥ size) = some size ∧
          size + 1 ∉ standardSizes := by decide
    obtain ⟨hfind, hnext⟩ := hsizes _ hmem
    have hpad := padMessage_eq_ok_iff.mpr ⟨Nat.le_refl message.length, rfl⟩
    have hstandard := h _ (by rw [padToNextStandardSize, hfind]; exact hpad)
    rw [length_of_padMessage hpad, if_pos rfl] at hstandard
    exact hnext hstandard
  · intro hlen padded h
    obtain ⟨targetSize, hfind, hpad⟩ := exists_of_padToNextStandardSize h
    have htarget := List.mem_of_find?_eq_some hfind
    have hne : message.length ≠ targetSize := fun heq => hlen (heq ▸ htarget)
    rw [length_of_padMessage hpad, if_neg hne]
    exact htarget

/-- The successor of a power of two above one is not a power of two. -/
theorem eq_one_of_isPowerOfTwo {n : Nat} (h : n.isPowerOfTwo) (hnext : (n + 1).isPowerOfTwo) :
    n = 1 := by
  obtain ⟨k, rfl⟩ := h
  obtain ⟨j, hj⟩ := hnext
  cases k with
  | zero => rfl
  | succ k =>
    cases j with
    | zero => have := Nat.two_pow_pos (k + 1); omega
    | succ j => omega

/-- A power of two comes out unless the message's length is one already; a single byte is padded
to two. -/
theorem length_isPowerOfTwo_iff (genRange : Nat → Nat → Nat) (message : Bytes) :
    (∀ padded, applyPaddingScheme genRange message .powerOfTwo = .ok padded →
      padded.length.isPowerOfTwo) ↔ (message.length.isPowerOfTwo → message.length = 1) := by
  have hpower : (nextPowerOfTwo message.length).isPowerOfTwo := ⟨_, rfl⟩
  constructor
  · intro h hlen
    have htarget : nextPowerOfTwo message.length = message.length := by
      obtain ⟨k, hk⟩ := hlen
      rw [nextPowerOfTwo, hk, Nat.clog_pow 2 k Nat.one_lt_two]
    have hpad := padMessage_eq_ok_iff.mpr ⟨Nat.le_of_eq htarget.symm, rfl⟩
    have hnext := h _ hpad
    rw [length_of_padMessage hpad, if_pos htarget.symm, htarget] at hnext
    exact eq_one_of_isPowerOfTwo hlen hnext
  · intro hone padded hpad
    rw [length_of_padMessage hpad]
    split
    next hlen =>
      rw [← hlen] at hpower ⊢
      rw [hone hpower]
      exact ⟨1, rfl⟩
    next => exact hpower

/-- Which lengths are hidden: the standard sizes, the powers of two and the caller's size each
come out for every message but those that have such a length to begin with. -/
theorem padded_length_iff (genRange : Nat → Nat → Nat) (message : Bytes) (targetSize : Nat) :
    ((∀ padded, padToNextStandardSize message = .ok padded → padded.length ∈ standardSizes) ↔
      message.length ∉ standardSizes) ∧
    ((∀ padded, applyPaddingScheme genRange message .powerOfTwo = .ok padded →
        padded.length.isPowerOfTwo) ↔
      (message.length.isPowerOfTwo → message.length = 1)) ∧
    ((∀ padded, padMessage message targetSize = .ok padded → padded.length = targetSize) ↔
      message.length ≠ targetSize) :=
  ⟨length_mem_standardSizes_iff message, length_isPowerOfTwo_iff genRange message,
    length_eq_targetSize_iff message targetSize⟩

/-- A message of 256 bytes is padded to 257. -/
theorem boundary_length_leaks :
    let message := List.replicate 256 7
    let padded := message ++ [0x80]
    padToNextStandardSize message = .ok padded ∧
      applyPaddingScheme (fun min _ => min) message .powerOfTwo = .ok padded ∧
      padMessage message 256 = .ok padded ∧ padded.length = 257 ∧ 257 ∉ standardSizes ∧
      ¬ Nat.isPowerOfTwo 257 := by
  refine ⟨by decide +kernel, by decide +kernel, by decide +kernel, by decide +kernel, by decide,
    fun h => ?_⟩
  exact absurd (eq_one_of_isPowerOfTwo (n := 256) ⟨8, rfl⟩ h) (by decide)

end Scm.Privacy
