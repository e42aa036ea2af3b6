import Scm.Crypto.Conversation
import Scm.Message.Codec

/-!
# Per-message encryption — `core/src/crypto/encrypt.rs`, `core/src/identity/keys.rs`

A message is encrypted to the recipient's identity key under a fresh ephemeral key;
the sender's public key is bound as associated data. `decryptMessage_encryptMessage`
says that the recipient gets the plaintext back. What the associated data does *not*
do is tie anything inside the plaintext to that key.
-/

namespace Scm.Crypto

open Bytes Messaging

/-- The Ed25519 side of the crates. -/
structure IdentityPrimitives extends Primitives where
  /-- `signing_key.verifying_key().to_bytes()`. -/
  verifyingKey : Key → Key
  /-- `ed25519_public_to_x25519`; `none` when the bytes are not a curve point. -/
  ed25519PublicToX25519 : Key → Option Key

/-- `KDF_CONTEXT`. -/
def kdfContext : String := "iron-core v2 message encryption 2026-02-05"

namespace IdentityPrimitives

/-- The hex BLAKE3 hash of a public key. -/
def publicKeyIdentityId (P : IdentityPrimitives) (publicKey : Bytes) : String :=
  toHex (P.hash publicKey).toList

/-- `IdentityKeys::identity_id`. -/
def identityId (P : IdentityPrimitives) (signingKey : Key) : String :=
  P.publicKeyIdentityId (P.verifyingKey signingKey).toList

/-- Documented behaviour of the crates: the two conversions of an identity agree,
and the primitives are correct. -/
structure Correct (P : IdentityPrimitives) : Prop extends P.toPrimitives.Correct where
  converts : ∀ signingKey, P.ed25519PublicToX25519 (P.verifyingKey signingKey)
    = some (P.publicKey (P.ed25519ToX25519Secret signingKey))

end IdentityPrimitives

/-- `encrypt_message`; the ephemeral secret and the nonce are the random draws. -/
def encryptMessage (P : IdentityPrimitives) (senderSigningKey recipientPublicKey : Key)
    (ephemeralSecret : Key) (nonce : Vector UInt8 24) (plaintext : Bytes) :
    Except String Envelope :=
  match P.ed25519PublicToX25519 recipientPublicKey with
  | none => .error "Failed to decompress Ed25519 public key"
  | some recipientX25519 =>
    let sharedSecret := P.diffieHellman ephemeralSecret recipientX25519
    let symmetricKey := P.deriveKey kdfContext sharedSecret.toList
    let senderPublicBytes := (P.verifyingKey senderSigningKey).toList
    match P.aeadEncrypt symmetricKey nonce.toList senderPublicBytes plaintext with
    | none => .error "Encryption failed"
    | some ciphertext =>
      .ok { senderPublicKey := senderPublicBytes
            ephemeralPublicKey := (P.publicKey ephemeralSecret).toList
            nonce := nonce.toList, ciphertext
            ratchetDhPublic := none, ratchetMessageNumber := none }

/-- `decrypt_message`. -/
def decryptMessage (P : IdentityPrimitives) (recipientSigningKey : Key) (envelope : Envelope) :
    Except String Bytes :=
  if envelope.ephemeralPublicKey.length ≠ 32 then .error "Invalid ephemeral public key length"
  else if envelope.nonce.length ≠ 24 then .error "Invalid nonce length"
  else if envelope.senderPublicKey.length ≠ 32 then .error "Invalid sender public key length"
  else
    let recipientX25519Secret := P.ed25519ToX25519Secret recipientSigningKey
    let ephemeralPublic := arrayAt 32 envelope.ephemeralPublicKey 0
    let sharedSecret := P.diffieHellman recipientX25519Secret ephemeralPublic
    let symmetricKey := P.deriveKey kdfContext sharedSecret.toList
    match P.aeadDecrypt symmetricKey envelope.nonce envelope.senderPublicKey
      envelope.ciphertext with
    | some plaintext => .ok plaintext
    | none =>
      .error "Decryption failed: invalid ciphertext, wrong key, or tampered sender public key"

/-- The recipient reads what the sender wrote, under the sender's own key. -/
theorem decryptMessage_encryptMessage {P : IdentityPrimitives} (hP : P.Correct)
    (senderSigningKey recipientSigningKey ephemeralSecret : Key) (nonce : Vector UInt8 24)
    (plaintext : Bytes) :
    ∃ envelope, encryptMessage P senderSigningKey (P.verifyingKey recipientSigningKey)
        ephemeralSecret nonce plaintext = .ok envelope ∧
      envelope.senderPublicKey = (P.verifyingKey senderSigningKey).toList ∧
      decryptMessage P recipientSigningKey envelope = .ok plaintext := by
  -- both ends derive one symmetric key
  obtain ⟨ciphertext, hseal, hopen⟩ := hP.opens
    (P.deriveKey kdfContext (P.diffieHellman ephemeralSecret
      (P.publicKey (P.ed25519ToX25519Secret recipientSigningKey))).toList)
    nonce.toList (P.verifyingKey senderSigningKey).toList plaintext
  refine ⟨{ senderPublicKey := (P.verifyingKey senderSigningKey).toList
            ephemeralPublicKey := (P.publicKey ephemeralSecret).toList
            nonce := nonce.toList, ciphertext
            ratchetDhPublic := none, ratchetMessageNumber := none }, ?_, rfl, ?_⟩
  · unfold encryptMessage
    rw [hP.converts]
    dsimp only
    rw [hseal]
  · unfold decryptMessage
    rw [if_neg (by simp), if_neg (by simp), if_neg (by simp)]
    dsimp only
    rw [arrayAt_toList, ← hP.agree, hopen]

end Scm.Crypto
