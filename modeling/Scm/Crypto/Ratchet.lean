import Scm.Bytes
import Scm.Collections

/-!
# The double ratchet — `core/src/crypto/ratchet.rs`

One end of a ratcheted session. A header carries the sender's current DH public
key and a message number. A key the receiver has not seen last makes it take a
DH ratchet step (`handleDhRatchet`): a new receiving chain from its old secret, a
fresh secret, a new sending chain. Inside a chain, message keys that were jumped
over are kept by `(DH key, number)` (`getMessageKey`), at most 256 of them.

The cryptography is a parameter (`Primitives`): `blake3`, X25519 and
XChaCha20-Poly1305 are crates of their own. Indices and numbers are `u32` and
wrap. The random secret that `handleDhRatchet` draws is an argument, and so is
the nonce of `encrypt`. `XNonce::from_slice` panics when the nonce is not 24
bytes long; `Outcome` keeps that apart from an error.

`decrypt` ratchets and consumes a message key before it authenticates anything:
`decrypt_err_unchanged_iff` says which headers are harmless.
-/

namespace Scm.Crypto

open Bytes Collections

/-- A 32-byte key: secret, public or symmetric. -/
abbrev Key := Vector UInt8 32

/-- The cryptographic crates. -/
structure Primitives where
  /-- `blake3::derive_key(context, material)`. -/
  deriveKey : String → Bytes → Key
  /-- `blake3::hash`. -/
  hash : Bytes → Key
  /-- `ed25519_to_x25519_secret`. -/
  ed25519ToX25519Secret : Key → Key
  /-- `X25519PublicKey::from(&secret)`. -/
  publicKey : Key → Key
  /-- `secret.diffie_hellman(&public)`. -/
  diffieHellman : Key → Key → Key
  /-- XChaCha20-Poly1305 under a key, a nonce and associated data. -/
  aeadEncrypt : Key → Bytes → Bytes → Bytes → Option Bytes
  aeadDecrypt : Key → Bytes → Bytes → Bytes → Option Bytes

/-- `RATCHET_KDF_CONTEXT`. -/
def ratchetKdfContext : String := "iron-core ratchet v1 2026-04-15"

/-- `ROOT_KDF_CONTEXT`. -/
def rootKdfContext : String := "iron-core root-chain v1 2026-04-15"

/-- `MAX_SKIP_KEYS`. -/
def maxSkipKeys : Nat := 256

/-- `MAX_RATCHET_STEPS`. -/
def maxRatchetSteps : UInt32 := 10000

namespace Primitives

variable (P : Primitives)

/-- `derive_key_with_info`. -/
def deriveKeyWithInfo (key : Key) (info : String) : Key :=
  P.deriveKey (ratchetKdfContext ++ ":" ++ toHex (P.hash info.toUTF8.toList).toList) key.toList

/-- `root_key_ratchet`: the new root key and a chain key. -/
def rootKeyRatchet (rootKey dhOutput : Key) : Key × Key :=
  let combined := P.deriveKey rootKdfContext (rootKey.toList ++ dhOutput.toList)
  (P.deriveKey (rootKdfContext ++ ":root") combined.toList,
    P.deriveKey (rootKdfContext ++ ":chain") combined.toList)

/-- `derive_root_key`. -/
def deriveRootKey (priorRoot sharedSecret : Key) : Key :=
  P.deriveKey rootKdfContext (priorRoot.toList ++ sharedSecret.toList)

end Primitives

structure Chain where
  chainKey : Key
  index : UInt32
  deriving DecidableEq, Repr

/-- `Chain::new`. -/
def Chain.new (chainKey : Key) : Chain := ⟨chainKey, 0⟩

/-- `Chain::next_message_key`. -/
def Chain.nextMessageKey (P : Primitives) (c : Chain) : Key × Chain :=
  (P.deriveKeyWithInfo c.chainKey "message-key",
    ⟨P.deriveKeyWithInfo c.chainKey "chain-key", c.index + 1⟩)

/-- The store of skipped message keys, by DH key and message number. -/
abbrev SkippedKeys := AList fun _ : Key × UInt32 => Key

structure RatchetSession where
  ourDhSecret : Key
  ourDhPublic : Key
  theirDhPublic : Option Key
  rootKey : Key
  sendingChain : Option Chain
  receivingChain : Option Chain
  dhStepCount : UInt32
  skippedKeys : SkippedKeys
  initialized : Bool
  ourIdentitySecret : Option Key

/-- `RatchetEncryptResult`. -/
structure RatchetEncryptResult where
  ciphertext : Bytes
  nonce : Bytes
  messageNumber : UInt32
  ourDhPublic : Key
  deriving DecidableEq, Repr

/-- How a call of `decrypt` ends. -/
inductive Outcome (α : Type) where
  | ok (value : α)
  | err (message : String)
  | panicked
  deriving DecidableEq, Repr

/-- The order of `([u8; 32], u32)` keys. -/
def compareSkipped (a b : Key × UInt32) : Ordering :=
  (compare a.1.toList b.1.toList).then (compare a.2 b.2)

/-- Over the limit, drop the smallest key. -/
def evictOldest (skipped : SkippedKeys) : SkippedKeys :=
  if len skipped > maxSkipKeys then
    match minBy compareSkipped skipped.keys with
    | some oldest => skipped.erase oldest
    | none => skipped
  else skipped

/-- The `while chain.index < target_number` loop, which runs once per skipped
number. -/
def skipKeys (P : Primitives) (theirDh : Key) : Nat → Chain → SkippedKeys → Chain × SkippedKeys
  | 0, chain, skipped => (chain, skipped)
  | k + 1, chain, skipped =>
    let (skippedKey, chain) := chain.nextMessageKey P
    skipKeys P theirDh k chain
      (evictOldest (skipped.insert (theirDh, chain.index - 1) skippedKey))

namespace RatchetSession

/-- `RatchetSession::init_as_sender`; `dhSecret` is the random ratchet secret. -/
def initAsSender (P : Primitives) (ourSigningKey theirIdentityPublic dhSecret : Key) :
    RatchetSession :=
  let ourX25519 := P.ed25519ToX25519Secret ourSigningKey
  let rootKey := P.deriveRootKey (.replicate 32 0)
    (P.diffieHellman ourX25519 theirIdentityPublic)
  let (newRootKey, sendingChainKey) := P.rootKeyRatchet rootKey
    (P.diffieHellman dhSecret theirIdentityPublic)
  { ourDhSecret := dhSecret
    ourDhPublic := P.publicKey dhSecret
    theirDhPublic := some theirIdentityPublic
    rootKey := newRootKey
    sendingChain := some (Chain.new sendingChainKey)
    receivingChain := none
    dhStepCount := 1
    skippedKeys := ∅
    initialized := true
    ourIdentitySecret := none }

/-- `RatchetSession::init_as_receiver`. -/
def initAsReceiver (P : Primitives) (ourSigningKey senderIdentityPublic dhSecret : Key) :
    RatchetSession :=
  let ourX25519 := P.ed25519ToX25519Secret ourSigningKey
  { ourDhSecret := dhSecret
    ourDhPublic := P.publicKey dhSecret
    theirDhPublic := none
    rootKey := P.deriveRootKey (.replicate 32 0)
      (P.diffieHellman ourX25519 senderIdentityPublic)
    sendingChain := none
    receivingChain := none
    dhStepCount := 0
    skippedKeys := ∅
    initialized := false
    ourIdentitySecret := some ourX25519 }

/-- `RatchetSession::encrypt`. The chain has moved on when the cipher fails. -/
def encrypt (P : Primitives) (nonce : Bytes) (s : RatchetSession)
    (plaintext aad : Bytes) : Except String RatchetEncryptResult × RatchetSession :=
  match s.sendingChain with
  | none => (.error "Sending chain not initialized", s)
  | some chain =>
    if s.dhStepCount ≥ maxRatchetSteps then
      (.error "Ratchet session has exceeded maximum steps", s)
    else
      let (messageKey, chain) := chain.nextMessageKey P
      let s := { s with sendingChain := some chain }
      match P.aeadEncrypt messageKey nonce aad plaintext with
      | none => (.error "Encryption failed", s)
      | some ciphertext =>
        (.ok { ciphertext, nonce, messageNumber := chain.index - 1,
               ourDhPublic := s.ourDhPublic }, s)

/-- The secret of the next receiving step: the identity secret, once, or our
current ratchet secret. -/
def ratchetSecret (s : RatchetSession) : Key := s.ourIdentitySecret.getD s.ourDhSecret

/-- `RatchetSession::handle_dh_ratchet`; `newDhSecret` is the random secret. -/
def handleDhRatchet (P : Primitives) (newDhSecret : Key) (s : RatchetSession)
    (theirNewDh : Key) : RatchetSession :=
  let (newRootKey, receivingChainKey) := P.rootKeyRatchet s.rootKey
    (P.diffieHellman s.ratchetSecret theirNewDh)
  let (newRootKey2, sendingChainKey) := P.rootKeyRatchet newRootKey
    (P.diffieHellman newDhSecret theirNewDh)
  { s with
    ourIdentitySecret := none
    theirDhPublic := some theirNewDh
    ourDhSecret := newDhSecret
    ourDhPublic := P.publicKey newDhSecret
    rootKey := newRootKey2
    receivingChain := some (Chain.new receivingChainKey)
    sendingChain := some (Chain.new sendingChainKey)
    dhStepCount := s.dhStepCount + 1
    initialized := true }

/-- `RatchetSession::get_message_key`. -/
def getMessageKey (P : Primitives) (s : RatchetSession) (theirDh : Key) (targetNumber : UInt32) :
    Except String Key × RatchetSession :=
  match s.skippedKeys.lookup (theirDh, targetNumber) with
  | some key => (.ok key, { s with skippedKeys := s.skippedKeys.erase (theirDh, targetNumber) })
  | none =>
    match s.receivingChain with
    | none => (.error "Receiving chain not initialized", s)
    | some chain =>
      if targetNumber < chain.index then
        (.error "Message number is behind current chain position", s)
      else if (targetNumber - chain.index).toNat > maxSkipKeys then
        (.error "Too many skipped messages", s)
      else
        let (chain, skipped) :=
          skipKeys P theirDh (targetNumber - chain.index).toNat chain s.skippedKeys
        let (key, chain) := chain.nextMessageKey P
        (.ok key, { s with receivingChain := some chain, skippedKeys := skipped })

/-- The key differs from the one last ratcheted to, or there is none yet. -/
def dhChanged (s : RatchetSession) (theirDh : Key) : Bool := s.theirDhPublic != some theirDh

/-- The session after the ratchet step `decrypt` takes when the key has changed. -/
def ratchetTo (P : Primitives) (newDhSecret : Key) (s : RatchetSession) (theirDh : Key) :
    RatchetSession :=
  if s.dhChanged theirDh then s.handleDhRatchet P newDhSecret theirDh else s

/-- `RatchetSession::decrypt`. -/
def decrypt (P : Primitives) (newDhSecret : Key) (s : RatchetSession) (theirDhPublic : Bytes)
    (messageNumber : UInt32) (nonce ciphertext aad : Bytes) :
    Outcome Bytes × RatchetSession :=
  if theirDhPublic.length ≠ 32 then (.err "Invalid DH public key length", s)
  else
    let theirDh := arrayAt 32 theirDhPublic 0
    match (s.ratchetTo P newDhSecret theirDh).getMessageKey P theirDh messageNumber with
    | (.error e, s) => (.err e, s)
    | (.ok messageKey, s) =>
      if nonce.length ≠ 24 then (.panicked, s)
      else
        match P.aeadDecrypt messageKey nonce aad ciphertext with
        | some plaintext => (.ok plaintext, s)
        | none => (.err "Decryption failed", s)

/-! ## What a failed decryption leaves behind -/

/-- The headers `decrypt` refuses before it touches the session: a malformed key,
or the current key with a number that is neither saved nor within reach of the
receiving chain. -/
def HeaderRejected (s : RatchetSession) (theirDhPublic : Bytes) (messageNumber : UInt32) :
    Prop :=
  theirDhPublic.length ≠ 32 ∨
    s.theirDhPublic = some (arrayAt 32 theirDhPublic 0) ∧
      (arrayAt 32 theirDhPublic 0, messageNumber) ∉ s.skippedKeys ∧
      ∀ chain, s.receivingChain = some chain →
        messageNumber < chain.index ∨ (messageNumber - chain.index).toNat > maxSkipKeys

section
variable (P : Primitives)

theorem index_next_add (chain : Chain) (k : Nat) :
    (chain.nextMessageKey P).2.index + UInt32.ofNat k = chain.index + UInt32.ofNat (k + 1) := by
  show chain.index + 1 + UInt32.ofNat k = _
  rw [UInt32.ofNat_add, UInt32.add_comm (UInt32.ofNat k), ← UInt32.add_assoc]
  rfl

theorem toNat_index_next (chain : Chain) (h : chain.index.toNat + 1 < 2 ^ 32) :
    (chain.nextMessageKey P).2.index.toNat = chain.index.toNat + 1 := by
  show (chain.index + 1).toNat = _
  exact Nat.mod_eq_of_lt h

theorem index_skipKeys (theirDh : Key) (k : Nat) :
    ∀ (chain : Chain) (skipped : SkippedKeys),
      (skipKeys P theirDh k chain skipped).1.index = chain.index + UInt32.ofNat k := by
  induction k with
  | zero =>
    intro chain skipped
    exact (UInt32.add_zero _).symm
  | succ k ih => simp_all [skipKeys, index_next_add]

/-- As many keys are skipped as there are numbers before the one asked for. -/
theorem index_skipKeys_sub (theirDh : Key) (n : UInt32) (chain : Chain) (skipped : SkippedKeys) :
    (skipKeys P theirDh (n - chain.index).toNat chain skipped).1.index = n := by
  rw [index_skipKeys, UInt32.ofNat_toNat, UInt32.add_comm, UInt32.sub_add_cancel]

/-- What looking up a message key can come to: it was saved, it is refused, or it is one of the
receiving chain. -/
inductive Lookup (P : Primitives) (s : RatchetSession) (theirDh : Key) (n : UInt32) :
    Except String Key × RatchetSession → Prop
  | saved {key : Key} (hsaved : s.skippedKeys.lookup (theirDh, n) = some key) :
      Lookup P s theirDh n
        (.ok key, { s with skippedKeys := s.skippedKeys.erase (theirDh, n) })
  | refused {e : String} (hnew : (theirDh, n) ∉ s.skippedKeys)
      (hout : ∀ chain, s.receivingChain = some chain →
        n < chain.index ∨ (n - chain.index).toNat > maxSkipKeys) :
      Lookup P s theirDh n (.error e, s)
  | reached {chain : Chain} (hnew : (theirDh, n) ∉ s.skippedKeys)
      (hchain : s.receivingChain = some chain) (hahead : ¬ n < chain.index)
      (hnear : ¬ (n - chain.index).toNat > maxSkipKeys) :
      Lookup P s theirDh n
        (.ok ((skipKeys P theirDh (n - chain.index).toNat chain s.skippedKeys).1.nextMessageKey
            P).1,
          { s with
            receivingChain := some ((skipKeys P theirDh (n - chain.index).toNat chain
              s.skippedKeys).1.nextMessageKey P).2
            skippedKeys := (skipKeys P theirDh (n - chain.index).toNat chain s.skippedKeys).2 })

theorem lookup_getMessageKey (s : RatchetSession) (theirDh : Key) (n : UInt32) :
    Lookup P s theirDh n (s.getMessageKey P theirDh n) := by
  unfold getMessageKey
  cases hsaved : s.skippedKeys.lookup (theirDh, n) with
  | some key => exact .saved hsaved
  | none =>
    have hnew := AList.lookup_eq_none.mp hsaved
    cases hchain : s.receivingChain with
    | none => exact .refused hnew fun chain h => by rw [hchain] at h; cases h
    | some chain =>
      have hrefused (h : n < chain.index ∨ (n - chain.index).toNat > maxSkipKeys) (e : String) :
          Lookup P s theirDh n (.error e, s) :=
        .refused hnew fun found hfound => by
          cases hchain.symm.trans hfound
          exact h
      dsimp only
      split
      next hbehind => exact hrefused (.inl hbehind) _
      next hahead =>
        split
        next hfar => exact hrefused (.inr hfar) _
        next hnear => exact .reached hnew hchain hahead hnear

end

variable {theirDh : Key} {P : Primitives} {s s' : RatchetSession} {n : UInt32}

theorem getMessageKey_ok_ne {key : Key} (h : s.getMessageKey P theirDh n = (.ok key, s')) :
    s' ≠ s := by
  have hlookup := lookup_getMessageKey P s theirDh n
  rw [h] at hlookup
  intro heq
  cases hlookup with
  | saved hsaved => grind [erase_ne_self, AList.lookup_isSome]
  | @reached chain _ hchain _ hnear =>
    -- the receiving chain now stands behind `n`, at most 257 further on
    have hrecv := congrArg (fun s => s.receivingChain.map Chain.index) heq
    simp only [hchain, Option.map_some, Option.some.injEq] at hrecv
    have hindex : n + 1 = chain.index := by
      rw [← hrecv]
      show n + 1 = (skipKeys P theirDh _ chain _).1.index + 1
      rw [index_skipKeys_sub]
    rw [← hindex] at hnear
    have hback : n - (n + 1) = -1 := by grind
    rw [hback] at hnear
    exact hnear (by decide)

theorem getMessageKey_error {e : String} (h : s.getMessageKey P theirDh n = (.error e, s')) :
    s' = s := by
  have hlookup := lookup_getMessageKey P s theirDh n
  rw [h] at hlookup
  cases hlookup with
  | refused => rfl

section
variable (P : Primitives) (s : RatchetSession)

/-- The lookup refuses exactly the numbers that are neither saved nor reachable. -/
theorem getMessageKey_isError_iff (theirDh : Key) (n : UInt32) :
    (∃ e, s.getMessageKey P theirDh n = (.error e, s)) ↔
      (theirDh, n) ∉ s.skippedKeys ∧ ∀ chain, s.receivingChain = some chain →
        n < chain.index ∨ (n - chain.index).toNat > maxSkipKeys := by
  have hlookup := lookup_getMessageKey P s theirDh n
  constructor
  · rintro ⟨e, he⟩
    rw [he] at hlookup
    cases hlookup with
    | refused hnew hout => exact ⟨hnew, hout⟩
  · rintro ⟨hnew, hout⟩
    generalize s.getMessageKey P theirDh n = out at hlookup ⊢
    cases hlookup with
    | saved hsaved => exact absurd (AList.lookup_isSome.mp (by rw [hsaved]; rfl)) hnew
    | refused => exact ⟨_, rfl⟩
    | reached _ hchain hahead hnear => exact ((hout _ hchain).elim hahead hnear).elim

theorem theirDhPublic_getMessageKey (theirDh : Key) (n : UInt32) :
    (s.getMessageKey P theirDh n).2.theirDhPublic = s.theirDhPublic := by
  have hlookup := lookup_getMessageKey P s theirDh n
  generalize s.getMessageKey P theirDh n = out at hlookup ⊢
  cases hlookup <;> rfl

theorem skippedKeys_ratchetTo (newDhSecret theirDh : Key) :
    (s.ratchetTo P newDhSecret theirDh).skippedKeys = s.skippedKeys := by
  unfold ratchetTo
  split <;> rfl

theorem theirDhPublic_ratchetTo (newDhSecret theirDh : Key) :
    (s.ratchetTo P newDhSecret theirDh).theirDhPublic = some theirDh := by
  unfold ratchetTo
  split
  next => rfl
  next h => simpa [dhChanged] using h

end

theorem ratchetTo_of_their (newDhSecret : Key) (h : s.theirDhPublic = some theirDh) :
    s.ratchetTo P newDhSecret theirDh = s := by
  unfold ratchetTo
  rw [if_neg (by simp [dhChanged, h])]

/-- Under the key the session is on, the message key is looked up and tried. -/
theorem decrypt_of_ok {newDhSecret key : Key} {nonce : Bytes} (h : s.theirDhPublic = some theirDh)
    (hget : s.getMessageKey P theirDh n = (.ok key, s')) (hnonce : nonce.length = 24)
    (ciphertext aad : Bytes) :
    s.decrypt P newDhSecret theirDh.toList n nonce ciphertext aad
      = (match P.aeadDecrypt key nonce aad ciphertext with
          | some plaintext => .ok plaintext
          | none => .err "Decryption failed", s') := by
  unfold decrypt
  rw [if_neg (by simp), arrayAt_toList]
  dsimp only
  rw [ratchetTo_of_their newDhSecret h, hget]
  dsimp only
  rw [if_neg (by simp [hnonce])]
  cases P.aeadDecrypt key nonce aad ciphertext with
  | none => rfl
  | some plaintext => rfl

theorem decrypt_of_error {newDhSecret : Key} {e : String} (h : s.theirDhPublic = some theirDh)
    (hget : s.getMessageKey P theirDh n = (.error e, s')) (nonce ciphertext aad : Bytes) :
    s.decrypt P newDhSecret theirDh.toList n nonce ciphertext aad = (.err e, s') := by
  unfold decrypt
  rw [if_neg (by simp), arrayAt_toList]
  dsimp only
  rw [ratchetTo_of_their newDhSecret h, hget]

section
variable (P : Primitives) (newDhSecret : Key) (s : RatchetSession)

/-- A message is read by the session that has ratcheted to its key. -/
theorem decrypt_ratchetTo (theirDh : Key) (n : UInt32) (nonce ciphertext aad : Bytes) :
    s.decrypt P newDhSecret theirDh.toList n nonce ciphertext aad
      = (s.ratchetTo P newDhSecret theirDh).decrypt P newDhSecret theirDh.toList n nonce ciphertext
          aad := by
  have hsame := ratchetTo_of_their (P := P) newDhSecret
    (theirDhPublic_ratchetTo P s newDhSecret theirDh)
  have hlen : ¬ theirDh.toList.length ≠ 32 := by simp
  unfold decrypt
  rw [if_neg hlen, if_neg hlen]
  simp only [arrayAt_toList, hsame]

/-- `decrypt` ends in the state that taking the message key left, whatever the
authentication then says. -/
theorem decrypt_snd {theirDhPublic : Bytes} (hlen : theirDhPublic.length = 32)
    (messageNumber : UInt32) (nonce ciphertext aad : Bytes) :
    (s.decrypt P newDhSecret theirDhPublic messageNumber nonce ciphertext aad).2
      = ((s.ratchetTo P newDhSecret (arrayAt 32 theirDhPublic 0)).getMessageKey P
          (arrayAt 32 theirDhPublic 0) messageNumber).2 := by
  unfold decrypt
  rw [if_neg (not_not.mpr hlen)]
  dsimp only
  split
  next hget => rw [hget]
  next hget => grind

end

/-- **Which failures are harmless.** After any failed `decrypt`, whatever the
nonce, the ciphertext and the associated data were, the session is unchanged
exactly when the header was one that is refused up front. Every other header
makes a forged message move the session: to a key the forger chose, or past a
message key the genuine message will need. -/
theorem decrypt_err_unchanged_iff (P : Primitives) (newDhSecret : Key) (s s' : RatchetSession)
    (theirDhPublic : Bytes) (messageNumber : UInt32) (nonce ciphertext aad : Bytes) (e : String)
    (h : s.decrypt P newDhSecret theirDhPublic messageNumber nonce ciphertext aad = (.err e, s')) :
    s' = s ↔ s.HeaderRejected theirDhPublic messageNumber := by
  unfold HeaderRejected
  by_cases hlen : theirDhPublic.length ≠ 32
  · grind [decrypt]
  · have hs' := decrypt_snd P newDhSecret s (Classical.not_not.mp hlen) messageNumber nonce
      ciphertext aad
    rw [h] at hs'
    dsimp only at hs'
    generalize arrayAt 32 theirDhPublic 0 = theirDh at hs' ⊢
    by_cases hchanged : s.dhChanged theirDh
    · -- a new key: the ratchet step has already replaced the old one
      have htheir : s.theirDhPublic ≠ some theirDh := by simpa [dhChanged] using hchanged
      have hmoved : s'.theirDhPublic = some theirDh := by
        rw [hs', ratchetTo, if_pos hchanged, theirDhPublic_getMessageKey]
        rfl
      refine ⟨fun heq => absurd (heq ▸ hmoved) htheir, fun hrej => ?_⟩
      exact absurd (hrej.resolve_left hlen).1 htheir
    · have htheir : s.theirDhPublic = some theirDh := by simpa [dhChanged] using hchanged
      rw [ratchetTo, if_neg hchanged] at hs'
      cases hget : s.getMessageKey P theirDh messageNumber with
      | mk result s₁ =>
        rw [hget] at hs'
        subst hs'
        cases result with
        | error e' =>
          obtain rfl := getMessageKey_error hget
          have hnone := (getMessageKey_isError_iff P _ _ _).mp ⟨e', hget⟩
          exact ⟨fun _ => .inr ⟨htheir, hnone⟩, fun _ => rfl⟩
        | ok key =>
          -- the key was handed out, and only then did the authentication fail
          refine ⟨fun heq => absurd heq (getMessageKey_ok_ne hget), fun hrej => ?_⟩
          obtain ⟨_, hnone⟩ := hrej.resolve_left hlen
          obtain ⟨e', he'⟩ := (getMessageKey_isError_iff P s theirDh messageNumber).mpr hnone
          rw [he'] at hget
          cases hget

/-! ## A small instance -/

/-- Primitives small enough to run: keys are derived by keeping the last 32
bytes, agreement is byte-wise addition and a ciphertext starts with its key. -/
def demoPrimitives : Primitives where
  deriveKey _ material := arrayAt 32 material (material.length - 32)
  hash _ := .replicate 32 0
  ed25519ToX25519Secret key := key
  publicKey secret := secret
  diffieHellman secret other := Vector.zipWith (· + ·) secret other
  aeadEncrypt key _ _ plaintext := some (key.toList ++ plaintext)
  aeadDecrypt key _ _ ciphertext :=
    if ciphertext.take 32 = key.toList then some (ciphertext.drop 32) else none

/-- The key of 32 equal bytes. -/
def keyOfByte (b : UInt8) : Key := .replicate 32 b

def demoNonce : Bytes := List.replicate 24 0

/-- The sender of a first message. -/
def demoSender : RatchetSession :=
  initAsSender demoPrimitives (keyOfByte 1) (keyOfByte 2) (keyOfByte 3)

/-- The receiver before and after that message. -/
def demoFresh : RatchetSession :=
  initAsReceiver demoPrimitives (keyOfByte 2) (keyOfByte 1) (keyOfByte 4)

def demoReceiver : RatchetSession :=
  match (demoSender.encrypt demoPrimitives demoNonce [7] []).1 with
  | .error _ => demoFresh
  | .ok first =>
    (demoFresh.decrypt demoPrimitives (keyOfByte 10) first.ourDhPublic.toList first.messageNumber
      first.nonce first.ciphertext []).2

/-- The receiver's session after a forged message with an invented key. -/
def demoForged : Outcome Bytes × RatchetSession :=
  demoReceiver.decrypt demoPrimitives (keyOfByte 11) (keyOfByte 99).toList 0 demoNonce [] []

/-- The sender's second message. -/
def demoSecond : Except String RatchetEncryptResult :=
  ((demoSender.encrypt demoPrimitives demoNonce [7] []).2.encrypt demoPrimitives demoNonce [8] []).1

/-- A replay of the first message. -/
def demoReplay : Outcome Bytes × RatchetSession :=
  demoReceiver.decrypt demoPrimitives (keyOfByte 11) (keyOfByte 3).toList 0 demoNonce [] []

/-- A replayed message is refused up front and changes nothing. -/
theorem replay_leaves_session :
    demoReplay.1 = .err "Message number is behind current chain position" ∧
      demoReplay.2 = demoReceiver := by
  have hrun : demoReplay.1 = .err "Message number is behind current chain position" ∧
      demoReceiver.receivingChain.map Chain.index = some 1 ∧
      demoReceiver.theirDhPublic = some (arrayAt 32 (keyOfByte 3).toList 0) ∧
      (arrayAt 32 (keyOfByte 3).toList 0, 0) ∉ demoReceiver.skippedKeys := by decide +kernel
  obtain ⟨herr, hindex, htheir, hsaved⟩ := hrun
  refine ⟨herr, (decrypt_err_unchanged_iff demoPrimitives (keyOfByte 11) demoReceiver demoReplay.2
    (keyOfByte 3).toList 0 demoNonce [] [] _ (Prod.ext herr rfl)).mpr (.inr ⟨htheir, hsaved, ?_⟩)⟩
  intro chain hchain
  rw [hchain] at hindex
  have hone : chain.index = 1 := by simpa using hindex
  rw [hone]
  exact .inl (by decide)

/-- A forged message with an invented key fails and moves the session all the
same; the sender's next genuine message would have decrypted, and now does not. -/
theorem forged_message_breaks_session :
    demoForged.1 = .err "Decryption failed" ∧
      demoForged.2.theirDhPublic ≠ demoReceiver.theirDhPublic ∧
      ∃ second, demoSecond = .ok second ∧
        (demoReceiver.decrypt demoPrimitives (keyOfByte 12) second.ourDhPublic.toList
          second.messageNumber second.nonce second.ciphertext []).1 = .ok [8] ∧
        (demoForged.2.decrypt demoPrimitives (keyOfByte 12) second.ourDhPublic.toList
          second.messageNumber second.nonce second.ciphertext []).1 = .err "Decryption failed" := by
  have hforged : demoForged.1 = .err "Decryption failed" ∧
      demoForged.2.theirDhPublic ≠ demoReceiver.theirDhPublic := by decide +kernel
  exact ⟨hforged.1, hforged.2, _, rfl, by decide +kernel⟩

end RatchetSession

end Scm.Crypto
