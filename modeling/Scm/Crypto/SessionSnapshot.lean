import Scm.Crypto.SessionRuns
import Scm.Store.RelayRegistry

/-!
# A session written down and read back — `core/src/crypto/session_manager.rs`

`SerializableRatchetSession` is how a session survives a restart of the app: its keys as
hex, its two chains, its counters. `into_session` decodes what `from_session` wrote, so
everything that is written comes back (`intoSession_fromSession`).

The keys of skipped messages are not written, and that can always be noticed
(`sameFuture_iff`). A session that holds a saved key reads a message sealed under it; the
restored session refuses the number, or else finds it on the receiving chain, from which the
first session could read the message once more.
-/

namespace Scm.Crypto

open AList Bytes Collections Store RatchetSession

/-! ## The format -/

structure ChainState where
  chainKeyHex : String
  index : UInt32
  deriving DecidableEq, Repr

structure SerializableRatchetSession where
  ourDhSecretHex : String
  ourDhPublicHex : String
  theirDhPublicHex : Option String
  rootKeyHex : String
  sendingChain : Option ChainState
  receivingChain : Option ChainState
  dhStepCount : UInt32
  initialized : Bool
  hasIdentitySecret : Bool
  identitySecretHex : Option String
  deriving DecidableEq, Repr

/-- `hex::encode` of a key. -/
def encodeKey (key : Key) : String := toHex key.toList

/-- A key field: `hex::decode`, then the check of its length. `hexError` is the text of
the `hex` crate's error. -/
def decodeKey (hexError : String → String) (field value : String) : Except String Key :=
  match hexDecode value.toList with
  | none => .error ("Invalid " ++ field ++ "_hex: " ++ hexError value)
  | some bytes =>
    if bytes.length ≠ 32 then .error (field ++ " must be 32 bytes")
    else .ok (arrayAt 32 bytes 0)

/-- The bytes up to the first pair of characters that is not hex. -/
def decodedBytes : List Char → Bytes
  | hi :: lo :: rest =>
    match hexValue hi, hexValue lo with
    | some h, some l => UInt8.ofNat (16 * h + l) :: decodedBytes rest
    | _, _ => []
  | _ => []

/-- `hex::decode_to_slice` into 32 zero bytes, its result dropped. A text of another length
leaves the zeros; a bad character ends the decoding there. -/
def decodeToSlice (value : String) : Key :=
  if value.utf8ByteSize = 64 then arrayAt 32 (decodedBytes value.toList) 0
  else .replicate 32 0

namespace ChainState

def ofChain (chain : Chain) : ChainState := ⟨encodeKey chain.chainKey, chain.index⟩

/-- `Chain::new_with_index` of the decoded key. -/
def toChain (state : ChainState) : Chain := ⟨decodeToSlice state.chainKeyHex, state.index⟩

end ChainState

namespace SerializableRatchetSession

/-- `SerializableRatchetSession::from_session`. -/
def fromSession (session : RatchetSession) : SerializableRatchetSession where
  ourDhSecretHex := encodeKey session.ourDhSecret
  ourDhPublicHex := encodeKey session.ourDhPublic
  theirDhPublicHex := session.theirDhPublic.map encodeKey
  rootKeyHex := encodeKey session.rootKey
  sendingChain := session.sendingChain.map .ofChain
  receivingChain := session.receivingChain.map .ofChain
  dhStepCount := session.dhStepCount
  initialized := session.initialized
  hasIdentitySecret := session.ourIdentitySecret.isSome
  identitySecretHex := session.ourIdentitySecret.map encodeKey

/-- `SerializableRatchetSession::into_session`; `has_identity_secret` is not read.
`RatchetSession::reconstruct` starts with an empty store of skipped keys. -/
def intoSession (hexError : String → String) (snapshot : SerializableRatchetSession) :
    Except String RatchetSession := do
  let ourDhSecret ← decodeKey hexError "our_dh_secret" snapshot.ourDhSecretHex
  let ourDhPublic ← decodeKey hexError "our_dh_public" snapshot.ourDhPublicHex
  let theirDhPublic ← snapshot.theirDhPublicHex.mapM (decodeKey hexError "their_dh_public")
  let rootKey ← decodeKey hexError "root_key" snapshot.rootKeyHex
  -- a chain key that does not decode is not an error here, unlike every other key
  let sendingChain := snapshot.sendingChain.map ChainState.toChain
  let receivingChain := snapshot.receivingChain.map ChainState.toChain
  let ourIdentitySecret ← snapshot.identitySecretHex.mapM (decodeKey hexError "identity_secret")
  return {
    ourDhSecret, ourDhPublic, theirDhPublic, rootKey, sendingChain, receivingChain
    dhStepCount := snapshot.dhStepCount
    skippedKeys := ∅
    initialized := snapshot.initialized
    ourIdentitySecret }

end SerializableRatchetSession

/-! ## What is written comes back -/

section
variable (hexError : String → String) (field : String)

theorem decodeKey_encodeKey (key : Key) : decodeKey hexError field (encodeKey key) = .ok key := by
  unfold decodeKey encodeKey
  rw [hexDecode_toHex]
  dsimp only
  rw [if_neg (by simp), arrayAt_toList]

theorem decodedBytes_of_hexDecode {cs : List Char} {data : Bytes}
    (h : hexDecode cs = some data) : decodedBytes cs = data := by
  induction cs using hexDecode.induct generalizing data with
  | case1 =>
    cases h
    rfl
  | case2 => cases h
  | case3 hi lo rest ih =>
    obtain ⟨a, b, bytes, ha, hb, hrest, rfl⟩ := exists_of_hexDecode_cons_cons h
    unfold decodedBytes
    rw [ha, hb, ih hrest]

theorem decodeToSlice_of_hexDecode {value : String} {key : Key}
    (h : hexDecode value.toList = some key.toList) : decodeToSlice value = key := by
  -- 32 bytes are 64 characters, so the length check passes
  have hsize := utf8ByteSize_of_hexDecode h
  rw [String.ofList_toList, Vector.length_toList] at hsize
  unfold decodeToSlice
  rw [if_pos hsize, decodedBytes_of_hexDecode h, arrayAt_toList]

theorem decodeToSlice_encodeKey (key : Key) : decodeToSlice (encodeKey key) = key :=
  decodeToSlice_of_hexDecode (hexDecode_toHex key.toList)

theorem toChain_ofChain (chain : Chain) : (ChainState.ofChain chain).toChain = chain :=
  congrArg (fun key => (⟨key, chain.index⟩ : Chain)) (decodeToSlice_encodeKey chain.chainKey)

theorem map_toChain_ofChain (chain : Option Chain) :
    (chain.map ChainState.ofChain).map ChainState.toChain = chain := by
  cases chain with
  | none => rfl
  | some chain => exact congrArg some (toChain_ofChain chain)

theorem mapM_decodeKey (key : Option Key) :
    (key.map encodeKey).mapM (decodeKey hexError field) = .ok key := by
  cases key with
  | none => rfl
  | some key => simp_all [decodeKey_encodeKey]

/-- The session without its skipped keys. -/
def RatchetSession.forgetSkipped (s : RatchetSession) : RatchetSession :=
  { s with skippedKeys := ∅ }

theorem intoSession_fromSession (s : RatchetSession) :
    (SerializableRatchetSession.fromSession s).intoSession hexError = .ok s.forgetSkipped := by
  unfold SerializableRatchetSession.intoSession SerializableRatchetSession.fromSession
  dsimp only
  simp only [decodeKey_encodeKey, mapM_decodeKey, map_toChain_ofChain]
  rfl

end

/-! ## Later calls -/

def SessionCall.IsMessage : SessionCall → Prop
  | .encrypt _ _ _ | .decrypt _ _ _ _ _ _ => True
  | .forceRatchet _ => False

namespace RatchetSession

section
variable (P : Primitives)

/-- What a sequence of calls returns. -/
def replies : RatchetSession → List SessionCall → List SessionReply
  | _, [] => []
  | s, call :: calls => (s.answer P call).1 :: replies (s.answer P call).2 calls

/-- Every later sequence of encrypts and decrypts, with the same random bytes, returns the
same. -/
def SameFuture (s s' : RatchetSession) : Prop :=
  ∀ calls : List SessionCall, (∀ call ∈ calls, call.IsMessage) →
    s.replies P calls = s'.replies P calls

end

variable {P : Primitives} {s s' : RatchetSession} {d : Key} {n : UInt32}

/-- The chain that skipping leaves does not depend on what was saved. -/
theorem skipKeys_fst (k : Nat) :
    ∀ (chain : Chain) (skipped skipped' : SkippedKeys),
      (skipKeys P d k chain skipped).1 = (skipKeys P d k chain skipped').1 := by
  induction k with
  | zero => exact fun _ _ _ => rfl
  | succ k ih => exact fun chain _ _ => ih _ _ _

/-- A number that is not saved is looked for on the receiving chain only. -/
theorem getMessageKey_fst_congr (hs : (d, n) ∉ s.skippedKeys) (hs' : (d, n) ∉ s'.skippedKeys)
    (hchain : s.receivingChain = s'.receivingChain) :
    (s.getMessageKey P d n).1 = (s'.getMessageKey P d n).1 := by
  unfold getMessageKey
  rw [lookup_eq_none.mpr hs, lookup_eq_none.mpr hs', hchain]
  cases s'.receivingChain with
  | none => rfl
  | some chain =>
    dsimp only
    split
    next => rfl
    split
    next => rfl
    rw [skipKeys_fst _ chain s.skippedKeys s'.skippedKeys]

/-- A number that was read from the receiving chain is not read again. -/
theorem getMessageKey_again {key : Key} (hnew : (d, n) ∉ s.skippedKeys)
    (h : s.getMessageKey P d n = (.ok key, s')) :
    ∃ e, s'.getMessageKey P d n = (.error e, s') := by
  have hlookup := lookup_getMessageKey P s d n
  rw [h] at hlookup
  cases hlookup with
  | saved hsaved => exact absurd (lookup_isSome.mp (by rw [hsaved]; rfl)) hnew
  | @reached chain =>
    refine (getMessageKey_isError_iff P _ d n).mpr ⟨fun hmem => ?_, fun after hafter => ?_⟩
    · -- the numbers that were saved lie below `n`
      rcases mem_skipKeys_cases P d _ chain _ _ hmem with hold | ⟨j, hj, heq⟩
      · exact hnew hold
      · have hnumber : n = chain.index + UInt32.ofNat j := congrArg Prod.snd heq
        have hn : n - chain.index = UInt32.ofNat j := by
          rw [hnumber, UInt32.add_comm, UInt32.add_sub_cancel]
        rw [hn] at hj
        exact absurd hj (Nat.not_lt.mpr (Nat.mod_le _ _))
    · -- the chain stands after `n`: as a `u32` difference, that is too far
      cases hafter
      have hindex : ((skipKeys P d (n - chain.index).toNat chain s.skippedKeys).1.nextMessageKey
          P).2.index = n + 1 := by
        show (skipKeys P d _ chain _).1.index + 1 = n + 1
        rw [index_skipKeys_sub]
      have hback : n - (n + 1) = -1 := by grind
      rw [hindex, hback]
      exact .inr (by decide)

theorem ratchetTo_forgetSkipped (s : RatchetSession) (newDhSecret d : Key) :
    s.forgetSkipped.ratchetTo P newDhSecret d = (s.ratchetTo P newDhSecret d).forgetSkipped := by
  unfold ratchetTo
  show (if s.dhChanged d then _ else _) = _
  split <;> rfl

/-- Two sessions on one receiving chain, and only one of them holds the saved key: if a
message sealed under it gets the same answer from both, then not a second time. -/
theorem differ_at_second {key : Key} {ciphertext : Bytes} (htheir : s.theirDhPublic = some d)
    (htheir' : s'.theirDhPublic = some d) (hchain : s.receivingChain = s'.receivingChain)
    (hsaved : s.skippedKeys.lookup (d, n) = some key) (hnew : (d, n) ∉ s'.skippedKeys)
    (hopens : P.aeadDecrypt key demoNonce [] ciphertext = some [])
    (hfirst : (s.decrypt P d d.toList n demoNonce ciphertext []).1
      = (s'.decrypt P d d.toList n demoNonce ciphertext []).1) :
    ((s.decrypt P d d.toList n demoNonce ciphertext []).2.decrypt P d d.toList n demoNonce
        ciphertext []).1
      ≠ ((s'.decrypt P d d.toList n demoNonce ciphertext []).2.decrypt P d d.toList n demoNonce
        ciphertext []).1 := by
  have hnonce : demoNonce.length = 24 := by decide
  -- `s` reads the message with the saved key, which is then gone
  obtain ⟨left, hget, hleft, hgone, hsame⟩ : ∃ left, s.getMessageKey P d n = (.ok key, left) ∧
      left.theirDhPublic = some d ∧ (d, n) ∉ left.skippedKeys ∧
      left.receivingChain = s.receivingChain := by simp_all [getMessageKey]
  rw [decrypt_of_ok htheir hget hnonce, hopens] at hfirst ⊢
  cases hget' : s'.getMessageKey P d n with
  | mk result after =>
    cases result with
    | error e =>
      rw [decrypt_of_error htheir' hget'] at hfirst
      cases hfirst
    | ok other =>
      -- `s'` found a key on the chain, and is past it now
      rw [decrypt_of_ok htheir' hget' hnonce] at hfirst ⊢
      have hafter : after.theirDhPublic = some d := by
        rw [← htheir', ← theirDhPublic_getMessageKey P s' d n, hget']
      obtain ⟨e, hpast⟩ := getMessageKey_again hnew hget'
      -- `s` still has that key ahead of it
      have hsecond : left.getMessageKey P d n = (.ok other, (left.getMessageKey P d n).2) := by
        grind [getMessageKey_fst_congr]
      rw [decrypt_of_ok hleft hsecond hnonce, decrypt_of_error hafter hpast]
      cases hopen : P.aeadDecrypt other demoNonce [] ciphertext with
      | none => simp_all
      | some plaintext =>
        intro hboth
        cases hboth

/-- With a saved key there is a message that tells the two sessions apart, at its first
delivery or at its second. -/
theorem not_sameFuture_of_saved (hP : P.Correct) {key : Key}
    (hsaved : s.skippedKeys.lookup (d, n) = some key) : ¬ SameFuture P s s.forgetSkipped := by
  intro hsame
  -- the empty message, sealed under the saved key and delivered twice
  obtain ⟨ciphertext, _, hopens⟩ := hP.opens key demoNonce [] []
  have htwice := hsame [.decrypt d d.toList n demoNonce ciphertext [],
    .decrypt d d.toList n demoNonce ciphertext []] (by simp [SessionCall.IsMessage])
  have htheir := theirDhPublic_ratchetTo P s d d
  have hforgot : (s.ratchetTo P d d).forgetSkipped.theirDhPublic = some d := htheir
  simp only [replies, answer, List.cons.injEq, SessionReply.received.injEq] at htwice
  obtain ⟨hfirst, hsecond, _⟩ := htwice
  rw [decrypt_ratchetTo P d s, decrypt_ratchetTo P d s.forgetSkipped, ratchetTo_forgetSkipped]
    at hfirst hsecond
  exact differ_at_second htheir hforgot rfl (by rw [skippedKeys_ratchetTo]; exact hsaved)
    (notMem_empty _) hopens hfirst hsecond

/-- **What a restart loses.** Writing any session down and reading it back succeeds, and
the restored session answers every later sequence of encrypts and decrypts, with the same
random bytes, as the session itself would exactly when no skipped message keys were held. -/
theorem sameFuture_iff (P : Primitives) (hP : P.Correct) (hexError : String → String)
    (s : RatchetSession) :
    ∃ restored, (SerializableRatchetSession.fromSession s).intoSession hexError = .ok restored ∧
      (SameFuture P s restored ↔ s.skippedKeys = ∅) := by
  refine ⟨s.forgetSkipped, intoSession_fromSession hexError s, fun hsame => ?_, fun hempty => ?_⟩
  · refine Classical.byContradiction fun hne => ?_
    obtain ⟨⟨d, n⟩, hkey⟩ : ∃ pair, pair ∈ s.skippedKeys := by
      refine Classical.byContradiction fun hnone => hne (AList.ext ?_)
      exact List.eq_nil_iff_forall_not_mem.mpr fun entry hentry =>
        hnone ⟨entry.1, mem_keys.mpr (List.mem_map_of_mem hentry)⟩
    obtain ⟨key, hsaved⟩ := Option.isSome_iff_exists.mp (lookup_isSome.mpr hkey)
    exact not_sameFuture_of_saved hP hsaved hsame
  · have hwhole : s.forgetSkipped = s := by
      unfold forgetSkipped
      rw [← hempty]
    rw [hwhole]
    exact fun _ _ => rfl

/-- The receiver whose first message has not come yet, but whose second has. -/
def demoWaiting : RatchetSession :=
  match demoSecond with
  | .error _ => demoFresh
  | .ok second =>
    (demoFresh.decrypt demoPrimitives (keyOfByte 10) second.ourDhPublic.toList second.messageNumber
      second.nonce second.ciphertext []).2

theorem sameFuture_iff_demo :
    ∃ restored, (SerializableRatchetSession.fromSession demoReceiver).intoSession id
      = .ok restored ∧
      SameFuture demoPrimitives demoReceiver restored := by
  obtain ⟨restored, hrestored, hsame⟩ :=
    sameFuture_iff demoPrimitives demoPrimitives_correct id demoReceiver
  have hempty : len demoReceiver.skippedKeys = 0 := by decide +kernel
  exact ⟨restored, hrestored, hsame.mpr (AList.ext (List.eq_nil_of_length_eq_zero hempty))⟩

/-- The first message arrives after a restart: its key was saved, and is gone. -/
theorem late_message_lost :
    ∃ first restored, (demoSender.encrypt demoPrimitives demoNonce [7] []).1 = .ok first ∧
      (SerializableRatchetSession.fromSession demoWaiting).intoSession id = .ok restored ∧
      (demoWaiting.decrypt demoPrimitives (keyOfByte 12) first.ourDhPublic.toList
        first.messageNumber first.nonce first.ciphertext []).1 = .ok [7] ∧
      (restored.decrypt demoPrimitives (keyOfByte 12) first.ourDhPublic.toList
        first.messageNumber first.nonce first.ciphertext []).1
          = .err "Message number is behind current chain position" :=
  ⟨_, demoWaiting.forgetSkipped, rfl, intoSession_fromSession id demoWaiting, by decide +kernel,
    by decide +kernel⟩

end RatchetSession

end Scm.Crypto
