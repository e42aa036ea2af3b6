import Scm.Core.ImportBackup

/-!
# Names of an identity — `core/src/iron_core.rs`, `resolve_identity`

An identity has three names: the hex form of its Ed25519 key, its identity id, which is the
hex BLAKE3 hash of the key, and its libp2p peer id. `resolve_identity` takes any of them to
the first. The first two look alike, 64 hex digits, and are told apart by whether the bytes
are a point of the curve; whatever does not look like that is parsed as a peer id.

An identity id is looked up. The core's own is compared with the hash of its key bytes; a
contact's with the hash of its `public_key` *text*. The text of a key is its hex form, so
that is the hash of 64 other bytes, and no contact is ever found by its identity id
(`resolves_iff`).

The text functions of the standard library, the curve and libp2p are parameters, with their
documented behaviour in `ResolveCrates.Lawful`.
-/

namespace Scm.Core

open List Bytes Crypto Store IdentityPrimitives

/-- `libp2p::identity::PublicKey`. -/
inductive Libp2pPublicKey where
  | ed25519 (key : Key)
  | other
  deriving DecidableEq, Repr

/-- The crates that names are read with. -/
structure ResolveCrates where
  trim : String → String
  toLowercase : String → String
  /-- `VerifyingKey::from_bytes(..).is_ok()`. -/
  isPoint : Key → Bool
  /-- `to_peer_id().to_string()` of an Ed25519 key. -/
  toPeerId : Key → String
  /-- `PeerId::from_str`: the code and the digest of the multihash. -/
  parsePeerId : String → Option (Nat × Bytes)
  /-- `PublicKey::try_decode_protobuf`. -/
  tryDecodeProtobuf : Bytes → Option Libp2pPublicKey

/-- Their documented behaviour. Trimming and folding touch an alphanumeric text only in the
case of its letters; no character but a hex digit folds to a hex digit, and no character to
two. The peer id of an Ed25519 key is 52 characters of base58, with the key in it. -/
structure ResolveCrates.Lawful (C : ResolveCrates) : Prop where
  trim_alphanum : ∀ text, (∀ c ∈ text.toList, c.isAlphanum = true) → C.trim text = text
  toLowercase_alphanum : ∀ text, (∀ c ∈ text.toList, c.isAlphanum = true) →
    (C.toLowercase text).toList = text.toList.map Char.toLower
  toLowercase_hex : ∀ text, isHex64 (C.toLowercase text) = true → 64 ≤ (textBytes text).length
  peerId_length : ∀ key, (C.toPeerId key).toList.length = 52
  peerId_alphanum : ∀ key, ∀ c ∈ (C.toPeerId key).toList, c.isAlphanum = true
  parse_toPeerId : ∀ key, C.isPoint key = true → ∃ digest,
    C.parsePeerId (C.toPeerId key) = some (0, digest) ∧
      C.tryDecodeProtobuf digest = some (.ed25519 key)

/-! ## The functions -/

namespace IdentityCore

section
variable (C : ResolveCrates) (P : IdentityPrimitives) {D : DeviceCrates}

/-- `extract_public_key_from_peer_id`. -/
def extractPublicKeyFromPeerId (peerId : String) : Except IronCoreError String :=
  match C.parsePeerId peerId with
  | none => .error .invalidInput
  | some (code, digest) =>
    if code ≠ 0 then .error .internal
    else
      match C.tryDecodeProtobuf digest with
      | some (.ed25519 key) => .ok (toHex key.toList)
      | some .other => .error .internal
      | none => .error .internal

/-- The text is the hex form of a point. -/
def isPublicKeyHex (text : String) : Bool :=
  match hexDecode text.toList with
  | some bytes => if h : bytes.length = 32 then C.isPoint ⟨bytes.toArray, size_toArray h⟩ else false
  | none => false

/-- The search for an identity id: the contacts, then the core's own. -/
def findIdentityId (core : IdentityCore D) (id : String) : Except IronCoreError String :=
  match core.contactManager.list.find? fun contact =>
      toHex (P.hash (textBytes contact.publicKey)).toList = id with
  | some contact => .ok (C.toLowercase contact.publicKey)
  | none =>
    match core.identity.identityId P with
    | some myId =>
      if C.toLowercase myId = id then
        match core.identity.publicKeyHex P with
        | some publicKeyHex => .ok publicKeyHex
        | none => .error .notInitialized
      else .error .invalidInput
    | none => .error .invalidInput

/-- `resolve_identity`. -/
def resolveIdentity (core : IdentityCore D) (anyId : String) : Except IronCoreError String :=
  let trimmed := C.toLowercase (C.trim anyId)
  if isHex64 trimmed then
    if isPublicKeyHex C trimmed then .ok trimmed
    else core.findIdentityId C P trimmed
  else extractPublicKeyFromPeerId C anyId

/-- `resolve_to_identity_id`. -/
def resolveToIdentityId (core : IdentityCore D) (anyId : String) : Except IronCoreError String :=
  match core.resolveIdentity C P anyId with
  | .error e => .error e
  | .ok publicKeyHex =>
    match hexDecode publicKeyHex.toList with
    | none => .error .invalidInput
    | some bytes => .ok (toHex (P.hash bytes).toList)

end

/-! ## The names -/

/-- The three names of a key. -/
inductive NameForm where
  | publicKeyHex
  | identityId
  | peerId
  deriving DecidableEq, Repr

def NameForm.name (C : ResolveCrates) (P : IdentityPrimitives) (key : Key) : NameForm → String
  | publicKeyHex => toHex key.toList
  | identityId => P.publicKeyIdentityId key.toList
  | peerId => C.toPeerId key

section
variable (C : ResolveCrates) (P : IdentityPrimitives) {D : DeviceCrates}

/-- Every name of the key leads to the key and to its identity id. -/
def Resolves (core : IdentityCore D) (key : Key) : Prop :=
  ∀ form : NameForm,
    core.resolveIdentity C P (form.name C P key) = .ok (toHex key.toList) ∧
    core.resolveToIdentityId C P (form.name C P key) = .ok (P.publicKeyIdentityId key.toList)

/-- The key is that of the core's own identity. -/
def IsOwn (core : IdentityCore D) (key : Key) : Prop :=
  core.identity.keys.map P.verifyingKey = some key

/-- What is hashed when the key's identity id is looked up, and the key. -/
def hashed (core : IdentityCore D) (key : Key) : Set Bytes :=
  {bytes | bytes = key.toList ∨ (∃ own, core.IsOwn P own ∧ bytes = own.toList) ∨
    ∃ contact ∈ core.contactManager.list, bytes = textBytes contact.publicKey}

end

section
variable {C : ResolveCrates} {P : IdentityPrimitives} {D : DeviceCrates} {core : IdentityCore D}
  {key : Key}

theorem toLowercase_toHex (hC : C.Lawful) (data : Bytes) :
    C.toLowercase (toHex data) = toHex data := by
  have hlower : ∀ c ∈ (toHex data).toList, c.toLower = c := forall_mem_toHex (by decide) data
  have hfold := hC.toLowercase_alphanum _ (forall_mem_toHex (by decide) data)
  rw [map_congr_left hlower, List.map_id'] at hfold
  exact String.toList_inj.mp hfold

theorem fold_toHex (hC : C.Lawful) (data : Bytes) :
    C.toLowercase (C.trim (toHex data)) = toHex data := by
  rw [hC.trim_alphanum _ (forall_mem_toHex (by decide) data), toLowercase_toHex hC]

theorem isPublicKeyHex_toHex (key : Key) : isPublicKeyHex C (toHex key.toList) = C.isPoint key := by
  unfold isPublicKeyHex
  rw [hexDecode_toHex]
  dsimp only
  simp [Vector.toList]

section
variable (hC : C.Lawful)
include hC

theorem isHex64_fold_peerId (key : Key) :
    isHex64 (C.toLowercase (C.trim (C.toPeerId key))) = false := by
  refine decide_eq_false fun h => ?_
  have hlength := h.1
  rw [hC.trim_alphanum _ (hC.peerId_alphanum key),
    hC.toLowercase_alphanum _ (hC.peerId_alphanum key), length_map,
    hC.peerId_length key] at hlength
  omega

theorem resolveIdentity_publicKeyHex (hpoint : C.isPoint key = true) :
    core.resolveIdentity C P (toHex key.toList) = .ok (toHex key.toList) := by
  unfold resolveIdentity
  rw [fold_toHex hC, if_pos (isHex64_toHex key), isPublicKeyHex_toHex, if_pos hpoint]

theorem resolveIdentity_peerId (hpoint : C.isPoint key = true) :
    core.resolveIdentity C P (C.toPeerId key) = .ok (toHex key.toList) := by
  obtain ⟨digest, hparse, hdecode⟩ := hC.parse_toPeerId key hpoint
  unfold resolveIdentity extractPublicKeyFromPeerId
  dsimp only
  rw [isHex64_fold_peerId hC, hparse]
  dsimp only
  rw [hdecode]
  rfl

theorem resolveIdentity_identityId (hid : C.isPoint (P.hash key.toList) = false) :
    core.resolveIdentity C P (P.publicKeyIdentityId key.toList)
      = core.findIdentityId C P (P.publicKeyIdentityId key.toList) := by
  unfold resolveIdentity publicKeyIdentityId
  rw [fold_toHex hC, if_pos (isHex64_toHex _), isPublicKeyHex_toHex, hid]
  rfl

theorem findIdentityId_eq_ok_iff (hinj : Set.InjOn P.hash (core.hashed P key)) :
    core.findIdentityId C P (P.publicKeyIdentityId key.toList) = .ok (toHex key.toList) ↔
      core.IsOwn P key ∧ ∀ contact ∈ core.contactManager.list,
        textBytes contact.publicKey ≠ key.toList := by
  unfold findIdentityId publicKeyIdentityId
  cases hfind : core.contactManager.list.find? fun contact =>
      toHex (P.hash (textBytes contact.publicKey)).toList = toHex (P.hash key.toList).toList with
  | some contact =>
    -- a contact whose field spells the key's bytes, 32 of them, and not its hex form
    have hmem := List.mem_of_find?_eq_some hfind
    have hhash : P.hash (textBytes contact.publicKey) = P.hash key.toList := by
      grind [toHex_inj, Vector.toList_inj]
    have hbytes : textBytes contact.publicKey = key.toList :=
      hinj (.inr (.inr ⟨contact, hmem, rfl⟩)) (.inl rfl) hhash
    refine ⟨fun h => ?_, fun h => absurd hbytes (h.2 contact hmem)⟩
    have hlower := Except.ok.inj h
    have hlong := hC.toLowercase_hex contact.publicKey (by rw [hlower]; exact isHex64_toHex key)
    rw [hbytes, Vector.length_toList] at hlong
    omega
  | none =>
    have hcontacts : ∀ contact ∈ core.contactManager.list,
        textBytes contact.publicKey ≠ key.toList := by grind
    rw [and_iff_left hcontacts]
    unfold IsOwn IdentityManager.identityId IdentityManager.publicKeyHex
    cases hkeys : core.identity.keys with
    | none => exact ⟨nofun, nofun⟩
    | some signingKey =>
      dsimp only [Option.map_some]
      rw [identityId, publicKeyIdentityId, toLowercase_toHex hC, Option.some.injEq]
      constructor
      · intro h
        split at h
        next => exact Vector.toList_inj.mp (toHex_inj.mp (Except.ok.inj h))
        next => cases h
      · intro hown
        rw [hown, if_pos rfl]

end

theorem resolveToIdentityId_of_ok {anyId : String}
    (h : core.resolveIdentity C P anyId = .ok (toHex key.toList)) :
    core.resolveToIdentityId C P anyId = .ok (P.publicKeyIdentityId key.toList) := by
  unfold resolveToIdentityId
  rw [h]
  dsimp only
  rw [hexDecode_toHex]
  rfl

end

/-- **Whose names resolve.** For every core and every point `key` whose identity id is not a
point itself, where BLAKE3 has no collisions among what is hashed: the hex form, the
identity id and the peer id all lead to the key and to its identity id exactly when the key
is the core's own and no contact's `public_key` text has the bytes of the key. A contact's
identity id leads nowhere. -/
theorem resolves_iff (C : ResolveCrates) (hC : C.Lawful) (P : IdentityPrimitives) (D : DeviceCrates)
    (core : IdentityCore D) (key : Key) (hpoint : C.isPoint key = true)
    (hid : C.isPoint (P.hash key.toList) = false) (hinj : Set.InjOn P.hash (core.hashed P key)) :
    core.Resolves C P key ↔ core.IsOwn P key ∧
      ∀ contact ∈ core.contactManager.list, textBytes contact.publicKey ≠ key.toList := by
  rw [← findIdentityId_eq_ok_iff hC hinj, ← resolveIdentity_identityId hC hid]
  constructor
  · intro h
    exact (h .identityId).1
  · intro h form
    have hform : core.resolveIdentity C P (form.name C P key) = .ok (toHex key.toList) := by
      cases form with
      | publicKeyHex => exact resolveIdentity_publicKeyHex hC hpoint
      | identityId => exact h
      | peerId => exact resolveIdentity_peerId hC hpoint
    exact ⟨hform, resolveToIdentityId_of_ok hform⟩

/-! ## A small world -/

/-- The core's own key, and a contact's. -/
def demoOwnKey : Key := .replicate 32 1

def demoContactKey : Key := .replicate 32 3

/-- Two points, with peer ids of one letter. -/
def demoNames : ResolveCrates where
  trim := id
  toLowercase text := String.ofList (text.toList.map Char.toLower)
  isPoint key := key = demoOwnKey ∨ key = demoContactKey
  toPeerId key := String.ofList (List.replicate 52 (if key = demoOwnKey then 'A' else 'B'))
  parsePeerId text := some (0, if text.toList.head? = some 'A' then [1] else [3])
  tryDecodeProtobuf digest := digest.head?.map fun b => .ed25519 (.replicate 32 b)

theorem length_le_utf8ByteSize (cs : List Char) : cs.length ≤ (String.ofList cs).utf8ByteSize := by
  rw [String.utf8ByteSize_ofList]
  induction cs with
  | nil => exact Nat.le_refl 0
  | cons c cs ih =>
    have hsize := c.utf8Size_pos
    rw [String.utf8Len_cons, length_cons]
    omega

theorem demoNames_lawful : demoNames.Lawful where
  trim_alphanum _ _ := rfl
  toLowercase_alphanum _ _ := String.toList_ofList
  toLowercase_hex text h := by
    have hlength := (of_decide_eq_true h).1
    have hsize := length_le_utf8ByteSize text.toList
    rw [String.ofList_toList] at hsize
    have hfold : (demoNames.toLowercase text).toList = text.toList.map Char.toLower :=
      String.toList_ofList
    rw [hfold, length_map] at hlength
    have hbytes : (textBytes text).length = text.utf8ByteSize := rfl
    omega
  peerId_length key := by
    show (String.ofList (List.replicate 52 _)).toList.length = 52
    rw [String.toList_ofList, List.length_replicate]
  peerId_alphanum key := by
    show ∀ c ∈ (String.ofList (List.replicate 52 (if key = demoOwnKey then 'A' else 'B'))).toList,
      c.isAlphanum = true
    rw [String.toList_ofList]
    intro c hc
    rw [eq_of_mem_replicate hc]
    split <;> rfl
  parse_toPeerId key hpoint := by
    rcases of_decide_eq_true hpoint with rfl | rfl
    · exact ⟨[1], by decide +kernel, by decide +kernel⟩
    · exact ⟨[3], by decide +kernel, by decide +kernel⟩

/-- A hash that begins with the length. -/
def demoIdentity : IdentityPrimitives :=
  { demoImport.toIdentityPrimitives with
    hash := fun bytes => arrayAt 32 (UInt8.ofNat bytes.length :: bytes) 0 }

def demoContact : ContactRecord where
  peerId := "carol"
  nickname := none
  localNickname := none
  publicKey := toHex demoContactKey.toList
  addedAt := 0
  lastSeen := none
  notes := none
  lastKnownDeviceId := none

def demoNamed : IdentityCore demoDevice where
  identity := (IdentityManager.new.importKeyBytes demoMetadata demoOwnKey.toList).2
  ratchetSessions := .new
  contactManager := ContactManager.add ∅ demoContact
  bridgeContacts := none
  auditLog := []

theorem demoNamed_list : demoNamed.contactManager.list = [demoContact] :=
  mergeSort_singleton demoContact

theorem demoNamed_own {key : Key} : demoNamed.IsOwn demoIdentity key ↔ key = demoOwnKey := by
  show some demoOwnKey = some key ↔ _
  rw [Option.some.injEq, eq_comm]

theorem demoNamed_injOn {key : Key} (hkey : key = demoOwnKey ∨ key = demoContactKey) :
    Set.InjOn demoIdentity.hash (demoNamed.hashed demoIdentity key) := by
  have hmem : ∀ bytes ∈ demoNamed.hashed demoIdentity key,
      bytes ∈ [demoOwnKey.toList, demoContactKey.toList, textBytes demoContact.publicKey] := by
    rintro bytes (rfl | ⟨own, hown, rfl⟩ | ⟨contact, hcontact, rfl⟩)
    · rcases hkey with rfl | rfl
      · exact .head _
      · exact .tail _ (.head _)
    · rw [demoNamed_own.mp hown]
      exact .head _
    · rw [demoNamed_list] at hcontact
      rw [mem_singleton.mp hcontact]
      exact .tail _ (.tail _ (.head _))
  have hall : ∀ a ∈ [demoOwnKey.toList, demoContactKey.toList, textBytes demoContact.publicKey],
      ∀ b ∈ [demoOwnKey.toList, demoContactKey.toList, textBytes demoContact.publicKey],
        demoIdentity.hash a = demoIdentity.hash b → a = b := by decide +kernel
  exact fun a ha b hb => hall a (hmem a ha) b (hmem b hb)

/-- The core's own names resolve. -/
theorem resolves_iff_demo : demoNamed.Resolves demoNames demoIdentity demoOwnKey := by
  refine (resolves_iff demoNames demoNames_lawful demoIdentity demoDevice demoNamed demoOwnKey
    (by decide +kernel) (by decide +kernel) (demoNamed_injOn (.inl rfl))).mpr
    ⟨demoNamed_own.mpr rfl, fun contact hcontact => ?_⟩
  rw [demoNamed_list] at hcontact
  rw [mem_singleton.mp hcontact]
  decide +kernel

/-- The contact is there, with the hex form of its key, and its identity id is refused. -/
theorem contact_id_refused :
    demoContact ∈ demoNamed.contactManager.list ∧ IsHexOf demoContact.publicKey demoContactKey ∧
      demoNames.isPoint demoContactKey = true ∧
      demoNamed.resolveIdentity demoNames demoIdentity
        (demoIdentity.publicKeyIdentityId demoContactKey.toList) = .error .invalidInput := by
  refine ⟨?_, hexDecode_toHex _, by decide +kernel, ?_⟩
  · rw [demoNamed_list]
    exact mem_singleton_self _
  · unfold resolveIdentity findIdentityId
    decide +kernel

end IdentityCore

end Scm.Core
