import Scm.Bincode

/-!
# Signed registrations — `core/src/transport/behaviour.rs`

A device registers and deregisters by signed messages. What is signed are the bincode
bytes of the payload, and nothing in them says which of the two kinds it is. The kinds
are apart all the same: both begin with two strings, and after equal strings a
registration goes on with eight bytes, a deregistration with one byte or with nine and
more (`signature_for_one_message`).

The UUID parser, the hash and the signatures are parameters (`SigningPlatform`). That
`Uuid::parse_str` refuses long texts is all that is used of it.
-/

namespace Scm.Transport

open Bytes Bincode

/-- Library functions behind the signed messages. `parseUuid` is `Uuid::parse_str`,
`verify` is `IdentityKeys::verify`, `none` where that is an error. -/
structure SigningPlatform (Keys : Type) where
  publicKey : Keys → Bytes
  sign : Keys → Bytes → Bytes
  verify : Bytes → Bytes → Bytes → Option Bool
  parseUuid : String → Option Bytes
  blake3 : Bytes → Vector UInt8 32

variable {Keys : Type} (S : SigningPlatform Keys)

/-! ## Checks -/

/-- `u8::is_ascii_hexdigit`. -/
def isAsciiHexdigit (b : UInt8) : Bool :=
  48 ≤ b ∧ b ≤ 57 ∨ 65 ≤ b ∧ b ≤ 70 ∨ 97 ≤ b ∧ b ≤ 102

/-- `validate_identity_id`. -/
def validateIdentityId (identityId error : String) : Except String Unit :=
  if identityId.utf8ByteSize ≠ 64 ∨ ¬ identityId.toUTF8.data.toList.all isAsciiHexdigit then
    .error error
  else .ok ()

/-- `validate_uuid_v4`; the version is the high half of the seventh byte. -/
def validateUuidV4 (value error : String) : Except String Unit :=
  match S.parseUuid value with
  | none => .error error
  | some uuid => if (uuid.getD 6 0).toNat / 16 ≠ 4 then .error error else .ok ()

/-- `validate_signature_bytes`. -/
def validateSignatureBytes (signature : Bytes) (error : String) : Except String Unit :=
  if signature.length ≠ 64 then .error error else .ok ()

/-- `str::eq_ignore_ascii_case`. -/
def eqIgnoreAsciiCase (a b : String) : Prop := a.toList.map Char.toLower = b.toList.map Char.toLower

instance (a b : String) : Decidable (eqIgnoreAsciiCase a b) := inferInstanceAs (Decidable (_ = _))

/-- `validate_identity_owner`. -/
def validateIdentityOwner (publicKey : Bytes) (claimedIdentityId mismatchError : String) :
    Except String Unit :=
  if eqIgnoreAsciiCase (toHex (S.blake3 publicKey).toList) claimedIdentityId then .ok ()
  else .error mismatchError

/-- `IdentityKeys::verify` as both requests use it: an error and a refusal are answered
alike. -/
def validateSignature (bytes signature publicKey : Bytes) (error : String) :
    Except String Unit :=
  match S.verify bytes signature publicKey with
  | some true => .ok ()
  | _ => .error error

/-! ## Payloads and requests -/

@[ext] structure RegistrationPayload where
  identityId : String
  deviceId : String
  seniorityTs : UInt64
  deriving DecidableEq, Repr

@[ext] structure DeregistrationPayload where
  identityId : String
  fromDeviceId : String
  targetDeviceId : Option String
  deriving DecidableEq, Repr

/-- `RegistrationPayload::canonical_bytes`; writing to memory does not fail. -/
def RegistrationPayload.canonicalBytes (p : RegistrationPayload) : Bytes :=
  putString p.identityId ++ (putString p.deviceId ++ leBytes 8 p.seniorityTs.toNat)

/-- `DeregistrationPayload::canonical_bytes`. -/
def DeregistrationPayload.canonicalBytes (p : DeregistrationPayload) : Bytes :=
  putString p.identityId ++ (putString p.fromDeviceId ++ putOption putString p.targetDeviceId)

/-- `RegistrationPayload::validate_fields`. -/
def RegistrationPayload.validateFields (p : RegistrationPayload) : Except String Unit := do
  validateIdentityId p.identityId "registration_identity_id_invalid"
  validateUuidV4 S p.deviceId "registration_device_id_invalid"
  if p.seniorityTs = 0 then .error "registration_seniority_invalid"

/-- `DeregistrationPayload::validate_fields`: the target is compared with the source as a
UUID. -/
def DeregistrationPayload.validateFields (p : DeregistrationPayload) : Except String Unit := do
  validateIdentityId p.identityId "deregistration_identity_id_invalid"
  validateUuidV4 S p.fromDeviceId "deregistration_from_device_id_invalid"
  match p.targetDeviceId with
  | none => .ok ()
  | some targetDeviceId =>
    validateUuidV4 S targetDeviceId "deregistration_target_device_id_invalid"
    match S.parseUuid p.fromDeviceId, S.parseUuid targetDeviceId with
    | none, _ => .error "deregistration_from_device_id_invalid"
    | _, none => .error "deregistration_target_device_id_invalid"
    | some fromUuid, some targetUuid =>
      if targetUuid = fromUuid then .error "deregistration_target_matches_source" else .ok ()

@[ext] structure RegistrationRequest where
  payload : RegistrationPayload
  signature : Bytes
  deriving DecidableEq, Repr

@[ext] structure DeregistrationRequest where
  payload : DeregistrationPayload
  signature : Bytes
  deriving DecidableEq, Repr

/-- `keys.identity_id()`. -/
def identityIdOf (keys : Keys) : String := toHex (S.blake3 (S.publicKey keys)).toList

/-- `RegistrationRequest::new_signed`. -/
def RegistrationRequest.newSigned (keys : Keys) (deviceId : String) (seniorityTs : UInt64) :
    Except String RegistrationRequest := do
  let payload : RegistrationPayload := { identityId := identityIdOf S keys, deviceId, seniorityTs }
  payload.validateFields S
  return { payload, signature := S.sign keys payload.canonicalBytes }

/-- `DeregistrationRequest::new_signed`. -/
def DeregistrationRequest.newSigned (keys : Keys) (fromDeviceId : String)
    (targetDeviceId : Option String) : Except String DeregistrationRequest := do
  let payload : DeregistrationPayload :=
    { identityId := identityIdOf S keys, fromDeviceId, targetDeviceId }
  payload.validateFields S
  return { payload, signature := S.sign keys payload.canonicalBytes }

/-- `RegistrationRequest::verify_for_public_key`. -/
def RegistrationRequest.verifyForPublicKey (r : RegistrationRequest) (publicKey : Bytes) :
    Except String Unit := do
  r.payload.validateFields S
  validateSignatureBytes r.signature "registration_signature_invalid"
  validateIdentityOwner S publicKey r.payload.identityId "registration_identity_mismatch"
  validateSignature S r.payload.canonicalBytes r.signature publicKey
    "registration_signature_invalid"

/-- `DeregistrationRequest::verify_for_public_key`. -/
def DeregistrationRequest.verifyForPublicKey (r : DeregistrationRequest) (publicKey : Bytes) :
    Except String Unit := do
  r.payload.validateFields S
  validateSignatureBytes r.signature "deregistration_signature_invalid"
  validateIdentityOwner S publicKey r.payload.identityId "deregistration_identity_mismatch"
  validateSignature S r.payload.canonicalBytes r.signature publicKey
    "deregistration_signature_invalid"

/-- The message on `/sc/registration/1.0.0`. -/
inductive RegistrationMessage where
  | register (request : RegistrationRequest)
  | deregister (request : DeregistrationRequest)
  deriving DecidableEq, Repr

namespace RegistrationMessage

def signature : RegistrationMessage → Bytes
  | register request => request.signature
  | deregister request => request.signature

/-- What is signed. -/
def canonicalBytes : RegistrationMessage → Bytes
  | register request => request.payload.canonicalBytes
  | deregister request => request.payload.canonicalBytes

/-- `verify_registration_message`, with the key that the sender's peer id contains. -/
def verify : RegistrationMessage → Bytes → Except String Unit
  | register request => request.verifyForPublicKey S
  | deregister request => request.verifyForPublicKey S

/-- The message was made by one of the two `new_signed`. -/
inductive Made (keys : Keys) : RegistrationMessage → Prop
  | register {deviceId : String} {seniorityTs : UInt64} {request : RegistrationRequest} :
      RegistrationRequest.newSigned S keys deviceId seniorityTs = .ok request →
      Made keys (.register request)
  | deregister {fromDeviceId : String} {targetDeviceId : Option String}
      {request : DeregistrationRequest} :
      DeregistrationRequest.newSigned S keys fromDeviceId targetDeviceId = .ok request →
      Made keys (.deregister request)

end RegistrationMessage

/-! ## What the checks give -/

/-- `Uuid::parse_str` knows four forms of a UUID, the longest has 45 bytes. -/
def SigningPlatform.ShortUuids : Prop :=
  ∀ text uuid, S.parseUuid text = some uuid → text.utf8ByteSize ≤ 45

variable {S}

theorem ok_of_bind {α β : Type} {x : Except String α} {f : α → Except String β} {b : β}
    (h : (x >>= f) = .ok b) : ∃ a, x = .ok a ∧ f a = .ok b := by
  cases x with
  | error e => cases h
  | ok a => exact ⟨a, rfl, h⟩

theorem utf8ByteSize_of_validateIdentityId {identityId error : String} {u : Unit}
    (h : validateIdentityId identityId error = .ok u) : identityId.utf8ByteSize = 64 := by
  unfold validateIdentityId at h
  split at h
  next => cases h
  next hvalid => exact Classical.byContradiction fun hne => hvalid (.inl hne)

section
variable (hS : S.ShortUuids)
include hS

theorem short_of_validateUuidV4 {value error : String} {u : Unit}
    (h : validateUuidV4 S value error = .ok u) : value.utf8ByteSize < 2 ^ 64 := by
  unfold validateUuidV4 at h
  split at h
  next => cases h
  next uuid hparse => exact Nat.lt_of_le_of_lt (hS value uuid hparse) (by decide)

variable {p : RegistrationPayload}

theorem RegistrationPayload.short_of_valid {u : Unit} (h : p.validateFields S = .ok u) :
    p.identityId.utf8ByteSize < 2 ^ 64 ∧ p.deviceId.utf8ByteSize < 2 ^ 64 := by
  obtain ⟨_, hid, h⟩ := ok_of_bind h
  obtain ⟨_, hdevice, _⟩ := ok_of_bind h
  rw [utf8ByteSize_of_validateIdentityId hid]
  exact ⟨by decide, short_of_validateUuidV4 hS hdevice⟩

theorem DeregistrationPayload.short_of_valid {p : DeregistrationPayload} {u : Unit}
    (h : p.validateFields S = .ok u) :
    p.identityId.utf8ByteSize < 2 ^ 64 ∧ p.fromDeviceId.utf8ByteSize < 2 ^ 64 ∧
      ∀ target, p.targetDeviceId = some target → target.utf8ByteSize < 2 ^ 64 := by
  obtain ⟨_, hid, h⟩ := ok_of_bind h
  obtain ⟨_, hfrom, h⟩ := ok_of_bind h
  rw [utf8ByteSize_of_validateIdentityId hid]
  refine ⟨by decide, short_of_validateUuidV4 hS hfrom, fun target htarget => ?_⟩
  rw [htarget] at h
  obtain ⟨_, hvalid, _⟩ := ok_of_bind h
  exact short_of_validateUuidV4 hS hvalid

/-! ## What is signed says what it is -/

theorem RegistrationPayload.eq_of_canonicalBytes {q : RegistrationPayload}
    (hp : p.validateFields S = .ok ()) (hq : q.validateFields S = .ok ())
    (h : p.canonicalBytes = q.canonicalBytes) : p = q := by
  obtain ⟨hpid, hpdevice⟩ := short_of_valid hS hp
  obtain ⟨hqid, hqdevice⟩ := short_of_valid hS hq
  obtain ⟨hid, h⟩ := putString_append_unique hpid hqid h
  obtain ⟨hdevice, h⟩ := putString_append_unique hpdevice hqdevice h
  have hts : p.seniorityTs = q.seniorityTs := by
    have hread := u64_append p.seniorityTs []
    rw [h, u64_append] at hread
    exact (congrArg Prod.fst (Option.some.inj hread)).symm
  exact RegistrationPayload.ext hid hdevice hts

theorem DeregistrationPayload.eq_of_canonicalBytes {p q : DeregistrationPayload}
    (hp : p.validateFields S = .ok ()) (hq : q.validateFields S = .ok ())
    (h : p.canonicalBytes = q.canonicalBytes) : p = q := by
  obtain ⟨hpid, hpfrom, hptarget⟩ := short_of_valid hS hp
  obtain ⟨hqid, hqfrom, hqtarget⟩ := short_of_valid hS hq
  obtain ⟨hid, h⟩ := putString_append_unique hpid hqid h
  obtain ⟨hfrom, h⟩ := putString_append_unique hpfrom hqfrom h
  have htarget : p.targetDeviceId = q.targetDeviceId := by
    have hread := option_append fun target ht => string_append (hptarget target ht) []
    have hread' := option_append fun target ht => string_append (hqtarget target ht) []
    rw [h, hread'] at hread
    exact (congrArg Prod.fst (Option.some.inj hread)).symm
  exact DeregistrationPayload.ext hid hfrom htarget

/-- After the two strings, a registration has eight bytes left; a deregistration has one,
or the tag and a string, which are nine at least. -/
theorem canonicalBytes_ne {q : DeregistrationPayload} (hp : p.validateFields S = .ok ())
    (hq : q.validateFields S = .ok ()) : p.canonicalBytes ≠ q.canonicalBytes := by
  intro h
  obtain ⟨hpid, hpdevice⟩ := RegistrationPayload.short_of_valid hS hp
  obtain ⟨hqid, hqfrom, _⟩ := DeregistrationPayload.short_of_valid hS hq
  obtain ⟨_, h⟩ := putString_append_unique hpid hqid h
  obtain ⟨_, h⟩ := putString_append_unique hpdevice hqfrom h
  have hlength := congrArg List.length h
  rw [leBytes_length] at hlength
  cases htarget : q.targetDeviceId with
  | none =>
    rw [htarget] at hlength
    exact absurd hlength (by decide)
  | some target => grind [putOption, putString, putBytes, leBytes_length]

end

/-! ## Signatures -/

/-- Nothing verifies with this signature but the bytes, whatever the key. -/
def OnlyFor (S : SigningPlatform Keys) (signature bytes : Bytes) : Prop :=
  ∀ publicKey other, S.verify other signature publicKey = some true → other = bytes

namespace RegistrationMessage

def Valid (S : SigningPlatform Keys) : RegistrationMessage → Prop
  | register request => request.payload.validateFields S = .ok ()
  | deregister request => request.payload.validateFields S = .ok ()

theorem Made.valid {keys : Keys} {message : RegistrationMessage} (h : Made S keys message) :
    message.Valid S := by
  cases h with
  | register h =>
    obtain ⟨_, hvalid, h⟩ := ok_of_bind h
    cases h
    exact hvalid
  | deregister h =>
    obtain ⟨_, hvalid, h⟩ := ok_of_bind h
    cases h
    exact hvalid

theorem verify_of_validateSignature {bytes signature publicKey : Bytes} {error : String} {u : Unit}
    (h : validateSignature S bytes signature publicKey error = .ok u) :
    S.verify bytes signature publicKey = some true := by
  unfold validateSignature at h
  split at h
  next hverify => exact hverify
  next => cases h

/-- What is accepted is valid, and its signature verifies for its bytes. -/
theorem of_verify {message : RegistrationMessage} {publicKey : Bytes}
    (h : message.verify S publicKey = .ok ()) :
    message.Valid S ∧ S.verify message.canonicalBytes message.signature publicKey = some true := by
  cases message with
  | register request =>
    obtain ⟨_, hvalid, h⟩ := ok_of_bind h
    obtain ⟨_, _, h⟩ := ok_of_bind h
    obtain ⟨_, _, h⟩ := ok_of_bind h
    exact ⟨hvalid, verify_of_validateSignature h⟩
  | deregister request =>
    obtain ⟨_, hvalid, h⟩ := ok_of_bind h
    obtain ⟨_, _, h⟩ := ok_of_bind h
    obtain ⟨_, _, h⟩ := ok_of_bind h
    exact ⟨hvalid, verify_of_validateSignature h⟩

/-- Valid messages with the same signed bytes and the same signature are the same. -/
theorem eq_of_canonicalBytes (hS : S.ShortUuids) {m m' : RegistrationMessage} (hm : m.Valid S)
    (hm' : m'.Valid S) (hbytes : m.canonicalBytes = m'.canonicalBytes)
    (hsignature : m.signature = m'.signature) : m = m' := by
  cases m with
  | register request =>
    cases m' with
    | register request' =>
      have hpayload := RegistrationPayload.eq_of_canonicalBytes hS hm hm' hbytes
      exact congrArg _ (RegistrationRequest.ext hpayload hsignature)
    | deregister request' => exact absurd hbytes (canonicalBytes_ne hS hm hm')
  | deregister request =>
    cases m' with
    | register request' => exact absurd hbytes.symm (canonicalBytes_ne hS hm' hm)
    | deregister request' =>
      have hpayload := DeregistrationPayload.eq_of_canonicalBytes hS hm hm' hbytes
      exact congrArg _ (DeregistrationRequest.ext hpayload hsignature)

/-- **On valid payloads the signed bytes are injective, for each kind and across the two
kinds. So if the signature of a message made by `new_signed` verifies for the bytes it was
made for only, then a message with that signature that a relay accepts, for any key and
of either kind, is that message.** -/
theorem signature_for_one_message (hS : S.ShortUuids) :
    (∀ p q : RegistrationPayload, p.validateFields S = .ok () → q.validateFields S = .ok () →
      p.canonicalBytes = q.canonicalBytes → p = q) ∧
    (∀ p q : DeregistrationPayload, p.validateFields S = .ok () → q.validateFields S = .ok () →
      p.canonicalBytes = q.canonicalBytes → p = q) ∧
    (∀ (p : RegistrationPayload) (q : DeregistrationPayload), p.validateFields S = .ok () →
      q.validateFields S = .ok () → p.canonicalBytes ≠ q.canonicalBytes) ∧
    ∀ (keys : Keys) (signed message : RegistrationMessage) (publicKey : Bytes),
      Made S keys signed → OnlyFor S signed.signature signed.canonicalBytes →
      message.signature = signed.signature → message.verify S publicKey = .ok () →
      message = signed := by
  refine ⟨fun p q => RegistrationPayload.eq_of_canonicalBytes hS,
    fun p q => DeregistrationPayload.eq_of_canonicalBytes hS, fun p q => canonicalBytes_ne hS, ?_⟩
  intro keys signed message publicKey hmade honly hsignature haccepted
  obtain ⟨hvalid, hverify⟩ := of_verify haccepted
  rw [hsignature] at hverify
  exact eq_of_canonicalBytes hS hvalid hmade.valid (honly publicKey _ hverify) hsignature

def demoDevice : String := "11111111-1111-4111-8111-111111111111"

def demoPayload : RegistrationPayload where
  identityId := toHex (List.replicate 32 0)
  deviceId := demoDevice
  seniorityTs := 1

/-- One key, one device, and a signature for one payload. -/
def demoSigning : SigningPlatform Unit where
  publicKey _ := []
  sign _ _ := List.replicate 64 1
  verify bytes signature _ :=
    some (decide (bytes = demoPayload.canonicalBytes ∧ signature = List.replicate 64 1))
  parseUuid text :=
    if text = demoDevice then
      some [17, 17, 17, 17, 17, 17, 65, 17, 129, 17, 17, 17, 17, 17, 17, 17]
    else none
  blake3 _ := .replicate 32 0

def demoRegistration : RegistrationMessage := .register ⟨demoPayload, List.replicate 64 1⟩

/-- The demo registration is accepted, and nothing else is with its signature. -/
theorem signature_for_one_message_demo :
    demoRegistration.verify demoSigning [] = .ok () ∧
      ∀ message publicKey, message.signature = demoRegistration.signature →
        message.verify demoSigning publicKey = .ok () → message = demoRegistration := by
  have hshort : demoSigning.ShortUuids := by
    intro text uuid h
    have htext : text = demoDevice := by
      by_cases heq : text = demoDevice
      · exact heq
      · cases (if_neg heq).symm.trans h
    rw [htext]
    decide
  have hmade : RegistrationRequest.newSigned demoSigning () demoDevice 1
      = .ok ⟨demoPayload, List.replicate 64 1⟩ := rfl
  have honly : OnlyFor demoSigning demoRegistration.signature demoRegistration.canonicalBytes :=
    fun publicKey other h => (of_decide_eq_true (Option.some.inj h)).1
  exact ⟨rfl, fun message publicKey hsignature haccepted =>
    (signature_for_one_message hshort).2.2.2 () demoRegistration message publicKey
      (.register hmade) honly
      hsignature haccepted⟩

end RegistrationMessage

end Scm.Transport
