import Scm.Bincode
import Scm.Crypto.Conversation

/-!
# Onion layers — `core/src/privacy/onion.rs`

An onion is built from the inside. The destination's layer seals the payload, and every relay
before it, last one first, gets a layer that seals the bytes of the layer it is to pass on.
Within a layer two things are sealed apart from each other under one key: the routing
information, which is the public key of the next hop and empty at the destination, and the
payload. Key and nonces come from the secret that the layer's ephemeral key and the hop's key
agree on.

`PeelsAlong` says what the relays of a path are to find, and `construct_peels` that they find
it: the invariant of the wrapping loop is that the layer built so far peels along the hops
behind it. The second half is about layers that somebody has changed on the way
(`modified_fails_iff`).

What is assumed of the AEAD is that of the encryptions that took place (`made`) it opens each
(`OpensSealed`), and for the results about other keys and other bytes that it opens nothing
else (`IdealSealing`); `sealings` lists the encryptions of a construction. The random ephemeral
secrets are an argument, in the order they are drawn.
-/

namespace Scm.Privacy

open List Bincode Bytes Crypto RatchetSession

/-! ## The functions -/

/-- `OnionError`, as far as it is used. -/
inductive OnionError where
  | invalidEnvelope
  | encryptionFailed
  | decryptionFailed
  | tooManyHops (max : Nat)
  | invalidHopAddress
  deriving DecidableEq, Repr

structure OnionLayer where
  ephemeralPk : Bytes
  encryptedRoutingInfo : Bytes
  encryptedPayload : Bytes
  deriving DecidableEq, Repr

structure OnionEnvelope where
  currentLayer : OnionLayer
  remainingLayers : Bytes
  deriving DecidableEq, Repr

/-- `MAX_ONION_HOPS`. -/
def maxOnionHops : Nat := 5

/-- `POLY1305_TAG_SIZE`. -/
def poly1305TagSize : Nat := 16

namespace OnionLayer

/-- `bincode::serialize`. -/
def serialize (layer : OnionLayer) : Bytes :=
  putBytes layer.ephemeralPk ++ putBytes layer.encryptedRoutingInfo ++
    putBytes layer.encryptedPayload

def reader : Reader OnionLayer := do
  let ephemeralPk ← bytes
  let encryptedRoutingInfo ← bytes
  let encryptedPayload ← bytes
  return ⟨ephemeralPk, encryptedRoutingInfo, encryptedPayload⟩

end OnionLayer

/-- `<[u8; 32]>::try_from` of a slice. -/
def keyOfSlice (data : Bytes) : Option Key :=
  if data.length = 32 then some (arrayAt 32 data 0) else none

section
variable (P : Primitives)

/-- `derive_layer_key`. -/
def deriveLayerKey (sharedSecret : Key) : Key :=
  P.deriveKey "SCMessenger-onion-layer-key-v1" sharedSecret.toList

/-- `derive_nonce`. -/
def deriveNonce (sharedSecret : Key) (counter : UInt8) : Bytes :=
  (P.deriveKey "SCMessenger-onion-layer-nonce-v1" (sharedSecret.toList ++ [counter])).toList.take 24

/-- One layer of `construct_onion`, for the hop with the key `hopPk`. -/
def sealLayer (ephemeralSecret hopPk : Key) (routingInfo payload : Bytes) :
    Except OnionError OnionLayer :=
  let sharedSecret := P.diffieHellman ephemeralSecret hopPk
  let key := deriveLayerKey P sharedSecret
  let routingNonce := deriveNonce P sharedSecret 0
  let payloadNonce := deriveNonce P sharedSecret 1
  match P.aeadEncrypt key routingNonce routingNonce routingInfo with
  | none => .error .encryptionFailed
  | some encryptedRoutingInfo =>
    match P.aeadEncrypt key payloadNonce payloadNonce payload with
    | none => .error .encryptionFailed
    | some encryptedPayload =>
      .ok ⟨(P.publicKey ephemeralSecret).toList, encryptedRoutingInfo, encryptedPayload⟩

/-- The wrapping loop, over the relays from the last to the first. `next` is the hop behind
the one at hand and `drawn` the number of secrets drawn so far. -/
def wrapRelays (draw : Nat → Key) (drawn : Nat) (next : Key) (remainingLayers : Bytes) :
    List Key → Except OnionError Bytes
  | [] => .ok remainingLayers
  | relay :: relays =>
    match sealLayer P (draw drawn) relay next.toList remainingLayers with
    | .error e => .error e
    | .ok layer => wrapRelays draw (drawn + 1) relay layer.serialize relays

/-- `construct_onion`. -/
def constructOnion (draw : Nat → Key) (path : List Key) (payload : Bytes) :
    Except OnionError OnionEnvelope :=
  if path.isEmpty ∨ path.length > maxOnionHops then .error (.tooManyHops maxOnionHops)
  else
    match path.reverse with
    | [] => .error (.tooManyHops maxOnionHops)
    | destination :: relays =>
      match sealLayer P (draw 0) destination [] payload with
      | .error e => .error e
      | .ok layer =>
        match wrapRelays P draw 1 destination layer.serialize relays with
        | .error e => .error e
        | .ok remainingLayers =>
          match deserialize OnionLayer.reader remainingLayers with
          | none => .error .invalidEnvelope
          | some outermost => .ok ⟨outermost, []⟩

/-- `peel_layer` once the secret is agreed on. -/
def peelShared (sharedSecret : Key) (layer : OnionLayer) :
    Except OnionError (Option Key × Bytes) :=
  let key := deriveLayerKey P sharedSecret
  let routingNonce := deriveNonce P sharedSecret 0
  let payloadNonce := deriveNonce P sharedSecret 1
  let routingInfo :=
    if layer.encryptedRoutingInfo.isEmpty then some []
    else P.aeadDecrypt key routingNonce routingNonce layer.encryptedRoutingInfo
  match routingInfo with
  | none => .error .decryptionFailed
  | some routingInfo =>
    match P.aeadDecrypt key payloadNonce payloadNonce layer.encryptedPayload with
    | none => .error .decryptionFailed
    | some payload =>
      if routingInfo.isEmpty then .ok (none, payload)
      else
        match keyOfSlice routingInfo with
        | none => .error .invalidHopAddress
        | some nextHop => .ok (some nextHop, payload)

/-- `peel_layer`. -/
def peelLayer (envelope : OnionEnvelope) (relaySecretKey : Key) :
    Except OnionError (Option Key × Bytes) :=
  match keyOfSlice envelope.currentLayer.ephemeralPk with
  | none => .error .invalidEnvelope
  | some ephemeralPk =>
    peelShared P (P.diffieHellman relaySecretKey ephemeralPk) envelope.currentLayer

end

/-! ## Assumptions -/

/-- An encryption that took place. -/
structure Sealing where
  key : Key
  nonce : Bytes
  aad : Bytes
  plaintext : Bytes
  deriving DecidableEq, Repr

/-- An AEAD that adds a tag and opens what it sealed in the encryptions `made`. -/
structure OpensSealed (P : Primitives) (made : Sealing → Prop) : Prop where
  seals : ∀ key nonce aad plaintext, ∃ ciphertext,
    P.aeadEncrypt key nonce aad plaintext = some ciphertext ∧
      ciphertext.length = plaintext.length + poly1305TagSize
  opens : ∀ s ciphertext, made s → P.aeadEncrypt s.key s.nonce s.aad s.plaintext = some ciphertext →
    P.aeadDecrypt s.key s.nonce s.aad ciphertext = some s.plaintext

/-- An ideal AEAD, of which the encryptions `made` are the ones that took place: it opens
nothing else, no two of them put out the same ciphertext, and none was made twice under one
nonce. -/
structure IdealSealing (P : Primitives) (made : Sealing → Prop) : Prop
    extends OpensSealed P made where
  only : ∀ key nonce aad ciphertext plaintext,
    P.aeadDecrypt key nonce aad ciphertext = some plaintext →
      made ⟨key, nonce, aad, plaintext⟩ ∧ P.aeadEncrypt key nonce aad plaintext = some ciphertext
  apart : ∀ s t ciphertext, made s → made t →
    P.aeadEncrypt s.key s.nonce s.aad s.plaintext = some ciphertext →
      P.aeadEncrypt t.key t.nonce t.aad t.plaintext = some ciphertext → s = t
  once : ∀ s t, made s → made t → s.key = t.key → s.nonce = t.nonce → s.aad = t.aad → s = t

/-- X25519: both ends agree. -/
structure Agrees (P : Primitives) : Prop where
  agree : ∀ s t, P.diffieHellman s (P.publicKey t) = P.diffieHellman t (P.publicKey s)

/-- And with the derivation of layer keys: with other keys they agree on something else. -/
structure OnionAgreement (P : Primitives) : Prop extends Agrees P where
  agree_inj : ∀ s s' t, P.diffieHellman s (P.publicKey t) = P.diffieHellman s' (P.publicKey t) →
    P.publicKey s = P.publicKey s'
  key_inj : ∀ a b, deriveLayerKey P a = deriveLayerKey P b → a = b

section
variable (P : Primitives)

/-- The two encryptions of a layer. -/
def layerSealings (ephemeralSecret hopPk : Key) (routingInfo payload : Bytes) : List Sealing :=
  let sharedSecret := P.diffieHellman ephemeralSecret hopPk
  let key := deriveLayerKey P sharedSecret
  [⟨key, deriveNonce P sharedSecret 0, deriveNonce P sharedSecret 0, routingInfo⟩,
    ⟨key, deriveNonce P sharedSecret 1, deriveNonce P sharedSecret 1, payload⟩]

/-- Those of the wrapping loop. -/
def wrapSealings (draw : Nat → Key) (drawn : Nat) (next : Key) (remainingLayers : Bytes) :
    List Key → List Sealing
  | [] => []
  | relay :: relays =>
    layerSealings P (draw drawn) relay next.toList remainingLayers ++
      match sealLayer P (draw drawn) relay next.toList remainingLayers with
      | .error _ => []
      | .ok layer => wrapSealings draw (drawn + 1) relay layer.serialize relays

/-- Those of `construct_onion`. -/
def sealings (draw : Nat → Key) (path : List Key) (payload : Bytes) : List Sealing :=
  match path.reverse with
  | [] => []
  | destination :: relays =>
    layerSealings P (draw 0) destination [] payload ++
      match sealLayer P (draw 0) destination [] payload with
      | .error _ => []
      | .ok layer => wrapSealings P draw 1 destination layer.serialize relays

/-- A layer as `sealLayer` makes it, in encryptions that took place. -/
structure SealedAs (made : Sealing → Prop) (ephemeralSecret hopPk : Key)
    (routingInfo payload : Bytes) (layer : OnionLayer) : Prop where
  ephemeral : layer.ephemeralPk = (P.publicKey ephemeralSecret).toList
  routing : P.aeadEncrypt (deriveLayerKey P (P.diffieHellman ephemeralSecret hopPk))
    (deriveNonce P (P.diffieHellman ephemeralSecret hopPk) 0)
    (deriveNonce P (P.diffieHellman ephemeralSecret hopPk) 0) routingInfo
      = some layer.encryptedRoutingInfo
  content : P.aeadEncrypt (deriveLayerKey P (P.diffieHellman ephemeralSecret hopPk))
    (deriveNonce P (P.diffieHellman ephemeralSecret hopPk) 1)
    (deriveNonce P (P.diffieHellman ephemeralSecret hopPk) 1) payload = some layer.encryptedPayload
  took : ∀ s ∈ layerSealings P ephemeralSecret hopPk routingInfo payload, made s

/-- An onion for the hops of a path, the outermost layer first. -/
inductive OnionOf (made : Sealing → Prop) (payload : Bytes) : List Key → OnionLayer → Prop
  | destination {ephemeralSecret hop : Key} {layer : OnionLayer}
      (sealed : SealedAs P made ephemeralSecret hop [] payload layer) :
      OnionOf made payload [hop] layer
  | relay {ephemeralSecret hop next : Key} {hops : List Key} {inner layer : OnionLayer}
      (behind : OnionOf made payload (next :: hops) inner)
      (sealed : SealedAs P made ephemeralSecret hop next.toList inner.serialize layer) :
      OnionOf made payload (hop :: next :: hops) layer

/-- No other key opens the layer. -/
def OpensOnlyFor (layer : OnionLayer) (secret : Key) : Prop :=
  ∀ other, P.publicKey other ≠ P.publicKey secret →
    ∀ rest, peelLayer P ⟨layer, rest⟩ other = .error .decryptionFailed

/-- What the relays with these secrets are to find: each the key of the next one and the bytes
of its layer, the last one the payload; `also` is asked of every layer on the way. -/
def PeelsAlong (also : OnionLayer → Key → Prop) (payload : Bytes) : OnionLayer → List Key → Prop
  | _, [] => False
  | layer, [secret] =>
    (∀ rest, peelLayer P ⟨layer, rest⟩ secret = .ok (none, payload)) ∧ also layer secret
  | layer, secret :: next :: secrets =>
    (∃ bytes inner,
      (∀ rest, peelLayer P ⟨layer, rest⟩ secret = .ok (some (P.publicKey next), bytes)) ∧
      deserialize OnionLayer.reader bytes = some inner ∧
      PeelsAlong also payload inner (next :: secrets)) ∧ also layer secret

end

/-! ## One layer -/

theorem keyOfSlice_toList (key : Key) : keyOfSlice key.toList = some key := by
  rw [keyOfSlice, if_pos (Vector.length_toList), arrayAt_toList]

section
variable {layer : OnionLayer} (hpk : layer.ephemeralPk.length < 2 ^ 64)
  (hrouting : layer.encryptedRoutingInfo.length < 2 ^ 64)
  (hpayload : layer.encryptedPayload.length < 2 ^ 64)
include hpk hrouting hpayload

theorem OnionLayer.reader_append (rest : Bytes) :
    reader (layer.serialize ++ rest) = some (layer, rest) := by
  rw [serialize, reader, append_assoc, append_assoc, bind_eq _ (bytes_append hpk _),
    bind_eq _ (bytes_append hrouting _), bind_eq _ (bytes_append hpayload _)]
  rfl

theorem OnionLayer.deserialize_serialize : deserialize reader layer.serialize = some layer := by
  have hread := OnionLayer.reader_append hpk hrouting hpayload []
  rw [append_nil] at hread
  rw [deserialize, hread, Option.map_some]

end

theorem OnionLayer.length_serialize (layer : OnionLayer) :
    layer.serialize.length = 24 + layer.ephemeralPk.length + layer.encryptedRoutingInfo.length
      + layer.encryptedPayload.length := by
  simp only [serialize, putBytes, length_append, leBytes_length]
  omega

section
variable {P : Primitives} {made : Sealing → Prop} {ephemeralSecret hopPk : Key}
  {routingInfo payload : Bytes} {layer : OnionLayer}

theorem OpensSealed.sealLayer_ok (hP : OpensSealed P made)
    (hmade : ∀ s ∈ layerSealings P ephemeralSecret hopPk routingInfo payload, made s) :
    ∃ layer, sealLayer P ephemeralSecret hopPk routingInfo payload = .ok layer ∧
      SealedAs P made ephemeralSecret hopPk routingInfo payload layer := by
  have hseals := fun i => hP.seals (deriveLayerKey P (P.diffieHellman ephemeralSecret hopPk))
    (deriveNonce P (P.diffieHellman ephemeralSecret hopPk) i)
    (deriveNonce P (P.diffieHellman ephemeralSecret hopPk) i)
  obtain ⟨encryptedRoutingInfo, hrouting, -⟩ := hseals 0 routingInfo
  obtain ⟨encryptedPayload, hpayload, -⟩ := hseals 1 payload
  refine ⟨⟨(P.publicKey ephemeralSecret).toList, encryptedRoutingInfo, encryptedPayload⟩, ?_,
    ⟨rfl, hrouting, hpayload, hmade⟩⟩
  rw [sealLayer, hrouting, hpayload]

theorem OpensSealed.length_eq (hP : OpensSealed P made) {key : Key}
    {nonce aad plaintext ciphertext : Bytes}
    (h : P.aeadEncrypt key nonce aad plaintext = some ciphertext) :
    ciphertext.length = plaintext.length + poly1305TagSize := by
  obtain ⟨ciphertext', h', hlen⟩ := hP.seals key nonce aad plaintext
  cases h.symm.trans h'
  exact hlen

/-- Key and nonces that two secrets may have in common. -/
structure SameKeys (P : Primitives) (a b : Key) : Prop where
  key : deriveLayerKey P a = deriveLayerKey P b
  routingNonce : deriveNonce P a 0 = deriveNonce P b 0
  payloadNonce : deriveNonce P a 1 = deriveNonce P b 1

theorem SameKeys.refl (P : Primitives) (a : Key) : SameKeys P a a := ⟨rfl, rfl, rfl⟩

namespace SealedAs

variable (h : SealedAs P made ephemeralSecret hopPk routingInfo payload layer)
include h

theorem keyOfSlice_ephemeralPk :
    keyOfSlice layer.ephemeralPk = some (P.publicKey ephemeralSecret) := by
  rw [h.ephemeral, keyOfSlice_toList]

theorem peelLayer_eq (rest : Bytes) (secret : Key) :
    peelLayer P ⟨layer, rest⟩ secret
      = peelShared P (P.diffieHellman secret (P.publicKey ephemeralSecret)) layer := by
  rw [peelLayer, h.keyOfSlice_ephemeralPk]

section
variable (hP : OpensSealed P made)
include hP

theorem routing_ne_nil : layer.encryptedRoutingInfo.isEmpty = false := by
  have hlen := hP.length_eq h.routing
  cases hnil : layer.encryptedRoutingInfo with
  | nil =>
    rw [hnil] at hlen
    cases hlen
  | cons b rest => rfl

theorem length_serialize : layer.serialize.length = 88 + routingInfo.length + payload.length := by
  rw [OnionLayer.length_serialize, h.ephemeral, hP.length_eq h.routing, hP.length_eq h.content,
    Vector.length_toList]
  unfold poly1305TagSize
  omega

variable {sharedSecret : Key}
  (hsame : SameKeys P sharedSecret (P.diffieHellman ephemeralSecret hopPk))
include hsame

theorem decrypts :
    P.aeadDecrypt (deriveLayerKey P sharedSecret) (deriveNonce P sharedSecret 0)
        (deriveNonce P sharedSecret 0) layer.encryptedRoutingInfo = some routingInfo ∧
      P.aeadDecrypt (deriveLayerKey P sharedSecret) (deriveNonce P sharedSecret 1)
        (deriveNonce P sharedSecret 1) layer.encryptedPayload = some payload := by
  rw [hsame.key, hsame.routingNonce, hsame.payloadNonce]
  exact ⟨hP.opens _ _ (h.took _ (.head _)) h.routing,
    hP.opens _ _ (h.took _ (.tail _ (.head _))) h.content⟩

theorem peelShared_destination (hrouting : routingInfo = []) :
    peelShared P sharedSecret layer = .ok (none, payload) := by
  obtain ⟨hinfo, hpayload⟩ := h.decrypts hP hsame
  subst hrouting
  rw [peelShared]
  simp only [h.routing_ne_nil hP, hinfo, hpayload, Bool.false_eq_true, if_false, isEmpty_nil,
    if_true]

theorem peelShared_relay {next : Key} (hrouting : routingInfo = next.toList) :
    peelShared P sharedSecret layer = .ok (some next, payload) := by
  obtain ⟨hinfo, hpayload⟩ := h.decrypts hP hsame
  have hkey := keyOfSlice_toList next
  have hsome : next.toList.isEmpty = false := by simp
  subst hrouting
  rw [peelShared]
  simp only [h.routing_ne_nil hP, hinfo, hpayload, Bool.false_eq_true, if_false, hsome, hkey]

end

end SealedAs

/-! ## The wrapping loop -/

variable (hP : OpensSealed P made) {hops : List Key}
include hP

theorem OnionOf.length_serialize_le (h : OnionOf P made payload hops layer) :
    layer.serialize.length ≤ payload.length + 120 * hops.length := by
  induction h with
  | destination sealed =>
    rw [sealed.length_serialize hP, length_nil, length_singleton]
    omega
  | relay _ sealed ih =>
    rw [sealed.length_serialize hP, Vector.length_toList, length_cons]
    omega

theorem OnionOf.deserialize_serialize (h : OnionOf P made payload hops layer)
    (hhops : hops.length ≤ maxOnionHops) (hpayload : payload.length < 2 ^ 63) :
    deserialize OnionLayer.reader layer.serialize = some layer := by
  have hlen := h.length_serialize_le hP
  rw [OnionLayer.length_serialize] at hlen
  unfold maxOnionHops at hhops
  exact OnionLayer.deserialize_serialize (by omega) (by omega) (by omega)

theorem wrapRelays_onionOf (draw : Nat → Key) :
    ∀ {relays hops : List Key} {drawn : Nat} {next : Key} {layer : OnionLayer},
      OnionOf P made payload (next :: hops) layer →
      (∀ s ∈ wrapSealings P draw drawn next layer.serialize relays, made s) →
      ∃ outer, wrapRelays P draw drawn next layer.serialize relays = .ok outer.serialize ∧
        OnionOf P made payload (relays.reverse ++ next :: hops) outer
  | [], _, _, _, layer, h, _ => ⟨layer, rfl, h⟩
  | relay :: relays, hops, drawn, next, layer, h, hmade => by
    rw [wrapSealings, forall_mem_append] at hmade
    obtain ⟨wrapped, hseal, hsealed⟩ := hP.sealLayer_ok hmade.1
    rw [hseal] at hmade
    obtain ⟨outer, hwrap, houter⟩ := wrapRelays_onionOf draw (.relay h hsealed) hmade.2
    refine ⟨outer, ?_, ?_⟩
    · rw [wrapRelays, hseal]
      exact hwrap
    · grind

theorem constructOnion_onionOf (draw : Nat → Key) {path : List Key} (hpath : path ≠ [])
    (hhops : path.length ≤ maxOnionHops) (hpayload : payload.length < 2 ^ 63)
    (hmade : ∀ s ∈ sealings P draw path payload, made s) :
    ∃ layer, constructOnion P draw path payload = .ok ⟨layer, []⟩ ∧
      OnionOf P made payload path layer := by
  obtain ⟨destination, relays, hreverse⟩ := exists_cons_of_ne_nil
    (reverse_ne_nil_iff.mpr hpath)
  rw [sealings, hreverse] at hmade
  dsimp only at hmade
  rw [forall_mem_append] at hmade
  obtain ⟨innermost, hseal, hsealed⟩ := hP.sealLayer_ok hmade.1
  rw [hseal] at hmade
  obtain ⟨outer, hwrap, houter⟩ := wrapRelays_onionOf hP draw (.destination hsealed) hmade.2
  have hforward : relays.reverse ++ [destination] = path := by
    rw [← reverse_cons, ← hreverse, reverse_reverse]
  rw [hforward] at houter
  have hguard : ¬ (path.isEmpty = true ∨ path.length > maxOnionHops) := by simp_all
  refine ⟨outer, ?_, houter⟩
  rw [constructOnion, if_neg hguard, hreverse]
  dsimp only
  rw [hseal]
  dsimp only
  rw [hwrap]
  dsimp only
  rw [houter.deserialize_serialize hP hhops hpayload]

end

/-! ## Peeling -/

section
variable {P : Primitives} {made : Sealing → Prop} {payload : Bytes}

section
variable (hP : IdealSealing P made) {s : Sealing}
include hP

/-- Of a ciphertext that was made, only its own sealing is what opens. -/
theorem IdealSealing.eq_of_decrypt {ciphertext nonce aad plaintext : Bytes} {key : Key}
    (hs : made s) (hsealed : P.aeadEncrypt s.key s.nonce s.aad s.plaintext = some ciphertext)
    (h : P.aeadDecrypt key nonce aad ciphertext = some plaintext) :
    s = ⟨key, nonce, aad, plaintext⟩ := by
  obtain ⟨hmade, hencrypt⟩ := hP.only _ _ _ _ _ h
  exact hP.apart _ _ _ hs hmade hsealed hencrypt

/-- Under the key and nonce of a sealing, only its own ciphertext opens. -/
theorem IdealSealing.decrypt_eq_none {ciphertext other : Bytes} (hs : made s)
    (hsealed : P.aeadEncrypt s.key s.nonce s.aad s.plaintext = some ciphertext)
    (hother : other ≠ ciphertext) : P.aeadDecrypt s.key s.nonce s.aad other = none := by
  cases h : P.aeadDecrypt s.key s.nonce s.aad other with
  | none => rfl
  | some plaintext =>
    obtain ⟨hmade, hencrypt⟩ := hP.only _ _ _ _ _ h
    have hsame := hP.once _ _ hs hmade rfl rfl rfl
    rw [hsame] at hsealed
    cases hsealed.symm.trans hencrypt
    exact absurd rfl hother

theorem SealedAs.peelShared_other {ephemeralSecret hopPk : Key} {routingInfo content : Bytes}
    {layer : OnionLayer} (h : SealedAs P made ephemeralSecret hopPk routingInfo content layer)
    {sharedSecret : Key}
    (hother : ¬ SameKeys P sharedSecret (P.diffieHellman ephemeralSecret hopPk)) :
    peelShared P sharedSecret layer = .error .decryptionFailed := by
  rw [peelShared]
  simp only [h.routing_ne_nil hP.toOpensSealed, Bool.false_eq_true, if_false]
  cases hinfo : P.aeadDecrypt (deriveLayerKey P sharedSecret) (deriveNonce P sharedSecret 0)
      (deriveNonce P sharedSecret 0) layer.encryptedRoutingInfo with
  | none => rfl
  | some info =>
    cases hcontent : P.aeadDecrypt (deriveLayerKey P sharedSecret) (deriveNonce P sharedSecret 1)
        (deriveNonce P sharedSecret 1) layer.encryptedPayload with
    | none => rfl
    | some plaintext =>
      -- both parts opened, so key and both nonces are the layer's
      have hrouting := hP.eq_of_decrypt (h.took _ (.head _)) h.routing hinfo
      have hpayload := hP.eq_of_decrypt (h.took _ (.tail _ (.head _))) h.content hcontent
      simp only [Sealing.mk.injEq] at hrouting hpayload
      exact absurd ⟨hrouting.1.symm, hrouting.2.1.symm, hpayload.2.1.symm⟩ hother

theorem SealedAs.opensOnlyFor (hA : OnionAgreement P) {ephemeralSecret secret : Key}
    {routingInfo content : Bytes} {layer : OnionLayer}
    (h : SealedAs P made ephemeralSecret (P.publicKey secret) routingInfo content layer) :
    OpensOnlyFor P layer secret := by
  intro other hother rest
  rw [h.peelLayer_eq]
  refine h.peelShared_other hP fun hsame => hother ?_
  have hshared := hA.key_inj _ _ hsame.key
  rw [hA.agree ephemeralSecret secret] at hshared
  exact hA.agree_inj _ _ _ hshared

end

section
variable {P : Primitives} {made : Sealing → Prop} (hP : OpensSealed P made) (hA : Agrees P)
  {payload : Bytes} {also : OnionLayer → Key → Prop}
include hP hA

theorem OnionOf.peelsAlong (hpayload : payload.length < 2 ^ 63)
    (halso : ∀ ephemeralSecret secret routingInfo content layer,
      SealedAs P made ephemeralSecret (P.publicKey secret) routingInfo content layer →
        also layer secret) :
    ∀ {secrets : List Key} {layer : OnionLayer},
      secrets.length ≤ maxOnionHops → OnionOf P made payload (secrets.map P.publicKey) layer →
      PeelsAlong P also payload layer secrets
  | [], _, _, h => nomatch h
  | [secret], layer, _, h => by
    cases h with
    | destination sealed =>
      refine ⟨fun rest => ?_, halso _ _ _ _ _ sealed⟩
      rw [sealed.peelLayer_eq, hA.agree]
      exact sealed.peelShared_destination hP (.refl P _) rfl
  | secret :: next :: secrets, layer, hhops, h => by
    cases h with
    | relay behind sealed =>
      have hfew : (next :: secrets).length ≤ maxOnionHops := Nat.le_of_succ_le hhops
      refine ⟨⟨_, _, fun rest => ?_, behind.deserialize_serialize hP ?_ hpayload,
        OnionOf.peelsAlong hpayload halso hfew behind⟩, halso _ _ _ _ _ sealed⟩
      · rw [sealed.peelLayer_eq, hA.agree]
        exact sealed.peelShared_relay hP (.refl P _) rfl
      · simp_all

end

/-- **An onion peels along its path.** For one to five key pairs and every payload,
`construct_onion` succeeds, each hop in turn finds the key of the next one and its layer, and
the last one the payload. When the AEAD is ideal and other keys agree on other secrets,
another key opens none of the layers. -/
theorem construct_peels (P : Primitives) (made : Sealing → Prop) (hP : OpensSealed P made)
    (hA : Agrees P) (draw : Nat → Key) (secrets : List Key) (hsome : secrets ≠ [])
    (hhops : secrets.length ≤ maxOnionHops) (payload : Bytes) (hpayload : payload.length < 2 ^ 63)
    (hmade : ∀ s ∈ sealings P draw (secrets.map P.publicKey) payload, made s) :
    ∃ envelope, constructOnion P draw (secrets.map P.publicKey) payload = .ok envelope ∧
      PeelsAlong P (fun _ _ => True) payload envelope.currentLayer secrets ∧
      (IdealSealing P made → OnionAgreement P →
        PeelsAlong P (OpensOnlyFor P) payload envelope.currentLayer secrets) := by
  obtain ⟨layer, hbuilt, honion⟩ := constructOnion_onionOf hP draw
    (by rwa [ne_eq, map_eq_nil_iff]) (by rwa [length_map]) hpayload hmade
  refine ⟨_, hbuilt, honion.peelsAlong hP hA hpayload ?_ hhops, fun hideal hagree =>
    honion.peelsAlong hP hA hpayload ?_ hhops⟩
  · exact fun _ _ _ _ _ _ => trivial
  · exact fun _ _ _ _ _ sealed => sealed.opensOnlyFor hideal hagree

/-! ## Changed layers -/

/-- A field of a layer. -/
inductive LayerField where
  | ephemeralPk
  | encryptedRoutingInfo
  | encryptedPayload
  deriving DecidableEq, Repr

namespace OnionLayer

def get (layer : OnionLayer) : LayerField → Bytes
  | .ephemeralPk => layer.ephemeralPk
  | .encryptedRoutingInfo => layer.encryptedRoutingInfo
  | .encryptedPayload => layer.encryptedPayload

def set (layer : OnionLayer) (data : Bytes) : LayerField → OnionLayer
  | .ephemeralPk => { layer with ephemeralPk := data }
  | .encryptedRoutingInfo => { layer with encryptedRoutingInfo := data }
  | .encryptedPayload => { layer with encryptedPayload := data }

end OnionLayer

namespace SealedAs

variable {ephemeralSecret secret : Key} {routingInfo content data rest : Bytes}
  {layer : OnionLayer}
  (h : SealedAs P made ephemeralSecret (P.publicKey secret) routingInfo content layer)
include h

/-- With its own routing information gone, a layer says that this is the destination. -/
theorem peelLayer_noRouting (hP : OpensSealed P made) (hA : Agrees P) (rest : Bytes) :
    peelLayer P ⟨layer.set [] .encryptedRoutingInfo, rest⟩ secret = .ok (none, content) := by
  have hcontent := (h.decrypts hP (.refl P _)).2
  rw [← hA.agree secret ephemeralSecret] at hcontent
  simp only [peelLayer, OnionLayer.set, h.keyOfSlice_ephemeralPk, peelShared, hcontent,
    isEmpty_nil, if_true]

variable (hP : IdealSealing P made) (hA : Agrees P)
include hP hA

theorem peelLayer_otherRouting (hdata : data ≠ layer.encryptedRoutingInfo) (hnil : data ≠ [])
    (rest : Bytes) :
    peelLayer P ⟨layer.set data .encryptedRoutingInfo, rest⟩ secret = .error .decryptionFailed := by
  have hrefused := hP.decrypt_eq_none (h.took _ (.head _)) h.routing hdata
  rw [← hA.agree secret ephemeralSecret] at hrefused
  have hsome : data.isEmpty = false := isEmpty_eq_false_iff.mpr hnil
  simp only [peelLayer, OnionLayer.set, h.keyOfSlice_ephemeralPk, peelShared, hsome, hrefused,
    Bool.false_eq_true, if_false]

theorem peelLayer_otherPayload (hdata : data ≠ layer.encryptedPayload) (rest : Bytes) :
    peelLayer P ⟨layer.set data .encryptedPayload, rest⟩ secret = .error .decryptionFailed := by
  have hinfo := (h.decrypts hP.toOpensSealed (.refl P _)).1
  have hrefused := hP.decrypt_eq_none (h.took _ (.tail _ (.head _))) h.content hdata
  rw [← hA.agree secret ephemeralSecret] at hinfo hrefused
  simp only [peelLayer, OnionLayer.set, h.keyOfSlice_ephemeralPk, peelShared,
    h.routing_ne_nil hP.toOpensSealed, hinfo, hrefused, Bool.false_eq_true, if_false]

/-- Another ephemeral key is refused, unless it comes to the same layer key and nonces. -/
theorem peelLayer_otherEphemeral_iff {result : Option Key × Bytes}
    (hopens : ∀ sharedSecret,
      SameKeys P sharedSecret (P.diffieHellman ephemeralSecret (P.publicKey secret)) →
        peelShared P sharedSecret layer = .ok result) :
    (∃ e, peelLayer P ⟨layer.set data .ephemeralPk, rest⟩ secret = .error e) ↔
      ∀ changed, keyOfSlice data = some changed →
        ¬ SameKeys P (P.diffieHellman secret changed)
          (P.diffieHellman secret (P.publicKey ephemeralSecret)) := by
  rw [hA.agree secret ephemeralSecret]
  cases hchanged : keyOfSlice data with
  | none =>
    have hpeel : peelLayer P ⟨layer.set data .ephemeralPk, rest⟩ secret
        = .error .invalidEnvelope := by
      simp only [peelLayer, OnionLayer.set, hchanged]
    exact iff_of_true ⟨_, hpeel⟩ nofun
  | some changed =>
    have hpeel : peelLayer P ⟨layer.set data .ephemeralPk, rest⟩ secret
        = peelShared P (P.diffieHellman secret changed) layer := by
      simp only [peelLayer, OnionLayer.set, hchanged]
      rfl
    rw [hpeel]
    by_cases hsame : SameKeys P (P.diffieHellman secret changed)
        (P.diffieHellman ephemeralSecret (P.publicKey secret))
    · simp_all
    · rw [h.peelShared_other hP hsame]
      refine iff_of_true ⟨_, rfl⟩ fun other hother => ?_
      cases hother
      exact hsame

end SealedAs

/-- The outermost layer of an onion, and what its hop is told with the layer's key. -/
theorem OnionOf.outermost (hP : OpensSealed P made) {path : List Key} {layer : OnionLayer}
    (h : OnionOf P made payload path layer) : ∃ hop ephemeralSecret routingInfo content result,
      path.head? = some hop ∧ SealedAs P made ephemeralSecret hop routingInfo content layer ∧
      ∀ sharedSecret, SameKeys P sharedSecret (P.diffieHellman ephemeralSecret hop) →
        peelShared P sharedSecret layer = .ok result := by
  cases h with
  | destination sealed =>
    exact ⟨_, _, _, _, _, rfl, sealed, fun _ hsame => sealed.peelShared_destination hP hsame rfl⟩
  | relay behind sealed =>
    exact ⟨_, _, _, _, _, rfl, sealed, fun _ hsame => sealed.peelShared_relay hP hsame rfl⟩

/-- **Which changes a relay notices.** Put other bytes in one field of the envelope's layer.
Peeling it with the secret of the path's first hop fails, unless the bytes are routing
information of length zero, or an ephemeral key that gives this hop the same layer key and
nonces. -/
theorem modified_fails_iff (P : Primitives) (made : Sealing → Prop) (hP : IdealSealing P made)
    (hA : Agrees P) (draw : Nat → Key) (path : List Key) (payload : Bytes)
    (hpayload : payload.length < 2 ^ 63) (hmade : ∀ s ∈ sealings P draw path payload, made s)
    (envelope : OnionEnvelope) (hbuilt : constructOnion P draw path payload = .ok envelope)
    (secret : Key) (hhop : path.head? = some (P.publicKey secret)) (field : LayerField)
    (data : Bytes) (hdata : data ≠ envelope.currentLayer.get field) :
    (∃ e, peelLayer P ⟨envelope.currentLayer.set data field, envelope.remainingLayers⟩ secret
        = .error e) ↔
      ¬ (field = .encryptedRoutingInfo ∧ data = []) ∧
      ¬ (field = .ephemeralPk ∧ ∃ original changed,
        keyOfSlice envelope.currentLayer.ephemeralPk = some original ∧
        keyOfSlice data = some changed ∧
        SameKeys P (P.diffieHellman secret changed) (P.diffieHellman secret original)) := by
  have hpath : path ≠ [] := by
    rintro rfl
    cases hhop
  have hhops : path.length ≤ maxOnionHops := by grind [constructOnion]
  obtain ⟨layer, hbuilt', honion⟩ :=
    constructOnion_onionOf hP.toOpensSealed draw hpath hhops hpayload hmade
  cases hbuilt'.symm.trans hbuilt
  obtain ⟨hop, ephemeralSecret, routingInfo, content, result, hfirst, hsealed, hopens⟩ :=
    honion.outermost hP.toOpensSealed
  cases hfirst.symm.trans hhop
  dsimp only at hdata ⊢
  cases field with
  | ephemeralPk =>
    rw [hsealed.peelLayer_otherEphemeral_iff hP hA hopens, hsealed.keyOfSlice_ephemeralPk]
    simp
  | encryptedRoutingInfo =>
    by_cases hnil : data = []
    · subst hnil
      simp [hsealed.peelLayer_noRouting hP.toOpensSealed hA]
    · simp [hsealed.peelLayer_otherRouting hP hA hdata hnil, hnil]
  | encryptedPayload => simp [hsealed.peelLayer_otherPayload hP hA hdata]

end

/-! ## A small onion -/

/-- The AEAD of which the encryptions in the log took place. -/
def withLog (P : Primitives) (log : List Sealing) : Primitives :=
  { P with
    aeadDecrypt := fun key nonce aad ciphertext =>
      (log.find? fun s => s.key = key ∧ s.nonce = nonce ∧ s.aad = aad ∧
        P.aeadEncrypt s.key s.nonce s.aad s.plaintext = some ciphertext).map Sealing.plaintext }

theorem idealSealing_withLog {P : Primitives} {log : List Sealing}
    (hseals : ∀ key nonce aad plaintext, ∃ ciphertext,
      P.aeadEncrypt key nonce aad plaintext = some ciphertext ∧
        ciphertext.length = plaintext.length + poly1305TagSize)
    (hapart : ∀ s ∈ log, ∀ t ∈ log,
      P.aeadEncrypt s.key s.nonce s.aad s.plaintext
        = P.aeadEncrypt t.key t.nonce t.aad t.plaintext → s = t)
    (honce : ∀ s ∈ log, ∀ t ∈ log, s.key = t.key → s.nonce = t.nonce → s.aad = t.aad → s = t) :
    IdealSealing (withLog P log) (· ∈ log) where
  seals := hseals
  opens s ciphertext hs hsealed := by
    show (log.find? _).map Sealing.plaintext = _
    cases hfind : log.find? fun t => t.key = s.key ∧ t.nonce = s.nonce ∧ t.aad = s.aad ∧
        P.aeadEncrypt t.key t.nonce t.aad t.plaintext = some ciphertext with
    | none =>
      have hnone := List.find?_eq_none.mp hfind s hs
      exact absurd (decide_eq_true ⟨rfl, rfl, rfl, hsealed⟩) hnone
    | some t =>
      have ht := List.find?_some hfind
      simp only [decide_eq_true_eq] at ht
      rw [Option.map_some, honce t (List.mem_of_find?_eq_some hfind) s hs ht.1 ht.2.1 ht.2.2.1]
  only key nonce aad ciphertext plaintext h := by
    obtain ⟨t, hfind, rfl⟩ := Option.map_eq_some_iff.mp h
    have ht := List.find?_some hfind
    simp only [decide_eq_true_eq] at ht
    obtain ⟨rfl, rfl, rfl, hsealed⟩ := ht
    exact ⟨List.mem_of_find?_eq_some hfind, hsealed⟩
  apart s t ciphertext hs ht hseal hseal' := hapart s hs t ht (hseal.trans hseal'.symm)
  once s t hs ht := honce s hs t ht

/-- Primitives small enough to run: derivation reads the material from its end, and the tag of
a ciphertext is the beginnings of nonce and key. -/
def demoBase : Primitives :=
  { demoPrimitives with
    deriveKey := fun _ material => arrayAt 32 material.reverse 0
    aeadEncrypt := fun key nonce _ plaintext =>
      some (plaintext ++ (arrayAt 16 (nonce.take 8 ++ key.toList) 0).toList) }

def demoDraw (n : Nat) : Key := keyOfByte (UInt8.ofNat (20 + 10 * n))

/-- A relay and the destination. -/
def demoSecrets : List Key := [keyOfByte 1, keyOfByte 2]

def demoPayload : Bytes := [104, 105]

def demoLog : List Sealing := sealings demoBase demoDraw demoSecrets demoPayload

def demoOnion : Primitives := withLog demoBase demoLog

theorem demoOnion_ideal : IdealSealing demoOnion (· ∈ demoLog) := by
  refine idealSealing_withLog (fun key nonce aad plaintext => ⟨_, rfl, ?_⟩) ?_ ?_
  · rw [length_append, Vector.length_toList]
    rfl
  · decide +kernel
  · decide +kernel

theorem zipWith_add_comm (a b : Key) :
    Vector.zipWith (· + ·) a b = Vector.zipWith (· + ·) b a := by
  ext i hi
  simp [UInt8.add_comm]

theorem demoOnion_agreement : OnionAgreement demoOnion where
  agree := zipWith_add_comm
  agree_inj s s' t h := by
    apply Vector.ext
    intro i hi
    have hbyte := congrArg (fun v : Key => v[i]) h
    simpa [demoOnion, withLog, demoBase, demoPrimitives] using hbyte
  key_inj a b h := by
    have hbytes (k : Key) : (deriveLayerKey demoOnion k).toList = k.toList.reverse :=
      toList_arrayAt (by rw [length_reverse, Vector.length_toList])
    have hreverse := congrArg Vector.toList h
    rw [hbytes, hbytes, reverse_inj] at hreverse
    exact Vector.toList_inj.mp hreverse

theorem demoOnion_sealings :
    ∀ s ∈ sealings demoOnion demoDraw (demoSecrets.map demoOnion.publicKey) demoPayload,
      s ∈ demoLog := by
  decide +kernel

/-- Two hops: a relay, then the destination. -/
theorem construct_peels_demo : ∃ envelope,
    constructOnion demoOnion demoDraw (demoSecrets.map demoOnion.publicKey) demoPayload
        = .ok envelope ∧
      PeelsAlong demoOnion (OpensOnlyFor demoOnion) demoPayload envelope.currentLayer
        demoSecrets := by
  obtain ⟨envelope, hbuilt, _, hothers⟩ := construct_peels demoOnion (· ∈ demoLog)
    demoOnion_ideal.toOpensSealed demoOnion_agreement.toAgrees demoDraw demoSecrets (by decide)
    (by decide) demoPayload (by decide) demoOnion_sealings
  exact ⟨envelope, hbuilt, hothers demoOnion_ideal demoOnion_agreement⟩

theorem demoOnion_onionOf : ∃ layer,
    constructOnion demoOnion demoDraw (demoSecrets.map demoOnion.publicKey) demoPayload
        = .ok ⟨layer, []⟩ ∧
      OnionOf demoOnion (· ∈ demoLog) demoPayload (demoSecrets.map demoOnion.publicKey) layer :=
  constructOnion_onionOf demoOnion_ideal.toOpensSealed demoDraw (by decide) (by decide) (by decide)
    demoOnion_sealings

/-- A payload of no bytes does not open. -/
theorem modified_fails_emptyPayload : ∃ layer,
    constructOnion demoOnion demoDraw (demoSecrets.map demoOnion.publicKey) demoPayload
        = .ok ⟨layer, []⟩ ∧
      ∃ e, peelLayer demoOnion ⟨layer.set [] .encryptedPayload, []⟩ (RatchetSession.keyOfByte 1)
        = .error e := by
  obtain ⟨layer, hbuilt, honion⟩ := demoOnion_onionOf
  refine ⟨layer, hbuilt, ?_⟩
  obtain ⟨hop, ephemeralSecret, routingInfo, content, -, -, hsealed, -⟩ :=
    honion.outermost demoOnion_ideal.toOpensSealed
  have hdata : [] ≠ layer.encryptedPayload := by
    intro hnil
    have hlen := demoOnion_ideal.toOpensSealed.length_eq hsealed.content
    rw [← hnil] at hlen
    cases hlen
  exact (modified_fails_iff demoOnion (· ∈ demoLog) demoOnion_ideal demoOnion_agreement.toAgrees
    demoDraw _ demoPayload (by decide) demoOnion_sealings ⟨layer, []⟩ hbuilt
      (RatchetSession.keyOfByte 1) rfl
    .encryptedPayload [] hdata).mpr ⟨fun h => LayerField.noConfusion h.1,
      fun h => LayerField.noConfusion h.1⟩

/-- The layer of a relay with its routing information cut off. As it was made, the relay is
told the next hop; now it is told that it is the destination, and given the bytes of the next
layer as the message. -/
theorem relay_reports_destination : ∃ layer bytes,
    constructOnion demoOnion demoDraw (demoSecrets.map demoOnion.publicKey) demoPayload
        = .ok ⟨layer, []⟩ ∧
      peelLayer demoOnion ⟨layer, []⟩ (RatchetSession.keyOfByte 1)
        = .ok (some (demoOnion.publicKey (RatchetSession.keyOfByte 2)), bytes) ∧
      peelLayer demoOnion ⟨layer.set [] .encryptedRoutingInfo, []⟩ (RatchetSession.keyOfByte 1)
        = .ok (none, bytes) := by
  obtain ⟨layer, hbuilt, honion⟩ := demoOnion_onionOf
  cases honion with
  | relay behind sealed =>
    refine ⟨layer, _, hbuilt, ?_, sealed.peelLayer_noRouting demoOnion_ideal.toOpensSealed
      demoOnion_agreement.toAgrees []⟩
    rw [sealed.peelLayer_eq, demoOnion_agreement.agree]
    exact sealed.peelShared_relay demoOnion_ideal.toOpensSealed (.refl _ _) rfl

end Scm.Privacy
