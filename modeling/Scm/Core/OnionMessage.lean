import Scm.Core.Receive
import Scm.Privacy.Onion
import Scm.Store.RelayRegistry

/-!
# Onion messages in the core — `core/src/iron_core.rs`

`prepare_onion_message` and `peel_onion_layer` are the two ends of the onion that the apps and
the command line see. The first hands out the bytes of an `OnionEnvelope`. The second takes
such bytes, peels the layer, and hands out what it found. The two do not fit. What a peel
yields is a byte string, and `peel_onion_layer` serializes it once more, so that it comes with
a length in front; and it holds an `OnionLayer`, where the next `peel_onion_layer` reads an
`OnionEnvelope`. So the last hop does not get the payload, and an onion of more than one hop
stops at the second (`peelOnionLayer_peeled`).

`serde_json` is a parameter.
-/

namespace Scm.Core

open List hiding Vector
open Bincode Bytes Crypto Privacy Store OnionLayer

structure PeelResult where
  nextHop : Option Bytes
  remainingData : Bytes
  deriving DecidableEq, Repr

/-- `bincode::serialize(&envelope)`. -/
def serializeOnion (envelope : OnionEnvelope) : Bytes :=
  envelope.currentLayer.serialize ++ putBytes envelope.remainingLayers

def onionReader : Reader OnionEnvelope := do
  let currentLayer ← reader
  let remainingLayers ← bytes
  return ⟨currentLayer, remainingLayers⟩

/-- The relay keys, from hex. -/
def decodeRelayKeys (relayKeys : List String) : Option (List Key) :=
  relayKeys.mapM fun hex => (hexDecode hex.toList).bind keyOfSlice

/-- `prepare_onion_message`; `parseKeys` is `serde_json::from_str`. -/
def prepareOnionMessage (P : Primitives) (parseKeys : String → Option (List String))
    (draw : Nat → Key) (envelopeData : Bytes) (relayPublicKeysJson : String) :
    Except IronCoreError Bytes :=
  match parseKeys relayPublicKeysJson with
  | none => .error .invalidInput
  | some relayKeys =>
    if relayKeys.isEmpty then .ok envelopeData
    else
      match decodeRelayKeys relayKeys with
      | none => .error .invalidInput
      | some path =>
        match constructOnion P draw path envelopeData with
        | .error _ => .error .cryptoError
        | .ok envelope => .ok (serializeOnion envelope)

/-- `peel_onion_layer`. -/
def peelOnionLayer (P : Primitives) (onionData relaySecretKey : Bytes) :
    Except IronCoreError PeelResult :=
  match keyOfSlice relaySecretKey with
  | none => .error .invalidInput
  | some secret =>
    match deserialize onionReader onionData with
    | none => .error .invalidInput
    | some envelope =>
      match peelLayer P envelope secret with
      | .error _ => .error .cryptoError
      | .ok (nextHop, remaining) => .ok ⟨nextHop.map Vector.toList, putBytes remaining⟩

/-- The relays with these secrets take the data in turn: each finds the key of the next one and
what to hand to it, the last one no further hop and the payload. -/
def Relayed (P : Primitives) (payload : Bytes) : Bytes → List Key → Prop
  | data, [] => data = payload
  | data, [secret] => peelOnionLayer P data secret.toList = .ok ⟨none, payload⟩
  | data, secret :: next :: secrets => ∃ remainingData,
    peelOnionLayer P data secret.toList = .ok ⟨some (P.publicKey next).toList, remainingData⟩ ∧
      Relayed P payload remainingData (next :: secrets)

theorem deserialize_serializeOnion {layer : OnionLayer} {remaining : Bytes}
    (hpk : layer.ephemeralPk.length < 2 ^ 64)
    (hrouting : layer.encryptedRoutingInfo.length < 2 ^ 64)
    (hpayload : layer.encryptedPayload.length < 2 ^ 64) (hremaining : remaining.length < 2 ^ 64) :
    deserialize onionReader (serializeOnion ⟨layer, remaining⟩) = some ⟨layer, remaining⟩ := by
  have hlayer : reader (layer.serialize ++ putBytes remaining)
      = some (layer, putBytes remaining) := reader_append hpk hrouting hpayload _
  have hrest := bytes_append hremaining []
  rw [append_nil] at hrest
  rw [deserialize, serializeOnion, onionReader, bind_eq _ hlayer, bind_eq _ hrest]
  rfl

/-- Bytes behind their length are not an envelope: they are read as its first field, and then
there is nothing left. -/
theorem deserialize_putBytes {data : Bytes} (h : data.length < 2 ^ 64) :
    deserialize onionReader (putBytes data) = none := by
  have hfirst := bytes_append h []
  rw [append_nil] at hfirst
  have hend : bytes [] = none := bind_eq_none _ (bind_eq_none _ rfl)
  have hlayer : reader (putBytes data) = none := by
    rw [reader, bind_eq _ hfirst, bind_eq_none _ hend]
  rw [deserialize, onionReader, bind_eq_none _ hlayer, Option.map_none]

theorem length_putBytes (data : Bytes) : (putBytes data).length = data.length + 8 := by
  rw [putBytes, length_append, leBytes_length, Nat.add_comm]

section
variable {P : Primitives} {made : Sealing → Prop} {payload : Bytes} {layer : OnionLayer}

section
variable (hP : OpensSealed P made)
include hP

section
variable {hops : List Key} (honion : OnionOf P made payload hops layer)
  (hhops : hops.length ≤ maxOnionHops) (hpayload : payload.length < 2 ^ 63) (secret : Key)
include honion hhops hpayload

theorem peelOnionLayer_serializeOnion {nextHop : Option Key} {remaining : Bytes}
    (hpeel : peelLayer P ⟨layer, []⟩ secret = .ok (nextHop, remaining)) :
    peelOnionLayer P (serializeOnion ⟨layer, []⟩) secret.toList
      = .ok ⟨nextHop.map Vector.toList, putBytes remaining⟩ := by
  have hlen := honion.length_serialize_le hP
  rw [length_serialize] at hlen
  unfold maxOnionHops at hhops
  rw [peelOnionLayer, keyOfSlice_toList]
  rw [deserialize_serializeOnion (by omega) (by omega) (by omega) (by simp)]
  dsimp only
  rw [hpeel]

/-- What it hands on is refused by the next `peel_onion_layer`, whoever calls it. -/
theorem peelOnionLayer_peeled :
    peelOnionLayer P (putBytes layer.serialize) secret.toList = .error .invalidInput := by
  have hlen := honion.length_serialize_le hP
  unfold maxOnionHops at hhops
  rw [peelOnionLayer, keyOfSlice_toList]
  rw [deserialize_putBytes (by omega)]

end

/-- The destination finds the payload, a relay the next hop and its layer. -/
theorem peelLayer_destination (hA : Agrees P) {secret : Key}
    (honion : OnionOf P made payload [P.publicKey secret] layer) :
    peelLayer P ⟨layer, []⟩ secret = .ok (none, payload) := by
  cases honion with
  | destination sealed =>
    rw [sealed.peelLayer_eq, hA.agree]
    exact sealed.peelShared_destination hP (.refl P _) rfl

theorem peelLayer_relay (hA : Agrees P) {secret next : Key} {hops : List Key}
    (honion : OnionOf P made payload (P.publicKey secret :: next :: hops) layer) :
    ∃ inner, peelLayer P ⟨layer, []⟩ secret = .ok (some next, inner.serialize) ∧
      OnionOf P made payload (next :: hops) inner := by
  cases honion with
  | relay behind sealed =>
    refine ⟨_, ?_, behind⟩
    rw [sealed.peelLayer_eq, hA.agree]
    exact sealed.peelShared_relay hP (.refl P _) rfl

theorem not_relayed (hA : Agrees P) (hpayload : payload.length < 2 ^ 63) :
    ∀ {secrets : List Key}, secrets.length ≤ maxOnionHops →
      OnionOf P made payload (secrets.map P.publicKey) layer →
      ¬ Relayed P payload (serializeOnion ⟨layer, []⟩) secrets
  | [], _, honion => nomatch honion
  | [secret], hhops, honion => by
    intro hrelayed
    rw [Relayed, peelOnionLayer_serializeOnion hP honion hhops hpayload secret
      (peelLayer_destination hP hA honion)] at hrelayed
    -- the payload would be as long as with its length in front
    have hlen := congrArg List.length (congrArg PeelResult.remainingData (Except.ok.inj hrelayed))
    rw [length_putBytes] at hlen
    dsimp only at hlen
    omega
  | secret :: next :: secrets, hhops, honion => by
    have hall : ((secret :: next :: secrets).map P.publicKey).length ≤ maxOnionHops := by
      rwa [length_map]
    obtain ⟨inner, hpeel, hinner⟩ := peelLayer_relay hP hA honion
    rintro ⟨remainingData, hfirst, hrest⟩
    rw [peelOnionLayer_serializeOnion hP honion hall hpayload secret hpeel] at hfirst
    have hdata : putBytes inner.serialize = remainingData :=
      congrArg PeelResult.remainingData (Except.ok.inj hfirst)
    rw [← hdata] at hrest
    have hrefused := peelOnionLayer_peeled hP hinner (Nat.le_of_succ_le hall) hpayload next
    cases secrets with
    | nil =>
      rw [Relayed, hrefused] at hrest
      cases hrest
    | cons third secrets =>
      obtain ⟨_, hsecond, -⟩ := hrest
      rw [hrefused] at hsecond
      cases hsecond

end

theorem prepareOnionMessage_onionOf (hP : OpensSealed P fun _ => True)
    (parseKeys : String → Option (List String)) (draw : Nat → Key) {path : List Key}
    (hpath : path ≠ []) (hhops : path.length ≤ maxOnionHops) (payload : Bytes)
    (hpayload : payload.length < 2 ^ 63) {json : String} {relayKeys : List String}
    (hjson : parseKeys json = some relayKeys) (hkeys : decodeRelayKeys relayKeys = some path) :
    ∃ layer, prepareOnionMessage P parseKeys draw payload json = .ok (serializeOnion ⟨layer, []⟩) ∧
      OnionOf P (fun _ => True) payload path layer := by
  have hrelays : relayKeys.isEmpty = false := by
    cases relayKeys with
    | nil => exact absurd (Option.some.inj hkeys).symm hpath
    | cons => rfl
  obtain ⟨layer, hbuilt, honion⟩ := constructOnion_onionOf hP draw hpath hhops hpayload
    (fun _ _ => trivial)
  refine ⟨layer, ?_, honion⟩
  simp only [prepareOnionMessage, hjson, hrelays, Bool.false_eq_true, if_false, hkeys, hbuilt]

end

/-- **Onion messages do not come through.** For up to five relay key pairs, whose public keys
the JSON text spells in hex, and every payload: `prepare_onion_message` followed by
`peel_onion_layer` at each relay in turn gives each the next hop and the last one the payload if
and only if there is no relay at all. -/
theorem onion_roundTrip_iff (P : Primitives) (hP : OpensSealed P fun _ => True) (hA : Agrees P)
    (parseKeys : String → Option (List String)) (draw : Nat → Key) (secrets : List Key)
    (hhops : secrets.length ≤ maxOnionHops) (payload : Bytes) (hpayload : payload.length < 2 ^ 63)
    (json : String) (relayKeys : List String) (hjson : parseKeys json = some relayKeys)
    (hkeys : decodeRelayKeys relayKeys = some (secrets.map P.publicKey)) :
    (∃ data, prepareOnionMessage P parseKeys draw payload json = .ok data ∧
      Relayed P payload data secrets) ↔ secrets = [] := by
  constructor
  · rintro ⟨data, hprepare, hrelayed⟩
    by_contra hsome
    have hpath : secrets.map P.publicKey ≠ [] := by rwa [ne_eq, map_eq_nil_iff]
    obtain ⟨layer, hprepared, honion⟩ := prepareOnionMessage_onionOf hP parseKeys draw
      hpath (by rwa [length_map]) payload hpayload hjson hkeys
    cases hprepared.symm.trans hprepare
    exact not_relayed hP hA hpayload hhops honion hrelayed
  · rintro rfl
    have hnone : relayKeys = [] := by
      cases relayKeys with
      | nil => rfl
      | cons first rest => simp_all [decodeRelayKeys, mapM_cons, Option.bind_eq_some_iff]
    subst hnone
    exact ⟨payload, by simp only [prepareOnionMessage, hjson, isEmpty_nil, if_true], rfl⟩

/-! ## One relay, and two -/

/-- The primitives of the small onion, with an AEAD that checks the tag and takes it off. -/
def demoTagged : Primitives :=
  { demoBase with
    aeadDecrypt := fun key nonce _ ciphertext =>
      let plaintext := ciphertext.take (ciphertext.length - 16)
      if ciphertext = plaintext ++ (arrayAt 16 (nonce.take 8 ++ key.toList) 0).toList then
        some plaintext
      else none }

theorem demoTagged_opens : OpensSealed demoTagged fun _ => True where
  seals key nonce aad plaintext := by
    refine ⟨_, rfl, ?_⟩
    rw [length_append, Vector.length_toList]
    rfl
  opens s ciphertext _ hsealed := by
    obtain rfl : s.plaintext ++ (arrayAt 16 (s.nonce.take 8 ++ s.key.toList) 0).toList
        = ciphertext := Option.some.inj hsealed
    have htake (tag : Vector UInt8 16) :
        (s.plaintext ++ tag.toList).take ((s.plaintext ++ tag.toList).length - 16)
          = s.plaintext := by
      rw [length_append, Vector.length_toList, Nat.add_sub_cancel, take_left]
    show (if _ = List.take _ _ ++ _ then some (List.take _ _) else none) = _
    rw [htake, if_pos rfl]

theorem demoTagged_agrees : Agrees demoTagged := ⟨zipWith_add_comm⟩

theorem decodeRelayKeys_toHex (keys : List Key) :
    decodeRelayKeys (keys.map fun key => toHex key.toList) = some keys := by
  induction keys with
  | nil => rfl
  | cons key keys ih => simp_all [decodeRelayKeys, hexDecode_toHex, keyOfSlice_toList]

/-- A reader of JSON that finds these keys. -/
def demoParse (keys : List Key) : String → Option (List String) :=
  fun _ => some (keys.map fun key => toHex key.toList)

theorem onion_roundTrip_iff_one :
    ¬ ∃ data,
      prepareOnionMessage demoTagged (demoParse [demoKey 2]) demoDraw demoPayload "" = .ok data ∧
      Relayed demoTagged demoPayload data [demoKey 2] := by
  intro h
  cases (onion_roundTrip_iff demoTagged demoTagged_opens demoTagged_agrees (demoParse [demoKey 2])
    demoDraw [demoKey 2] (by decide) demoPayload (by decide) "" _ rfl
    (decodeRelayKeys_toHex [demoKey 2])).mp h

/-- With one relay the payload comes out with its length in front, and with two the second relay
cannot read what the first one hands on. -/
theorem onion_message_lost :
    (∃ data,
      prepareOnionMessage demoTagged (demoParse [demoKey 2]) demoDraw demoPayload "" = .ok data ∧
      peelOnionLayer demoTagged data (demoKey 2).toList
        = .ok ⟨none, [2, 0, 0, 0, 0, 0, 0, 0, 104, 105]⟩) ∧
    ∃ data remainingData,
      prepareOnionMessage demoTagged (demoParse [demoKey 1, demoKey 2]) demoDraw demoPayload ""
        = .ok data ∧
      peelOnionLayer demoTagged data (demoKey 1).toList
        = .ok ⟨some (demoKey 2).toList, remainingData⟩ ∧
      peelOnionLayer demoTagged remainingData (demoKey 2).toList = .error .invalidInput := by
  constructor
  · obtain ⟨layer, hprepared, honion⟩ := prepareOnionMessage_onionOf demoTagged_opens
      (demoParse [demoKey 2]) demoDraw (by decide) (by decide) demoPayload (by decide) rfl
      (decodeRelayKeys_toHex [demoKey 2])
    exact ⟨_, hprepared, peelOnionLayer_serializeOnion demoTagged_opens honion (by decide)
      (by decide) _ (peelLayer_destination demoTagged_opens demoTagged_agrees honion)⟩
  · obtain ⟨layer, hprepared, honion⟩ := prepareOnionMessage_onionOf demoTagged_opens
      (demoParse [demoKey 1, demoKey 2]) demoDraw (by decide) (by decide) demoPayload (by decide)
      rfl (decodeRelayKeys_toHex [demoKey 1, demoKey 2])
    obtain ⟨inner, hpeel, hinner⟩ := peelLayer_relay demoTagged_opens demoTagged_agrees honion
    exact ⟨_, _, hprepared, peelOnionLayer_serializeOnion demoTagged_opens honion (by decide)
      (by decide) _ hpeel, peelOnionLayer_peeled demoTagged_opens hinner (by decide) (by decide) _⟩

end Scm.Core
