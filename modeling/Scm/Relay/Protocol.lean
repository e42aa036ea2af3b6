import Scm.Bincode

/-!
# Relay protocol messages — `core/src/relay/protocol.rs`

The messages relays exchange, in bincode: a `u32` variant index, then the fields
in order. What `to_bytes` writes reads back (`fromBytes_toBytes`). A node tries every
incoming messaging request as one of these before it looks at it as a frame, so what
matters elsewhere is also which bytes are *not* a relay message (`fromBytes_eq_none`).

`reliability_score` is an `f32`, kept as its four bytes: nothing computes with it
here.
-/

namespace Scm.Relay

open List hiding Vector
open Bytes Bincode

structure RelayCapability where
  canRelay : Bool
  canStore : Bool
  hasInternet : Bool
  fullNode : Bool
  deriving DecidableEq, Repr

structure RelayPeerInfoMessage where
  peerId : String
  addresses : List String
  lastSeen : UInt64
  reliabilityScore : Vector UInt8 4
  capabilities : RelayCapability
  deriving DecidableEq, Repr

inductive RelayMessage where
  | handshake (version : UInt32) (peerId : String) (capabilities : RelayCapability)
  | handshakeAck (version : UInt32) (peerId : String) (capabilities : RelayCapability)
  | storeRequest (envelopes : List Bytes)
  | storeAck (accepted rejected : UInt32)
  | pullRequest (sinceTimestamp : UInt64) (hints : List (Vector UInt8 4))
  | pullResponse (envelopes : List Bytes)
  | peerExchange (knownRelays : List RelayPeerInfoMessage)
  | peerJoined (peerInfo : RelayPeerInfoMessage)
  | peerLeft (peerId : String)
  | peerListRequest
  | peerListResponse (peers : List RelayPeerInfoMessage)
  | ping
  | pong
  | disconnect (reason : String)
  deriving DecidableEq, Repr

def RelayCapability.read : Reader RelayCapability := do
  let canRelay ← bool
  let canStore ← bool
  let hasInternet ← bool
  let fullNode ← bool
  return { canRelay, canStore, hasInternet, fullNode }

def RelayPeerInfoMessage.read : Reader RelayPeerInfoMessage := do
  let peerId ← string
  let addresses ← vec string
  let lastSeen ← u64
  let reliabilityScore ← array 4
  let capabilities ← RelayCapability.read
  return { peerId, addresses, lastSeen, reliabilityScore, capabilities }

/-- A capability record as written. -/
def RelayCapability.serialize (c : RelayCapability) : Bytes :=
  putBool c.canRelay ++ (putBool c.canStore ++ (putBool c.hasInternet ++ putBool c.fullNode))

/-- A peer record as written. -/
def RelayPeerInfoMessage.serialize (p : RelayPeerInfoMessage) : Bytes :=
  putString p.peerId ++ (putVec putString p.addresses ++ (leBytes 8 p.lastSeen.toNat ++
    (p.reliabilityScore.toList ++ p.capabilities.serialize)))

/-- The lengths are those of Rust collections. -/
structure RelayPeerInfoMessage.Fits (p : RelayPeerInfoMessage) : Prop where
  peerId : p.peerId.utf8ByteSize < 2 ^ 64
  addresses : p.addresses.length < 2 ^ 64
  address : ∀ address ∈ p.addresses, address.utf8ByteSize < 2 ^ 64

theorem RelayCapability.read_append (c : RelayCapability) (rest : Bytes) :
    RelayCapability.read (c.serialize ++ rest) = some (c, rest) := by
  simp only [RelayCapability.read, RelayCapability.serialize, append_assoc]
  simp only [bind_eq _ (bool_append _ _)]
  rfl

theorem RelayPeerInfoMessage.read_append {p : RelayPeerInfoMessage} (h : p.Fits)
    (rest : Bytes) : RelayPeerInfoMessage.read (p.serialize ++ rest) = some (p, rest) := by
  have haddresses : ∀ address ∈ p.addresses, ∀ rest,
      string (putString address ++ rest) = some (address, rest) :=
    fun address hmem => string_append (h.address address hmem)
  simp only [RelayPeerInfoMessage.read, RelayPeerInfoMessage.serialize, append_assoc]
  rw [bind_eq _ (string_append h.peerId _), bind_eq _ (vec_append h.addresses haddresses _),
    bind_eq _ (u64_append _ _), bind_eq _ (array_append _ _),
    bind_eq _ (RelayCapability.read_append _ _)]
  rfl

namespace RelayMessage

/-- The fields of each variant, by its index in the enum. -/
def readVariant (index : Nat) : Reader RelayMessage :=
  match index with
  | 0 => return .handshake (← u32) (← string) (← RelayCapability.read)
  | 1 => return .handshakeAck (← u32) (← string) (← RelayCapability.read)
  | 2 => return .storeRequest (← vec bytes)
  | 3 => return .storeAck (← u32) (← u32)
  | 4 => return .pullRequest (← u64) (← vec (array 4))
  | 5 => return .pullResponse (← vec bytes)
  | 6 => return .peerExchange (← vec RelayPeerInfoMessage.read)
  | 7 => return .peerJoined (← RelayPeerInfoMessage.read)
  | 8 => return .peerLeft (← string)
  | 9 => return .peerListRequest
  | 10 => return .peerListResponse (← vec RelayPeerInfoMessage.read)
  | 11 => return .ping
  | 12 => return .pong
  | 13 => return .disconnect (← string)
  | _ => failure

def read : Reader RelayMessage := do
  let index ← uint 4
  readVariant index

/-- `RelayMessage::from_bytes`. -/
def fromBytes (data : Bytes) : Option RelayMessage := deserialize read data

/-- The index of each variant. -/
def index : RelayMessage → Nat
  | .handshake _ _ _ => 0
  | .handshakeAck _ _ _ => 1
  | .storeRequest _ => 2
  | .storeAck _ _ => 3
  | .pullRequest _ _ => 4
  | .pullResponse _ => 5
  | .peerExchange _ => 6
  | .peerJoined _ => 7
  | .peerLeft _ => 8
  | .peerListRequest => 9
  | .peerListResponse _ => 10
  | .ping => 11
  | .pong => 12
  | .disconnect _ => 13

/-- The fields of a message, as written. -/
def fields : RelayMessage → Bytes
  | .handshake version peerId capabilities | .handshakeAck version peerId capabilities =>
    leBytes 4 version.toNat ++ (putString peerId ++ capabilities.serialize)
  | .storeRequest envelopes | .pullResponse envelopes => putVec putBytes envelopes
  | .storeAck accepted rejected => leBytes 4 accepted.toNat ++ leBytes 4 rejected.toNat
  | .pullRequest sinceTimestamp hints =>
    leBytes 8 sinceTimestamp.toNat ++ putVec Vector.toList hints
  | .peerExchange peers | .peerListResponse peers => putVec RelayPeerInfoMessage.serialize peers
  | .peerJoined peerInfo => peerInfo.serialize
  | .peerLeft text | .disconnect text => putString text
  | .peerListRequest | .ping | .pong => []

/-- `RelayMessage::to_bytes`. -/
def toBytes (m : RelayMessage) : Bytes := leBytes 4 m.index ++ m.fields

/-- The lengths are those of Rust collections. -/
def Fits : RelayMessage → Prop
  | .handshake _ text _ | .handshakeAck _ text _ | .peerLeft text | .disconnect text =>
    text.utf8ByteSize < 2 ^ 64
  | .storeRequest envelopes | .pullResponse envelopes =>
    envelopes.length < 2 ^ 64 ∧ ∀ e ∈ envelopes, e.length < 2 ^ 64
  | .pullRequest _ hints => hints.length < 2 ^ 64
  | .peerExchange peers | .peerListResponse peers =>
    peers.length < 2 ^ 64 ∧ ∀ peer ∈ peers, peer.Fits
  | .peerJoined peerInfo => peerInfo.Fits
  | .storeAck _ _ | .peerListRequest | .ping | .pong => True

theorem readVariant_append {m : RelayMessage} (h : m.Fits) (rest : Bytes) :
    readVariant m.index (m.fields ++ rest) = some (m, rest) := by
  have hpeers {peers : List RelayPeerInfoMessage} (hfit : ∀ peer ∈ peers, peer.Fits) :
      ∀ peer ∈ peers, ∀ rest,
        RelayPeerInfoMessage.read (peer.serialize ++ rest) = some (peer, rest) :=
    fun peer hpeer => RelayPeerInfoMessage.read_append (hfit peer hpeer)
  have henvelopes {envelopes : List Bytes} (hfit : ∀ e ∈ envelopes, e.length < 2 ^ 64) :
      ∀ e ∈ envelopes, ∀ rest, bytes (putBytes e ++ rest) = some (e, rest) :=
    fun e he => bytes_append (hfit e he)
  cases m with
  | handshake version peerId capabilities | handshakeAck version peerId capabilities =>
    simp only [index, fields, readVariant, append_assoc]
    rw [bind_eq _ (u32_append _ _), bind_eq _ (string_append h _),
      bind_eq _ (RelayCapability.read_append _ _)]
    rfl
  | storeRequest envelopes | pullResponse envelopes =>
    simp only [index, fields, readVariant]
    rw [bind_eq _ (vec_append h.1 (henvelopes h.2) _)]
    rfl
  | storeAck accepted rejected =>
    simp only [index, fields, readVariant, append_assoc]
    simp only [bind_eq _ (u32_append _ _)]
    rfl
  | pullRequest sinceTimestamp hints =>
    simp only [index, fields, readVariant, append_assoc]
    rw [bind_eq _ (u64_append _ _), bind_eq _ (vec_append h (fun hint _ => array_append hint) _)]
    rfl
  | peerExchange peers | peerListResponse peers =>
    simp only [index, fields, readVariant]
    rw [bind_eq _ (vec_append h.1 (hpeers h.2) _)]
    rfl
  | peerJoined peerInfo =>
    simp only [index, fields, readVariant]
    rw [bind_eq _ (RelayPeerInfoMessage.read_append h _)]
    rfl
  | peerLeft text | disconnect text =>
    simp only [index, fields, readVariant]
    rw [bind_eq _ (string_append h _)]
    rfl
  | peerListRequest | ping | pong => rfl

theorem fromBytes_toBytes {m : RelayMessage} (h : m.Fits) : fromBytes m.toBytes = some m := by
  have hindex : m.index < 256 ^ 4 := by cases m <;> simp [index]
  have hfields := readVariant_append h []
  rw [append_nil] at hfields
  rw [fromBytes, deserialize, read, toBytes, bind_eq _ (uint_append hindex _), hfields]
  rfl

theorem readVariant_eq_failure {index : Nat} (h : 14 ≤ index) : readVariant index = failure := by
  obtain ⟨k, rfl⟩ := Nat.exists_eq_add_of_le' h
  rfl

/-- Bytes whose first four are not the index of a variant are no relay message. -/
theorem fromBytes_eq_none {data : Bytes} (h : 14 ≤ leAt 4 data 0) : fromBytes data = none := by
  unfold fromBytes deserialize read
  by_cases hlen : 4 ≤ data.length
  · have huint : uint 4 data = some (ofLe (data.take 4), data.drop 4) := bind_eq _ (if_pos hlen)
    have hindex : 14 ≤ ofLe (data.take 4) := h
    rw [bind_eq _ huint, readVariant_eq_failure hindex]
    rfl
  · have huint : uint 4 data = none := bind_eq_none _ (if_neg hlen)
    rw [bind_eq_none _ huint]
    rfl

end RelayMessage

end Scm.Relay
