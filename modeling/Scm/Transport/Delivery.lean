import Scm.Store.CustodyQueues
import Scm.Transport.Swarm

/-!
# What a delivered envelope arrives as

The frame is put on with `wrap_in_drift_frame` and taken off by the recipient's
messaging handler. On a direct route that happens once each, and the recipient has
the sender's bytes whatever their length: too long to frame means sent raw, and an
encoded envelope that long is taken neither for a frame nor for a relay message.

Through a relay the frame is put on twice, at the sender and when the record
leaves custody, and taken off once. The recipient is left with a frame around the
envelope, except when the second framing fails because the first already filled the
length field.
-/

namespace Scm.Transport

open List Bytes Drift Relay Store DriftFrame RelayCustodyStore

/-! ## Framing once -/

section Framing

variable (crc : Bytes → UInt32) {data : Bytes}

theorem toBytes_wrapInDriftFrame (h : data.length < u16Max) :
    toBytes crc { frameType := .data, payload := data }
      = .ok (wrapInDriftFrame crc data) := by
  have hok := (@toBytes_eq_ok_iff crc { frameType := .data, payload := data } _).mpr
    ⟨h, rfl⟩
  rw [wrapInDriftFrame, hok]

theorem wrapInDriftFrame_of_ge (h : u16Max ≤ data.length) : wrapInDriftFrame crc data = data := by
  unfold wrapInDriftFrame
  split
  next hok => exact absurd (toBytes_eq_ok_iff.mp hok).1 (by simpa using h)
  next => rfl

theorem length_wrapInDriftFrame (h : data.length < u16Max) :
    (wrapInDriftFrame crc data).length = data.length + 7 := by
  obtain ⟨_, hbytes⟩ := toBytes_eq_ok_iff.mp (toBytes_wrapInDriftFrame crc h)
  rw [hbytes, length_append, checked_length, leBytes_length]
  show 3 + data.length + 4 = data.length + 7
  omega

theorem unwrapDriftFrame_wrapInDriftFrame (h : data.length < u16Max) :
    unwrapDriftFrame crc (wrapInDriftFrame crc data) = data := by
  rw [unwrapDriftFrame, fromBytes_toBytes (toBytes_wrapInDriftFrame crc h)]

/-- A frame is no relay message: its third byte is the frame type. -/
theorem variant_frame {f : DriftFrame} {b : Bytes} (h : f.toBytes crc = .ok b) :
    14 ≤ leAt 4 b 0 := by
  obtain ⟨_, rfl⟩ := toBytes_eq_ok_iff.mp h
  have htype : 1 ≤ f.frameType.asU8.toNat := by cases f.frameType <;> decide
  rw [checked]
  simp only [leAt, drop_zero, leBytes, cons_append, nil_append, take_succ_cons, ofLe]
  omega

theorem variant_wrapInDriftFrame (h : data.length < u16Max) :
    14 ≤ leAt 4 (wrapInDriftFrame crc data) 0 :=
  variant_frame crc (toBytes_wrapInDriftFrame crc h)

theorem receiveMessaging_of_variant (h : 14 ≤ leAt 4 data 0) :
    receiveMessaging crc false data = .messageReceived (unwrapDriftFrame crc data) := by
  unfold receiveMessaging
  rw [RelayMessage.fromBytes_eq_none h]
  rfl

end Framing

/-! ## Encoded envelopes -/

theorem typeByte_bounds (e : DriftEnvelope) : 1 ≤ e.typeByte.toNat ∧ e.typeByte.toNat ≤ 0x88 := by
  unfold DriftEnvelope.typeByte
  cases e.envelopeType <;> cases e.compressed <;> decide

variable {envelope : DriftEnvelope} {e : Bytes} {lz4 : Lz4}

/-- An encoded envelope starts with its version and its type byte. -/
theorem toBytes_eq_cons (he : envelope.toBytes lz4 = .ok e) :
    ∃ rest, e = envelope.version :: envelope.typeByte :: rest := by
  obtain ⟨_, rfl⟩ := DriftEnvelope.toBytes_eq_ok_iff.mp he
  exact ⟨_, rfl⟩

theorem variant_toBytes (he : envelope.toBytes lz4 = .ok e) : 14 ≤ leAt 4 e 0 := by
  obtain ⟨rest, rfl⟩ := toBytes_eq_cons he
  have htype := (typeByte_bounds envelope).1
  simp only [leAt, drop_zero, take_succ_cons, ofLe]
  omega

variable (crc : Bytes → UInt32)

section
variable (he : envelope.toBytes lz4 = .ok e)
include he

/-- Not a frame, once it is too long to be framed: the length field would have to
be larger than any type byte allows. -/
theorem unwrapDriftFrame_toBytes (hlong : u16Max ≤ e.length) :
    unwrapDriftFrame crc e = e := by
  have hu : u16Max = 65535 := rfl
  have hfield : leAt 2 e 0 ≤ 255 + 256 * 0x88 := by
    obtain ⟨rest, rfl⟩ := toBytes_eq_cons he
    have htype := (typeByte_bounds envelope).2
    have hversion := envelope.version.toNat_lt
    simp only [leAt, drop_zero, take_succ_cons, take_zero, ofLe]
    omega
  unfold unwrapDriftFrame fromBytes
  rw [if_neg (by rw [transportOverhead]; omega)]
  dsimp only
  rw [if_neg (by rw [frameMaxPayload]; omega), if_pos (by omega)]

theorem receiveMessaging_wrap :
    receiveMessaging crc false (wrapInDriftFrame crc e) = .messageReceived e := by
  rcases Nat.lt_or_ge e.length u16Max with hshort | hlong
  · rw [receiveMessaging_of_variant crc (variant_wrapInDriftFrame crc hshort),
      unwrapDriftFrame_wrapInDriftFrame crc hshort]
  · rw [wrapInDriftFrame_of_ge crc hlong, receiveMessaging_of_variant crc (variant_toBytes he),
      unwrapDriftFrame_toBytes crc he hlong]

/-- And of one framed twice: the envelope survives when the second framing fails. -/
theorem receiveMessaging_wrap_wrap_iff :
    receiveMessaging crc false (wrapInDriftFrame crc (wrapInDriftFrame crc e))
      = .messageReceived e ↔ 65528 ≤ e.length := by
  have hu : u16Max = 65535 := rfl
  rcases Nat.lt_or_ge (wrapInDriftFrame crc e).length u16Max with hshort | hlong
  · -- the inner frame is what comes out, and it is longer than `e`
    have hlt : e.length < u16Max := by
      rcases Nat.lt_or_ge e.length u16Max with hlt | hge
      · exact hlt
      · rwa [wrapInDriftFrame_of_ge crc hge] at hshort
    have hlen := length_wrapInDriftFrame crc hlt
    rw [receiveMessaging_of_variant crc (variant_wrapInDriftFrame crc hshort),
      unwrapDriftFrame_wrapInDriftFrame crc hshort]
    constructor
    · grind
    · intro h
      omega
  · grind [wrapInDriftFrame_of_ge, receiveMessaging_wrap, u16Max, length_wrapInDriftFrame]

end

/-- **What arrives.** On a direct route the recipient gets the sender's envelope.
Through a relay that took the request into custody (a record `c` that was not there
before), whatever else the relay does before, between and after, each time it sends
that record on the recipient gets the envelope exactly when it is at least 65528
bytes long. -/
theorem delivered_payload {Peer : Type} [DecidableEq Peer] (ids : PeerIds Peer) (P : Platform)
    (crc : Bytes → UInt32) (lz4 : Lz4) (envelope : DriftEnvelope) (e : Bytes)
    (he : envelope.toBytes lz4 = .ok e) (messageId : String) (target : Peer)
    (identityId deviceId : Option String) :
    (∀ hop, ∃ data,
      dispatchRankedRoute ids crc [hop] messageId target e identityId deviceId
        = some (.messaging target data) ∧
      receiveMessaging crc false data = .messageReceived e) ∧
    (∀ relayPeer hop rest, ∃ request,
      dispatchRankedRoute ids crc (relayPeer :: hop :: rest) messageId target e identityId deviceId
        = some (.relay relayPeer request) ∧
      ∀ (n : RelayNode Peer) (env : Reading) (hourElapsed admitted : Bool) (sender : Peer)
        (c : CustodyMessage) (events : List (RelayEvent Peer)),
        (∀ r ∈ n.custody.values, r.custodyId ≠ c.custodyId) →
        c ∈ (n.step ids P crc
          (.relayRequest env hourElapsed admitted sender request)).1.custody.values →
        ∀ m ∈ (n.run ids P crc
          (.relayRequest env hourElapsed admitted sender request :: events)).2,
          m.custodyId = c.custodyId →
          (receiveMessaging crc false m.envelopeData = .messageReceived e ↔ 65528 ≤ e.length)) := by
  constructor
  · intro hop
    exact ⟨_, rfl, receiveMessaging_wrap crc he⟩
  · intro relayPeer hop rest
    refine ⟨_, rfl, ?_⟩
    intro n env hourElapsed admitted sender c events hold hc m hm hid
    rw [RelayNode.run_relayRequest_carries ids P crc env hourElapsed admitted sender _ n hold hc
      events m hm hid]
    exact receiveMessaging_wrap_wrap_iff crc he

/-! ## A small run -/

/-- Peers named by one byte. -/
def demoIds : PeerIds UInt8 where
  toBytes peer := [peer]
  fromBytes
    | [peer] => some peer
    | _ => none
  toText peer := toString peer.toNat

def demoCrc : Bytes → UInt32 := fun data => UInt32.ofNat data.length

def demoRelay : RelayNode UInt8 := .started (empty none 0)

def demoBytes : Bytes :=
  (DriftEnvelope.sampleEnvelope.fields
    (DriftEnvelope.sampleEnvelope.wireCiphertext DriftEnvelope.literalLz4)).flatten

/-- What the sender asks the relay to hold for peer 9. -/
def demoRequest : RelayRequest where
  destinationPeer := [9]
  envelopeData := wrapInDriftFrame demoCrc demoBytes
  messageId := "m"
  recipientIdentityId := none
  intendedDeviceId := none

/-- The recipient comes online and the relay pulls what it holds. -/
def demoEvents : List (RelayEvent UInt8) :=
  [.connected 9, .pull (idleReading 2000) 9 "peer_reconnect"]

def demoSent : List (Sent UInt8) :=
  (demoRelay.run demoIds plainPlatform demoCrc
    (.relayRequest (idleReading 1000) false true 5 demoRequest :: demoEvents)).2

/-- The relay sends the record on once, and the recipient passes a frame around the
envelope to the application, not the envelope. -/
theorem relayed_envelope_arrives_framed :
    DriftEnvelope.sampleEnvelope.toBytes DriftEnvelope.literalLz4 = .ok demoBytes ∧
      dispatchRankedRoute demoIds demoCrc [7, 9] "m" 9 demoBytes none none
        = some (.relay 7 demoRequest) ∧
      demoSent.map (fun m => receiveMessaging demoCrc false m.envelopeData)
        = [.messageReceived (wrapInDriftFrame demoCrc demoBytes)] ∧
      wrapInDriftFrame demoCrc demoBytes ≠ demoBytes := by
  refine ⟨rfl, rfl, by decide +kernel, fun heq => ?_⟩
  have hlen := @length_wrapInDriftFrame demoCrc demoBytes (by decide +kernel)
  rw [heq] at hlen
  omega

/-- The same run through the general statement. -/
theorem delivered_payload_demo :
    (∃ data, dispatchRankedRoute demoIds demoCrc [9] "m" 9 demoBytes none none
        = some (.messaging 9 data) ∧
      receiveMessaging demoCrc false data = .messageReceived demoBytes) ∧
    demoSent ≠ [] ∧ ∀ m ∈ demoSent,
      (receiveMessaging demoCrc false m.envelopeData = .messageReceived demoBytes ↔
        65528 ≤ demoBytes.length) := by
  obtain ⟨hdirect, hrelay⟩ := delivered_payload demoIds plainPlatform demoCrc
    DriftEnvelope.literalLz4 DriftEnvelope.sampleEnvelope demoBytes rfl "m" 9 none none
  obtain ⟨request, hrequest, hsent⟩ := hrelay 7 9 []
  obtain rfl : demoRequest = request := (Outgoing.relay.inj (Option.some.inj hrequest)).2
  have hstored : (demoRelay.step demoIds plainPlatform demoCrc
      (.relayRequest (idleReading 1000) false true 5 demoRequest)).1.custody.values.map
        CustodyMessage.custodyId = ["m-1000-0"] := by decide +kernel
  have hids : demoSent.map Sent.custodyId = ["m-1000-0"] := by decide +kernel
  obtain ⟨c, hvalues, hc⟩ := map_eq_singleton_iff.mp hstored
  obtain ⟨only, honly, hid⟩ := map_eq_singleton_iff.mp hids
  refine ⟨hdirect 9, by rw [honly]; exact cons_ne_nil _ _, fun m hm => ?_⟩
  refine hsent demoRelay (idleReading 1000) false true 5 c demoEvents ?_ ?_ m hm ?_
  · exact fun r hr => absurd hr not_mem_nil
  · grind
  · grind

end Scm.Transport
