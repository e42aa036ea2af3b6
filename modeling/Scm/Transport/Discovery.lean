import Scm.Transport.Delivery

/-!
# Announcing peers — `core/src/transport/swarm.rs`, `core/src/transport/peer_broadcast.rs`

A node tells its neighbours about peers that join and leave with three relay messages, sent
over the messaging protocol. The recipient's handler tries every request as a relay message
first and answers these three itself (`isDiscovery`); everything else goes on to the frame
and then to the application.

The two ends do not fit together. The sender puts the message into a frame before it is
sent, and the handler looks for it before it takes a frame off. A frame never parses as a
relay message, because its third byte is the frame type and so its first four bytes are no
variant index (`variant_frame`). What is too long for a frame is sent raw (`announced_iff`).
-/

namespace Scm.Transport

open Bytes Drift Relay

section Announcing

variable (crc : Bytes → UInt32) (senderBlocked : Bool)

/-- What goes out for a peer-discovery message. -/
def announce (m : RelayMessage) : Bytes := wrapInDriftFrame crc m.toBytes

theorem receiveMessaging_ne_discovery {data : Bytes} (h : 14 ≤ leAt 4 data 0)
    (m : RelayMessage) : receiveMessaging crc senderBlocked data ≠ .discovery m := by
  unfold receiveMessaging
  rw [RelayMessage.fromBytes_eq_none h]
  cases senderBlocked <;> nofun

/-- An announcement that arrives without a frame is recognised, from a blocked peer too. -/
theorem receiveMessaging_toBytes {m : RelayMessage} (hm : isDiscovery m = true) (hfits : m.Fits) :
    receiveMessaging crc senderBlocked m.toBytes = .discovery m := by
  unfold receiveMessaging
  rw [RelayMessage.fromBytes_toBytes hfits]
  exact if_pos hm

/-- An envelope is not taken for an announcement, in a frame or too long for one. -/
theorem envelope_ne_discovery {lz4 : Lz4} {envelope : DriftEnvelope} {e : Bytes}
    (he : envelope.toBytes lz4 = .ok e) (m : RelayMessage) :
    receiveMessaging crc senderBlocked (wrapInDriftFrame crc e) ≠ .discovery m := by
  rcases Nat.lt_or_ge e.length u16Max with hshort | hlong
  · exact receiveMessaging_ne_discovery crc senderBlocked (variant_wrapInDriftFrame crc hshort) m
  · grind [wrapInDriftFrame_of_ge, receiveMessaging_ne_discovery, variant_toBytes]

/-- **Which announcements arrive.** A peer-discovery message is recognised by the recipient
exactly when it is too long for a frame. No frame, and no envelope however it is sent, is
taken for one. -/
theorem announced_iff (lz4 : Lz4) (m : RelayMessage) (hm : isDiscovery m = true) (hfits : m.Fits) :
    (receiveMessaging crc senderBlocked (announce crc m) = .discovery m ↔
      65535 ≤ m.toBytes.length) ∧
    (∀ (frame : DriftFrame) (b : Bytes), frame.toBytes crc = .ok b →
      ∀ other, receiveMessaging crc senderBlocked b ≠ .discovery other) ∧
    ∀ (envelope : DriftEnvelope) (e : Bytes), envelope.toBytes lz4 = .ok e →
      ∀ other, receiveMessaging crc senderBlocked (wrapInDriftFrame crc e) ≠ .discovery other := by
  refine ⟨?_, ?_, ?_⟩
  · grind [announce, u16Max, receiveMessaging_ne_discovery, variant_wrapInDriftFrame,
      wrapInDriftFrame_of_ge, receiveMessaging_toBytes]
  · grind [receiveMessaging_ne_discovery, variant_frame]
  · grind [envelope_ne_discovery]

end Announcing

/-- The announcement of a peer that has left. -/
def demoPeerLeft : RelayMessage := .peerLeft "12D3KooW"

theorem announced_iff_demo :
    isDiscovery demoPeerLeft = true ∧ demoPeerLeft.Fits ∧
    (receiveMessaging demoCrc false (announce demoCrc demoPeerLeft) = .discovery demoPeerLeft ↔
      65535 ≤ demoPeerLeft.toBytes.length) := by
  have hfits : demoPeerLeft.Fits := by
    show ("12D3KooW" : String).utf8ByteSize < 2 ^ 64
    decide
  exact ⟨rfl, hfits,
    (announced_iff demoCrc false DriftEnvelope.literalLz4 demoPeerLeft rfl hfits).1⟩

/-- The message reaches the application as the bytes of an envelope. -/
theorem announcement_not_recognised :
    isDiscovery demoPeerLeft = true ∧
    receiveMessaging demoCrc false (announce demoCrc demoPeerLeft)
      = .messageReceived demoPeerLeft.toBytes ∧
    receiveMessaging demoCrc false (announce demoCrc demoPeerLeft) ≠ .discovery demoPeerLeft := by
  have hshort : demoPeerLeft.toBytes.length < u16Max := by decide
  have hout : receiveMessaging demoCrc false (announce demoCrc demoPeerLeft)
      = .messageReceived demoPeerLeft.toBytes := by
    simp_all [announce, receiveMessaging_of_variant, variant_wrapInDriftFrame,
      unwrapDriftFrame_wrapInDriftFrame]
  refine ⟨rfl, hout, ?_⟩
  rw [hout]
  nofun

end Scm.Transport
