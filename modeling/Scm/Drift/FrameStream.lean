import Scm.Drift.Frame
import Scm.Streams

/-!
# Frames on a stream — `core/src/drift/frame.rs`

`read_with_timeout` takes one frame off a connection: two bytes for the length, then as many as
the length says and four for the CRC, all within five seconds. Nothing marks where a frame
begins; the reader is at the right place only because every read before took exactly one frame.

`readWithTimeout_eq` is that step: when the stream begins with an encoded frame and its bytes
come in time, the frame is returned and the stream stands right behind it, however the bytes
were cut into deliveries. `readFrames_eq` is the whole stream, frame by frame. The caller may
take its time between two reads (`pauses`), during which bytes arrive as well.

Instants are in milliseconds. The CRC is a parameter.
-/

namespace Scm.Drift

open List Bytes Streams

/-- `FRAME_READ_TIMEOUT`. -/
def frameReadTimeout : Nat := 5000

/-- The error of a read, as `read_with_timeout` reports it. -/
def DriftError.ofRead : ReadError → DriftError
  | .timeout => .timeout
  | .failed message => .ioError message

namespace DriftFrame

variable (crc : Bytes → UInt32)

/-- `DriftFrame::read_with_timeout`. -/
def readWithTimeout (reader : Source UInt8) : Except DriftError DriftFrame × Source UInt8 :=
  let deadline := reader.clock + frameReadTimeout
  match reader.readExact deadline 2 with
  | (.error e, reader) => (.error (.ofRead e), reader)
  | (.ok lenBuf, reader) =>
    let length := leAt 2 lenBuf 0
    if length > frameMaxPayload + 1 then
      (.error (.bufferTooShort frameMaxPayload length), reader)
    else
      match reader.readExact deadline (length + 4) with
      | (.error e, reader) => (.error (.ofRead e), reader)
      | (.ok rest, reader) => (fromBytes crc (lenBuf ++ rest), reader)

/-- The reader after the caller has been busy for a while. -/
def waited (reader : Source UInt8) (pause : Nat) : Source UInt8 :=
  { reader with clock := reader.clock + pause }

/-- One call after another, each after a pause. -/
def readFrames : List Nat → Source UInt8 → List (Except DriftError DriftFrame) × Source UInt8
  | [], reader => ([], reader)
  | pause :: pauses, reader =>
    let (frame, reader) := readWithTimeout crc (waited reader pause)
    let (frames, reader) := readFrames pauses reader
    (frame :: frames, reader)

/-- Frames of these sizes arrive within the deadlines of reads with these pauses. -/
def InTime : List Nat → List Nat → Source UInt8 → Prop
  | pause :: pauses, size :: sizes, reader =>
    finish reader.deliveries size (reader.clock + pause)
        ≤ reader.clock + pause + frameReadTimeout ∧
      InTime pauses sizes ((waited reader pause).after size)
  | _, _, _ => True

variable {crc}

section
variable {f : DriftFrame} {b : Bytes} (h : f.toBytes crc = .ok b)
include h

theorem length_toBytes : b.length = f.payload.length + transportOverhead := by
  rw [(toBytes_eq_ok_iff.mp h).2, length_append, checked_length, leBytes_length, transportOverhead]
  omega

theorem leAt_take_toBytes : leAt 2 (b.take 2) 0 = 1 + f.payload.length := by
  obtain ⟨hlt, rfl⟩ := toBytes_eq_ok_iff.mp h
  have htake : (f.checked ++ leBytes 4 (crc f.checked).toNat).take 2
      = leBytes 2 (1 + f.payload.length) := by
    rw [checked, append_assoc, List.take_left' (leBytes_length _ _)]
  rw [htake]
  refine leAt_of_drop (r := []) (by rw [drop_zero, append_nil]) ?_
  rw [u16Max] at hlt
  omega

end

theorem readWithTimeout_eq {reader : Source UInt8} {f : DriftFrame} {b tail : Bytes}
    (hencoded : f.toBytes crc = .ok b) (hbytes : contents reader.deliveries = b ++ tail)
    (htime : finish reader.deliveries b.length reader.clock ≤ reader.clock + frameReadTimeout) :
    readWithTimeout crc reader = (.ok f, reader.after b.length) := by
  have hfits : f.payload.length < 65535 := (toBytes_eq_ok_iff.mp hencoded).1
  have hlen : b.length = 2 + (1 + f.payload.length + 4) := by
    rw [length_toBytes hencoded, transportOverhead]
    omega
  have hlength := leAt_take_toBytes hencoded
  rw [hlen, finish_add] at htime
  -- the length field, then the rest of the frame
  have hfirst : reader.readExact (reader.clock + frameReadTimeout) 2
      = (.ok (b.take 2), reader.after 2) := by
    have hhead : (contents reader.deliveries).take 2 = b.take 2 := by
      rw [hbytes, take_append_of_le_length (by omega)]
    rw [Source.readExact_eq, hhead]
    · rw [hbytes, length_append]
      omega
    · exact Nat.le_trans (clock_le_finish _ _ _) htime
  have hsecond : (reader.after 2).readExact (reader.clock + frameReadTimeout)
      (1 + f.payload.length + 4) = (.ok (b.drop 2), reader.after b.length) := by
    have hleft : contents (reader.after 2).deliveries = b.drop 2 ++ tail := by
      rw [Source.after, contents_rest, hbytes, drop_append_of_le_length (by omega)]
    have hsize : (b.drop 2).length = 1 + f.payload.length + 4 := by
      rw [length_drop]
      omega
    have htail : (contents (reader.after 2).deliveries).take (1 + f.payload.length + 4)
        = b.drop 2 := by
      rw [hleft, ← hsize, take_left]
    rw [Source.readExact_eq ?_ htime, htail, hlen, Source.after_add reader 2]
    rw [hleft, length_append, hsize]
    exact Nat.le_add_right _ _
  unfold readWithTimeout
  dsimp only
  rw [hfirst]
  dsimp only
  rw [hlength, if_neg (by rw [frameMaxPayload]; omega), hsecond]
  dsimp only
  rw [take_append_drop, fromBytes_toBytes hencoded]

/-- **A stream of frames.** For every list of frames that `to_bytes` accepts, however their
encodings are cut into deliveries: if they arrive within the deadlines, reading as many frames
returns exactly these, and nothing is left of the stream. -/
theorem readFrames_eq (crc : Bytes → UInt32) (frames : List DriftFrame) (encodings : List Bytes)
    (hencoded : List.Forall₂ (fun f b => f.toBytes crc = .ok b) frames encodings)
    (pauses : List Nat) (hpauses : pauses.length = frames.length) (reader : Source UInt8)
    (hbytes : contents reader.deliveries = encodings.flatten)
    (htime : InTime pauses (encodings.map List.length) reader) :
    (readFrames crc pauses reader).1 = frames.map .ok ∧
      contents (readFrames crc pauses reader).2.deliveries = [] := by
  induction hencoded generalizing pauses reader with
  | nil =>
    obtain rfl := eq_nil_of_length_eq_zero hpauses
    exact ⟨rfl, hbytes⟩
  | @cons f b frames encodings hf hrest ih =>
    cases pauses with
    | nil => cases hpauses
    | cons pause pauses =>
      obtain ⟨hnow, hlater⟩ := htime
      have hread : readWithTimeout crc (waited reader pause)
          = (.ok f, (waited reader pause).after b.length) :=
        readWithTimeout_eq hf hbytes hnow
      have hleft : contents ((waited reader pause).after b.length).deliveries
          = encodings.flatten := by
        rw [Source.after, contents_rest]
        show (contents reader.deliveries).drop b.length = _
        rw [hbytes, flatten_cons, drop_left]
      obtain ⟨hframes, hconsumed⟩ := ih pauses (Nat.succ.inj hpauses) _ hleft hlater
      rw [readFrames, hread]
      exact ⟨congrArg (Except.ok f :: ·) hframes, hconsumed⟩

/-- Two frames in three deliveries, cut in the middle of the length and of the payload. -/
theorem readFrames_eq_demo :
    (readFrames (fun _ => 7) [0, 1000]
      ⟨0, [⟨10, [3]⟩, ⟨4000, [0, 1, 11]⟩, ⟨4500, [12, 7, 0, 0, 0, 1, 0, 4, 7, 0, 0, 0]⟩],
        none⟩).1 = [.ok ⟨.data, [11, 12]⟩, .ok ⟨.ping, []⟩] :=
  (readFrames_eq (fun _ => 7) [⟨.data, [11, 12]⟩, ⟨.ping, []⟩]
    [[3, 0, 1, 11, 12, 7, 0, 0, 0], [1, 0, 4, 7, 0, 0, 0]]
    (.cons (by decide) (.cons (by decide) .nil)) [0, 1000] rfl _ (by decide)
    ⟨by decide, by decide, trivial⟩).1

end DriftFrame

end Scm.Drift
