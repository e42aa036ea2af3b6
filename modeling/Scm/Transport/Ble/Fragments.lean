import Scm.Bytes
import Scm.Chunks

/-!
# Fragments over Bluetooth — `core/src/transport/ble/gatt.rs`, `core/src/transport/ble/l2cap.rs`

A message longer than a GATT write or an L2CAP packet is cut into numbered fragments,
`[2 LE total][2 LE index][payload]`, and put together again from the list of them. The two
files hold the same code twice, with their own error types, sizes and one text of their own:
`fragment` and `reassemble` are that code, and `GattFragmenter`, `GattReassembler`,
`L2capFragmenter`, `L2capReassembler` are its two uses.

The fragments of a message make it again (`reassemble_fragmentsOf`). The empty message is the
exception: it is sent as one fragment without a header, and `reassemble` wants a header of every
fragment.
-/

namespace Scm.Transport.Ble

open List Bytes Chunks

/-- The two errors that fragment code of either file builds. -/
structure FragmentErrors (ε : Type) where
  fragmentation : String → ε
  reassembly : String → ε

variable {ε : Type} (errors : FragmentErrors ε)

/-! ## The header -/

/-- `FragmentHeader`, `GattFragmentHeader`: both come from `new` only, which checks the index. -/
structure FragmentHeader where
  totalFragments : UInt16
  fragmentIndex : UInt16
  index_lt : fragmentIndex < totalFragments

open FragmentHeader

namespace FragmentHeader

/-- `HEADER_SIZE`. -/
def headerSize : Nat := 4

/-- `new`. -/
def new (totalFragments fragmentIndex : UInt16) : Except ε FragmentHeader :=
  if h : fragmentIndex < totalFragments then .ok ⟨totalFragments, fragmentIndex, h⟩
  else .error (errors.fragmentation "Fragment index out of range")

/-- `to_bytes`. -/
def toBytes (header : FragmentHeader) : Bytes :=
  leBytes 2 header.totalFragments.toNat ++ leBytes 2 header.fragmentIndex.toNat

/-- `from_bytes`. -/
def fromBytes (bytes : Bytes) : Except ε FragmentHeader :=
  if bytes.length < headerSize then .error (errors.reassembly "Fragment header too short")
  else new errors (UInt16.ofNat (leAt 2 bytes 0)) (UInt16.ofNat (leAt 2 bytes 2))

section
variable (header : FragmentHeader)

theorem length_toBytes : header.toBytes.length = headerSize := by
  rw [toBytes, length_append, leBytes_length, leBytes_length]
  rfl

theorem new_eq_ok : new errors header.totalFragments header.fragmentIndex = .ok header :=
  dif_pos header.index_lt

theorem fromBytes_toBytes_append (rest : Bytes) :
    fromBytes errors (header.toBytes ++ rest) = .ok header := by
  have hlong : ¬ (header.toBytes ++ rest).length < headerSize := by
    rw [length_append, length_toBytes]
    omega
  have htotal : leAt 2 (header.toBytes ++ rest) 0 = header.totalFragments.toNat :=
    leAt_of_drop (r := leBytes 2 header.fragmentIndex.toNat ++ rest)
      (by rw [drop_zero, toBytes, append_assoc]) header.totalFragments.toNat_lt
  have hindex : leAt 2 (header.toBytes ++ rest) 2 = header.fragmentIndex.toNat := by
    refine leAt_of_drop (r := rest) ?_ header.fragmentIndex.toNat_lt
    rw [toBytes, append_assoc, List.drop_left' (leBytes_length 2 _)]
  rw [fromBytes, if_neg hlong, htotal, hindex, UInt16.ofNat_toNat, UInt16.ofNat_toNat, new_eq_ok]

end

end FragmentHeader

/-- What a fragment carries after its header. -/
def payload (fragment : Bytes) : Bytes :=
  if fragment.length > headerSize then fragment.drop headerSize
  else []

theorem payload_toBytes_append (header : FragmentHeader) (rest : Bytes) :
    payload (header.toBytes ++ rest) = rest := by
  have hdrop : (header.toBytes ++ rest).drop headerSize = rest :=
    List.drop_left' header.length_toBytes
  rw [payload, hdrop]
  split
  · rfl
  · simp_all [length_append, eq_nil_of_length_eq_zero]

/-! ## Cutting a message -/

/-- The loop of `fragment`, from the chunk with the given index on. -/
def fragmentLoop (totalFragments : Nat) : Nat → List Bytes → Except ε (List Bytes)
  | _, [] => .ok []
  | index, chunk :: chunks => do
    let header ← FragmentHeader.new errors (UInt16.ofNat totalFragments) (UInt16.ofNat index)
    let fragments ← fragmentLoop totalFragments (index + 1) chunks
    return (header.toBytes ++ chunk) :: fragments

/-- `fragment`, with the payload size and the text for messages that are too large. -/
def fragment (tooLarge : String) (maxPayload : Nat) (data : Bytes) :
    Except ε (List Bytes) :=
  if data.isEmpty then .ok [[]]
  else
    let totalFragments := chunkCount maxPayload data
    if totalFragments > 65535 then .error (errors.fragmentation tooLarge)
    else fragmentLoop errors totalFragments 0 (chunks maxPayload data)

/-! ## Putting it together -/

/-- The first loop of `reassemble`: every fragment is there, in order. -/
def checkOrder (firstHeader : FragmentHeader) : Nat → List Bytes → Except ε Unit
  | _, [] => .ok ()
  | i, fragment :: fragments => do
    let header ← fromBytes errors fragment
    if header.fragmentIndex.toNat ≠ i then
      .error (errors.reassembly ("Fragment out of order: expected index " ++ toString i ++
        ", got " ++ toString header.fragmentIndex.toNat))
    else if header.totalFragments ≠ firstHeader.totalFragments then
      .error (errors.reassembly "Inconsistent fragment count")
    else checkOrder firstHeader (i + 1) fragments

/-- `reassemble`. -/
def reassemble : List Bytes → Except ε Bytes
  | [] => .ok []
  | first :: others => do
    let fragments := first :: others
    let firstHeader ← fromBytes errors first
    let expectedTotal := firstHeader.totalFragments.toNat
    if fragments.length ≠ expectedTotal then
      .error (errors.reassembly ("Expected " ++ toString expectedTotal ++ " fragments, got " ++
        toString fragments.length))
    else do
      checkOrder errors firstHeader 0 fragments
      return fragments.flatMap payload

/-! ## The fragments of a message -/

/-- The header of one of `total` fragments. -/
def headerAt {total index : Nat} (hindex : index < total) (htotal : total ≤ 65535) :
    FragmentHeader where
  totalFragments := UInt16.ofNat total
  fragmentIndex := UInt16.ofNat index
  index_lt := by
    rw [UInt16.lt_iff_toNat_lt, UInt16.toNat_ofNat_of_lt' (by show index < 65536; omega),
      UInt16.toNat_ofNat_of_lt' (by show total < 65536; omega)]
    exact hindex

/-- A fragment, with its number and the number of all of them. -/
def numbered (total index : Nat) (chunk : Bytes) : Bytes :=
  leBytes 2 total ++ leBytes 2 index ++ chunk

section Numbered

variable {total index : Nat} (hindex : index < total) (htotal : total ≤ 65535)

theorem toNat_totalFragments_headerAt :
    (headerAt hindex htotal).totalFragments.toNat = total :=
  UInt16.toNat_ofNat_of_lt' (by show total < 65536; omega)

theorem toNat_fragmentIndex_headerAt :
    (headerAt hindex htotal).fragmentIndex.toNat = index :=
  UInt16.toNat_ofNat_of_lt' (by show index < 65536; omega)

variable (chunk : Bytes)

theorem toBytes_headerAt_append :
    (headerAt hindex htotal).toBytes ++ chunk = numbered total index chunk := by
  rw [toBytes, toNat_totalFragments_headerAt, toNat_fragmentIndex_headerAt, numbered]

include hindex htotal

theorem fromBytes_numbered :
    fromBytes errors (numbered total index chunk)
      = .ok (headerAt hindex htotal) := by
  rw [← toBytes_headerAt_append hindex htotal, fromBytes_toBytes_append]

theorem payload_numbered : payload (numbered total index chunk) = chunk := by
  rw [← toBytes_headerAt_append hindex htotal, payload_toBytes_append]

end Numbered

theorem length_numbered (total index : Nat) (chunk : Bytes) :
    (numbered total index chunk).length = headerSize + chunk.length := by
  simp only [numbered, length_append, leBytes_length]
  rfl

theorem fragmentLoop_eq {total : Nat} (htotal : total ≤ 65535) (chunk : Nat → Bytes) :
    ∀ count index, index + count ≤ total →
      fragmentLoop errors total index ((List.range' index count).map chunk)
        = .ok ((List.range' index count).map fun i => numbered total i (chunk i))
  | 0, _, _ => rfl
  | count + 1, index, hcount => by
    have hindex : index < total := by omega
    have hheader : FragmentHeader.new errors (UInt16.ofNat total) (UInt16.ofNat index)
        = .ok (headerAt hindex htotal) := new_eq_ok errors (headerAt hindex htotal)
    have ih := fragmentLoop_eq htotal chunk count (index + 1) (by omega)
    rw [List.range'_succ, map_cons, map_cons, fragmentLoop, hheader, ih,
      ← toBytes_headerAt_append hindex htotal]
    rfl

theorem checkOrder_numbered {total : Nat} (htotal : total ≤ 65535) {firstHeader : FragmentHeader}
    (hfirst : firstHeader.totalFragments = UInt16.ofNat total) (chunk : Nat → Bytes) :
    ∀ count i, i + count ≤ total → checkOrder errors firstHeader i
      ((List.range' i count).map fun i => numbered total i (chunk i)) = .ok ()
  | 0, _, _ => rfl
  | count + 1, i, hcount => by
    have hindex : i < total := by omega
    have htotals : (headerAt hindex htotal).totalFragments = firstHeader.totalFragments :=
      hfirst.symm
    have ih := checkOrder_numbered htotal hfirst chunk count (i + 1) (by omega)
    rw [List.range'_succ, map_cons, checkOrder, fromBytes_numbered errors hindex htotal]
    show (if (headerAt hindex htotal).fragmentIndex.toNat ≠ i then _
      else if (headerAt hindex htotal).totalFragments ≠ firstHeader.totalFragments then _
      else _) = _
    rw [if_neg (not_not_intro (toNat_fragmentIndex_headerAt hindex htotal)),
      if_neg (not_not_intro htotals), ih]

/-- The numbered chunks of a message. -/
def fragmentsOf (maxPayload : Nat) (data : Bytes) : List Bytes :=
  (List.range (chunkCount maxPayload data)).map fun i =>
    numbered (chunkCount maxPayload data) i (chunkAt maxPayload data i)

variable (tooLarge : String) (maxPayload : Nat)

theorem fragment_eq {data : Bytes} (hdata : data ≠ []) :
    fragment errors tooLarge maxPayload data =
      if chunkCount maxPayload data > 65535 then .error (errors.fragmentation tooLarge)
      else .ok (fragmentsOf maxPayload data) := by
  have hempty : ¬ data.isEmpty = true := fun h => hdata (List.isEmpty_iff.mp h)
  rw [fragment, if_neg hempty]
  show (if chunkCount maxPayload data > 65535 then _ else _) = _
  split
  · rfl
  next hcount => simp_all [fragmentsOf, chunks, fragmentLoop_eq, chunkAt, List.range_eq_range']

theorem length_fragmentsOf (data : Bytes) :
    (fragmentsOf maxPayload data).length = chunkCount maxPayload data := by
  rw [fragmentsOf, length_map, length_range]

theorem map_payload_fragmentsOf {maxPayload : Nat} {data : Bytes}
    (hcount : chunkCount maxPayload data ≤ 65535) :
    (fragmentsOf maxPayload data).map payload = chunks maxPayload data := by
  rw [fragmentsOf, map_map, chunks]
  exact map_congr_left fun i hi => payload_numbered (mem_range.mp hi) hcount _

theorem reassemble_fragmentsOf {maxPayload : Nat} (hmax : 0 < maxPayload) {data : Bytes}
    (hdata : data ≠ []) (hcount : chunkCount maxPayload data ≤ 65535) :
    reassemble errors (fragmentsOf maxPayload data) = .ok data := by
  have hfirst : 0 < chunkCount maxPayload data := chunkCount_pos hmax hdata
  obtain ⟨others, hothers⟩ : ∃ others, fragmentsOf maxPayload data
      = numbered (chunkCount maxPayload data) 0 (chunkAt maxPayload data 0) :: others := by
    rw [fragmentsOf, ← Nat.succ_pred_eq_of_pos hfirst, range_succ_eq_map, map_cons]
    exact ⟨_, rfl⟩
  have hlen : (fragmentsOf maxPayload data).length
      = (headerAt hfirst hcount).totalFragments.toNat := by
    rw [length_fragmentsOf, toNat_totalFragments_headerAt]
  have hcheck : checkOrder errors (headerAt hfirst hcount) 0 (fragmentsOf maxPayload data)
      = .ok () := by
    rw [fragmentsOf, List.range_eq_range']
    exact checkOrder_numbered errors hcount rfl _ _ 0 (Nat.le_of_eq (Nat.zero_add _))
  rw [hothers, reassemble, fromBytes_numbered errors hfirst hcount, ← hothers]
  show (if (fragmentsOf maxPayload data).length ≠ (headerAt hfirst hcount).totalFragments.toNat
    then _ else _) = _
  rw [if_neg (not_not_intro hlen), hcheck, flatMap_def, map_payload_fragmentsOf hcount,
    flatten_chunks hmax]
  rfl

/-! ## GATT -/

/-- `GattError`, as far as fragments build it. -/
inductive GattError where
  | fragmentationError (message : String)
  | reassemblyError (message : String)
  deriving DecidableEq, Repr

def GattError.ofFragments : FragmentErrors GattError := ⟨.fragmentationError, .reassemblyError⟩

/-- `MAX_CHARACTERISTIC_SIZE`. -/
def maxCharacteristicSize : Nat := 512

/-- `GattFragmenter::max_payload_per_write`. -/
def GattFragmenter.maxPayloadPerWrite : Nat := maxCharacteristicSize - headerSize

/-- `GattFragmenter::fragment`. -/
def GattFragmenter.fragment : Bytes → Except GattError (List Bytes) :=
  Ble.fragment GattError.ofFragments "Message too large for GATT fragmentation" maxPayloadPerWrite

/-- `GattReassembler::reassemble`. -/
def GattReassembler.reassemble : List Bytes → Except GattError Bytes :=
  Ble.reassemble GattError.ofFragments

/-! ## L2CAP -/

/-- `L2capError`, as far as configurations and fragments build it. -/
inductive L2capError where
  | invalidMtu (mtu : UInt16)
  | invalidTimeout
  | fragmentationError (message : String)
  | reassemblyError (message : String)
  deriving DecidableEq, Repr

def L2capError.ofFragments : FragmentErrors L2capError := ⟨.fragmentationError, .reassemblyError⟩

/-- `L2capConfig`; the only service multiplexer there is is left out. -/
structure L2capConfig where
  mtu : UInt16 := 672
  timeoutSecs : UInt64 := 30
  deriving DecidableEq, Repr

/-- `L2capConfig::validate`. -/
def L2capConfig.validate (config : L2capConfig) : Except L2capError Unit :=
  if config.mtu < 23 then .error (.invalidMtu config.mtu)
  else if config.timeoutSecs = 0 then .error .invalidTimeout
  else .ok ()

/-- `L2capFragmenter`: `new` takes only a configuration that is valid. -/
structure L2capFragmenter where
  config : L2capConfig
  valid : config.validate = .ok ()

namespace L2capFragmenter

/-- `L2capFragmenter::new`. -/
def new (config : L2capConfig) : Except L2capError L2capFragmenter :=
  match h : config.validate with
  | .error e => .error e
  | .ok () => .ok ⟨config, h⟩

/-- `max_payload_per_fragment`. -/
def maxPayloadPerFragment (fragmenter : L2capFragmenter) : Nat :=
  fragmenter.config.mtu.toNat - headerSize

/-- `L2capFragmenter::fragment`. -/
def fragment (fragmenter : L2capFragmenter) :
    Bytes → Except L2capError (List Bytes) :=
  Ble.fragment L2capError.ofFragments "Message too large for fragmentation"
    fragmenter.maxPayloadPerFragment

variable (fragmenter : L2capFragmenter)

theorem mtu_ge : 23 ≤ fragmenter.config.mtu.toNat := by
  have hvalid := fragmenter.valid
  rw [L2capConfig.validate] at hvalid
  split at hvalid
  · cases hvalid
  · next hmtu => exact Nat.le_of_not_lt hmtu

theorem maxPayloadPerFragment_pos : 0 < fragmenter.maxPayloadPerFragment := by
  have hmtu := fragmenter.mtu_ge
  show 0 < fragmenter.config.mtu.toNat - 4
  omega

end L2capFragmenter

/-- `L2capReassembler`: `new` takes only a configuration that is valid; it is not read. -/
structure L2capReassembler where
  config : L2capConfig
  valid : config.validate = .ok ()

/-- `L2capReassembler::new`. -/
def L2capReassembler.new (config : L2capConfig) : Except L2capError L2capReassembler :=
  match h : config.validate with
  | .error e => .error e
  | .ok () => .ok ⟨config, h⟩

/-- `L2capReassembler::reassemble`. -/
def L2capReassembler.reassemble (_ : L2capReassembler) :
    List Bytes → Except L2capError Bytes :=
  Ble.reassemble L2capError.ofFragments

/-! ## There and back -/

/-- If the message is accepted, its fragments fit and make the message again. -/
def RoundTrips (limit : Nat) (fragment : Bytes → Except ε (List Bytes))
    (reassemble : List Bytes → Except ε Bytes) (data : Bytes) : Prop :=
  ∀ fragments, fragment data = .ok fragments →
    (∀ f ∈ fragments, f.length ≤ limit) ∧ reassemble fragments = .ok data

/-- The empty message does not come back: its fragment has no header. -/
theorem not_roundTrips_nil (limit : Nat) :
    ¬ RoundTrips limit (fragment errors tooLarge maxPayload) (reassemble errors) [] := by
  intro h
  have hback : Except.error _ = Except.ok [] := (h [[]] rfl).2
  cases hback

theorem roundTrips_iff (tooLarge : String) {maxPayload limit : Nat} (hmax : 0 < maxPayload)
    (hlimit : headerSize + maxPayload ≤ limit) (data : Bytes) :
    RoundTrips limit (fragment errors tooLarge maxPayload) (reassemble errors) data ↔
      data ≠ [] := by
  refine ⟨fun h hnil => not_roundTrips_nil errors tooLarge maxPayload limit (hnil ▸ h), ?_⟩
  intro hdata fragments hfragments
  rw [fragment_eq errors tooLarge maxPayload hdata] at hfragments
  split at hfragments
  · cases hfragments
  next hcount =>
    cases hfragments
    refine ⟨fun f hf => ?_, reassemble_fragmentsOf errors hmax hdata (Nat.le_of_not_lt hcount)⟩
    obtain ⟨i, _, rfl⟩ := mem_map.mp hf
    rw [length_numbered]
    exact Nat.le_trans (Nat.add_le_add_left (length_chunkAt_le maxPayload data i) _) hlimit

/-- Over GATT and over L2CAP, with any valid configuration, the messages that survive the trip
are the ones that are not empty. -/
theorem ble_roundTrips_iff (fragmenter : L2capFragmenter) (reassembler : L2capReassembler)
    (data : Bytes) :
    (RoundTrips maxCharacteristicSize GattFragmenter.fragment GattReassembler.reassemble data ↔
      data ≠ []) ∧
    (RoundTrips fragmenter.config.mtu.toNat fragmenter.fragment reassembler.reassemble data ↔
      data ≠ []) := by
  have hmtu := fragmenter.mtu_ge
  have hlimit : FragmentHeader.headerSize + fragmenter.maxPayloadPerFragment
      ≤ fragmenter.config.mtu.toNat := by
    show 4 + (fragmenter.config.mtu.toNat - 4) ≤ _
    omega
  exact ⟨roundTrips_iff _ _ (by decide) (by decide) data,
    roundTrips_iff _ _ fragmenter.maxPayloadPerFragment_pos hlimit data⟩

theorem ble_empty_lost :
    GattFragmenter.fragment [] = .ok [[]] ∧
      GattReassembler.reassemble [[]] = .error (.reassemblyError "Fragment header too short") ∧
      (⟨{}, rfl⟩ : L2capFragmenter).fragment [] = .ok [[]] ∧
      (⟨{}, rfl⟩ : L2capReassembler).reassemble [[]]
        = .error (.reassemblyError "Fragment header too short") ∧
      ¬ RoundTrips maxCharacteristicSize GattFragmenter.fragment GattReassembler.reassemble [] ∧
      ¬ RoundTrips 672 (⟨{}, rfl⟩ : L2capFragmenter).fragment
        (⟨{}, rfl⟩ : L2capReassembler).reassemble [] :=
  ⟨rfl, rfl, rfl, rfl, not_roundTrips_nil _ _ _ _, not_roundTrips_nil _ _ _ _⟩

end Scm.Transport.Ble
