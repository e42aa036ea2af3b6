import Scm.Drift.Peel
import Scm.Drift.StorePersist

/-!
# Mesh synchronisation — `core/src/drift/sync.rs`

Three calls reconcile two stores. The initiator sends the sketch of its ids
(`initiate`); the responder builds a sketch of the same size, decodes *its own
minus the received one* and sends its sketch back (`respond`); the initiator
decodes *its own minus the received one* (`complete`). So the two sides decode
negatives of each other, each with the peer's half read from the wire.

Two facts make the sides agree nevertheless.

* `decodeLoop_neg` — the decoder commutes with a change of sign: it peels the
  same cells in the same order and swaps its two lists.
* `byteCount_sketch` — the wire keeps one byte of each count, which is all of it
  as long as a cell holds at most 255 insertions.

`respond_complete_agree` is the protocol result. The cell count travels as a
`u16`, which is too small long before the store is full (`initiate_accepted_iff`).

Session methods return the result *and* the session, because `respond` has
already written the peer's half when decoding fails.
-/

namespace Scm.Drift

open Bytes LinearSketch IBLT MeshStore

inductive SyncMessage where
  | syncOffer (ibltData : Bytes) (messageCount sketchCapacity : UInt32) (peerProof : String)
      (timestamp : UInt64)
  | syncResponse (ibltData : Bytes) (messageCount : UInt32)
      (missingEnvelopes : List Bytes)
  | syncComplete (missingEnvelopes : List Bytes)
  deriving DecidableEq, Repr

inductive SyncState where
  | ready
  | awaitingResponse
  | processingResponse
  | complete
  | failed
  deriving DecidableEq, Repr

structure SyncSession where
  state : SyncState
  ourIblt : Option IBLT
  peerIblt : Option IBLT
  peerMissing : List MessageId
  ourMissing : List MessageId
  peerMessageCount : UInt32
  deriving DecidableEq, Repr

namespace SyncSession

/-- `SyncSession::new`. -/
def new : SyncSession := ⟨.ready, none, none, [], [], 0⟩

/-- The serialised envelopes of `ids` that the store has. -/
def gather (store : MeshStore) (ids : List MessageId) : List Bytes :=
  ids.filterMap fun id => (store.get id).map StoredEnvelope.serialize

/-- The sketch `initiate` builds: sized by the number of messages. -/
def offerSketch (hash : CellHash) (store : MeshStore) : IBLT :=
  (IBLT.new (max ((UInt32.ofNat store.len).toNat * 4 + 8) 1)).insertAll hash store.messageIds

/-- `SyncSession::initiate`, at the clock reading `now`. -/
def initiate (hash : CellHash) (hexHash : Bytes → String) (now : UInt64) (s : SyncSession)
    (store : MeshStore) : Except DriftError SyncMessage × SyncSession :=
  if s.state ≠ .ready then
    (.error (.decompressionFailed "SyncSession already initiated"), s)
  else
    match (offerSketch hash store).toBytes with
    | .error e => (.error e, s)
    | .ok ibltData =>
      (.ok (.syncOffer ibltData (UInt32.ofNat store.len)
          (UInt32.ofNat (offerSketch hash store).numCells) (store.generateProof hexHash) now),
        { s with ourIblt := some (offerSketch hash store), state := .awaitingResponse })

/-- `SyncSession::respond`. -/
def respond (hash : CellHash) (s : SyncSession) (store : MeshStore) (offer : SyncMessage) :
    Except DriftError (SyncMessage × List StoredEnvelope) × SyncSession :=
  if s.state ≠ .ready then
    (.error (.decompressionFailed "SyncSession in wrong state for respond"), s)
  else
    match offer with
    | .syncOffer ibltData messageCount _ _ _ =>
      match fromBytes ibltData with
      | .error e => (.error e, s)
      | .ok peerIblt =>
        let s := { s with peerIblt := some peerIblt, peerMessageCount := messageCount }
        let ourIblt := (withCells peerIblt.numCells).insertAll hash store.messageIds
        match ourIblt.subtract peerIblt with
        | .error e => (.error e, s)
        | .ok diff =>
          match diff.decode hash with
          | .error e => (.error e, s)
          | .ok (theyHaveNot, theyHaveWeDont) =>
            let s := { s with peerMissing := theyHaveNot, ourMissing := theyHaveWeDont }
            match ourIblt.toBytes with
            | .error e => (.error e, s)
            | .ok ourIbltData =>
              (.ok (.syncResponse ourIbltData (UInt32.ofNat store.len) (gather store theyHaveNot),
                  theyHaveWeDont.filterMap store.get),
                { s with ourIblt := some ourIblt, state := .processingResponse })
    | _ => (.error (.decompressionFailed "Expected SyncOffer message"), s)

/-- `SyncSession::complete`. -/
def complete (hash : CellHash) (s : SyncSession) (store : MeshStore) (response : SyncMessage) :
    Except DriftError (SyncMessage × List StoredEnvelope) × SyncSession :=
  if s.state ≠ .awaitingResponse then
    (.error (.decompressionFailed "SyncSession not awaiting response"), s)
  else
    match response with
    | .syncResponse ibltData _ missingEnvelopes =>
      match fromBytes ibltData with
      | .error e => (.error e, s)
      | .ok peerIblt =>
        match s.ourIblt with
        | none => (.error (.decompressionFailed "No local IBLT stored"), s)
        | some ourIblt =>
          match ourIblt.subtract peerIblt with
          | .error e => (.error e, s)
          | .ok diff =>
            match diff.decode hash with
            | .error e => (.error e, s)
            | .ok (weHaveOnly, theyHaveOnly) =>
              (.ok (.syncComplete (gather store weHaveOnly),
                  missingEnvelopes.filterMap (Bincode.deserialize StoredEnvelope.read)),
                { s with peerMissing := weHaveOnly, ourMissing := theyHaveOnly,
                         state := .complete })
    | _ => (.error (.decompressionFailed "Expected SyncResponse message"), s)

end SyncSession

/-! ## Counts that fit a byte -/

section
variable (hash : CellHash) (n : Nat)

/-- A cell with at most 255 insertions crosses the wire unchanged. -/
theorem byteCount_sketch {keys : List MessageId} {i : Nat} (h : insertions hash n keys i ≤ 255) :
    (sketch (image hash n i) keys).byteCount = sketch (image hash n i) keys := by
  have hcount : (sketch (image hash n i) keys).count.toInt = insertions hash n keys i := by
    rw [count_sketch]
    exact Int32.toInt_ofNat_of_lt (by omega)
  exact (IBLTCell.byteCount_eq_self_iff _).mpr (by omega)

/-- A sketch with at most 255 insertions a cell parses back to itself. -/
theorem fromBytes_sketch {t : IBLT} {keys : List MessageId} {b : Bytes} (hsize : t.numCells = n)
    (hcells : t.cells = tabulate n fun i => sketch (image hash n i) keys)
    (hkeys : ∀ i, insertions hash n keys i ≤ 255) (h : t.toBytes = .ok b) :
    ∃ u, fromBytes b = .ok u ∧ u.numCells = n ∧
      u.cells = tabulate n fun i => sketch (image hash n i) keys := by
  obtain ⟨u, hu, hn, hc⟩ := fromBytes_toBytes h
  refine ⟨u, hu, hn.trans hsize, ?_⟩
  rw [hc, hcells, tabulate, List.map_map]
  exact List.map_congr_left fun i _ => byteCount_sketch hash n (hkeys i)

end

/-! ## The protocol run -/

namespace SyncSession

/-- The number of cells of the sketch in an offer. -/
def offerCells (store : MeshStore) : Nat :=
  max ((UInt32.ofNat store.len).toNat * 4 + 8) 1 * cellsPerDiff

theorem one_le_offerCells (store : MeshStore) : 1 ≤ offerCells store := by
  rw [offerCells, cellsPerDiff]
  omega

section
variable (hash : CellHash)

theorem numCells_offerSketch (store : MeshStore) :
    (offerSketch hash store).numCells = offerCells store :=
  numCells_insertAll hash _ _

theorem cells_offerSketch (store : MeshStore) :
    (offerSketch hash store).cells
      = tabulate (offerCells store) fun i =>
          sketch (image hash (offerCells store) i) store.messageIds := by
  have hnew : (IBLT.new (max ((UInt32.ofNat store.len).toNat * 4 + 8) 1)).cells
      = tabulate (IBLT.new (max ((UInt32.ofNat store.len).toNat * 4 + 8) 1)).numCells fun _ => 0 :=
    replicate_eq_tabulate _
  unfold offerSketch
  rw [insertAll_cells hash _ _ _ hnew]
  have hsize : (IBLT.new (max ((UInt32.ofNat store.len).toNat * 4 + 8) 1)).numCells
      = offerCells store := by
    show max (max _ 1) 1 * cellsPerDiff = _
    rfl
  rw [hsize]
  apply tabulate_congr
  intro i _
  rw [zero_add]

/-- What a fresh session offers, and how it waits for the answer. -/
theorem initiate_new {hash : CellHash} {hexHash : Bytes → String} {now : UInt64} {store : MeshStore}
    {offer : SyncMessage} {s : SyncSession}
    (h : SyncSession.new.initiate hash hexHash now store = (.ok offer, s)) :
    ∃ ibltData, (offerSketch hash store).toBytes = .ok ibltData ∧
      offer = .syncOffer ibltData (UInt32.ofNat store.len)
        (UInt32.ofNat (offerSketch hash store).numCells) (store.generateProof hexHash) now ∧
      s = { SyncSession.new with
        ourIblt := some (offerSketch hash store), state := .awaitingResponse } := by
  unfold initiate at h
  rw [if_neg (by simp [SyncSession.new])] at h
  cases hb : (offerSketch hash store).toBytes with
  | error e => rw [hb] at h; cases h
  | ok ibltData => simp_all

/-- `respond` on an offer, once the peer's half is read: everything hangs on
whether the difference decodes. -/
theorem respond_new {store : MeshStore} {ibltData ourData : Bytes}
    (messageCount sketchCapacity : UInt32) (peerProof : String) (timestamp : UInt64)
    {peerIblt diff : IBLT} (hpeer : fromBytes ibltData = .ok peerIblt)
    (hdiff : ((withCells peerIblt.numCells).insertAll hash store.messageIds).subtract peerIblt
      = .ok diff) (hdata : ((withCells peerIblt.numCells).insertAll hash store.messageIds).toBytes
      = .ok ourData) :
    SyncSession.new.respond hash store
        (.syncOffer ibltData messageCount sketchCapacity peerProof timestamp)
      = match diff.decode hash with
        | .error e => (.error e, { SyncSession.new with
            peerIblt := some peerIblt, peerMessageCount := messageCount })
        | .ok (theyHaveNot, theyHaveWeDont) =>
          (.ok (.syncResponse ourData (UInt32.ofNat store.len) (gather store theyHaveNot),
              theyHaveWeDont.filterMap store.get),
            { state := .processingResponse
              ourIblt := some ((withCells peerIblt.numCells).insertAll hash store.messageIds)
              peerIblt := some peerIblt, peerMissing := theyHaveNot, ourMissing := theyHaveWeDont
              peerMessageCount := messageCount }) := by
  unfold respond
  rw [if_neg (by simp [SyncSession.new])]
  simp only [hpeer, hdiff, hdata]

theorem complete_awaiting {hash : CellHash} {s : SyncSession} {store : MeshStore} {ibltData : Bytes}
    {messageCount : UInt32} {missingEnvelopes : List Bytes} {ourIblt peerIblt diff : IBLT}
    (hstate : s.state = .awaitingResponse) (hour : s.ourIblt = some ourIblt)
    (hpeer : fromBytes ibltData = .ok peerIblt) (hdiff : ourIblt.subtract peerIblt = .ok diff) :
    s.complete hash store (.syncResponse ibltData messageCount missingEnvelopes)
      = match diff.decode hash with
        | .error e => (.error e, s)
        | .ok (weHaveOnly, theyHaveOnly) =>
          (.ok (.syncComplete (gather store weHaveOnly),
              missingEnvelopes.filterMap (Bincode.deserialize StoredEnvelope.read)),
            { s with peerMissing := weHaveOnly, ourMissing := theyHaveOnly,
                     state := .complete }) := by
  unfold complete
  rw [if_neg (by simp [hstate])]
  simp only [hpeer, hour, hdiff]

theorem decode_swap {n : Nat} {f g : Nat → IBLTCell} {d d' : IBLT} (hd : d.numCells = n)
    (hd' : d'.numCells = n) (hcells : d.cells = tabulate n fun i => f i - g i)
    (hcells' : d'.cells = tabulate n fun i => g i - f i) :
    d'.decode hash = (d.decode hash).map Prod.swap := by
  have hneg : d'.cells = d.cells.map (-·) := by simp_all [tabulate]
  unfold decode
  rw [hneg, hd, hd', decodeLoop_neg]

end

/-- **The two sides agree.** In a run `initiate`, `respond`, `complete` where no
cell of either sketch has more than 255 insertions: `respond` decodes exactly
when `complete` decodes the responder's sketch, and when they do, what the
initiator finds missing is what the responder finds its peer missing, and the
other way round. -/
theorem respond_complete_agree (hash : CellHash) (hexHash : Bytes → String) (now : UInt64)
    (storeA storeB : MeshStore) (offer : SyncMessage) (sA : SyncSession)
    (hinit : SyncSession.new.initiate hash hexHash now storeA = (.ok offer, sA))
    (hA : ∀ i, insertions hash (offerCells storeA) storeA.messageIds i ≤ 255)
    (hB : ∀ i, insertions hash (offerCells storeA) storeB.messageIds i ≤ 255) :
    ∃ dataB,
      ((withCells (offerCells storeA)).insertAll hash storeB.messageIds).toBytes = .ok dataB ∧
      (∀ count missing,
        (∃ r, (SyncSession.new.respond hash storeB offer).1 = .ok r) ↔
          ∃ r, (sA.complete hash storeA (.syncResponse dataB count missing)).1 = .ok r) ∧
      ∀ response envelopes,
        (SyncSession.new.respond hash storeB offer).1 = .ok (response, envelopes) →
          (∃ count missing, response = .syncResponse dataB count missing) ∧
          (∃ r, (sA.complete hash storeA response).1 = .ok r) ∧
          (sA.complete hash storeA response).2.ourMissing
            = (SyncSession.new.respond hash storeB offer).2.peerMissing ∧
          (sA.complete hash storeA response).2.peerMissing
            = (SyncSession.new.respond hash storeB offer).2.ourMissing := by
  obtain ⟨dataA, hdataA, rfl, rfl⟩ := initiate_new hinit
  have hn := one_le_offerCells storeA
  have hsizeA := numCells_offerSketch hash storeA
  have hcellsA := cells_offerSketch hash storeA
  generalize offerCells storeA = n at hA hB hn hsizeA hcellsA ⊢
  -- what the responder reads, and the sketch it builds next to it
  obtain ⟨peerA, hpeerA, hsizeA', hcellsA'⟩ :=
    fromBytes_sketch hash n hsizeA hcellsA hA hdataA
  have hsizeB : ((withCells n).insertAll hash storeB.messageIds).numCells = n := by
    rw [numCells_insertAll]
    show max n 1 = n
    omega
  have hcellsB := insertAll_withCells hash n hn storeB.messageIds
  have hfit : n ≤ u16Max := by grind [toBytes_isOk_iff]
  obtain ⟨dataB, hdataB⟩ := (toBytes_isOk_iff _).mpr (hsizeB.trans_le hfit)
  -- what the initiator reads back
  obtain ⟨peerB, hpeerB, hsizeB', hcellsB'⟩ := fromBytes_sketch hash n hsizeB hcellsB hB hdataB
  obtain ⟨diffB, hdiffB, hdB, hcdB⟩ := subtract_tabulate n hn hsizeB hsizeA' hcellsB hcellsA'
  obtain ⟨diffA, hdiffA, hdA, hcdA⟩ := subtract_tabulate n hn hsizeA hsizeB' hcellsA hcellsB'
  have hswap := decode_swap hash hdB hdA hcdB hcdA
  have hrespond := respond_new hash (UInt32.ofNat storeA.len)
    (UInt32.ofNat (offerSketch hash storeA).numCells) (storeA.generateProof hexHash) now hpeerA
    (by rw [hsizeA']; exact hdiffB) (by rw [hsizeA']; exact hdataB)
  rw [hrespond]
  refine ⟨dataB, hdataB, ?_, ?_⟩
  · intro count missing
    rw [complete_awaiting rfl rfl hpeerB hdiffA, hswap]
    cases diffB.decode hash with
    | error e => exact ⟨fun ⟨_, hr⟩ => (nomatch hr), fun ⟨_, hr⟩ => (nomatch hr)⟩
    | ok r => exact ⟨fun _ => ⟨_, rfl⟩, fun _ => ⟨_, rfl⟩⟩
  · intro response envelopes hok
    cases hdec : diffB.decode hash with
    | error e => rw [hdec] at hok; cases hok
    | ok r =>
      rw [hdec] at hok
      cases hok
      rw [complete_awaiting rfl rfl hpeerB hdiffA, hswap, hdec]
      exact ⟨⟨_, _, rfl⟩, ⟨_, rfl⟩, rfl, rfl⟩

/-- Two small stores that share one message. -/
def sampleStore (k : Nat) : MeshStore :=
  (MeshStore.new.put (sampleStored 2)).put (sampleStored k)

/-- The offer for `sampleStore 1` and the session that waits for the answer. -/
def sampleRun : Except DriftError SyncMessage × SyncSession :=
  SyncSession.new.initiate neighbourHash (fun _ => "") 0 (sampleStore 1)

theorem respond_complete_agree_sample :
    ∃ offer response envelopes, sampleRun.1 = .ok offer ∧
      (SyncSession.new.respond neighbourHash (sampleStore 9) offer).1 = .ok (response, envelopes) ∧
      (sampleRun.2.complete neighbourHash (sampleStore 1) response).2.ourMissing
        = (SyncSession.new.respond neighbourHash (sampleStore 9) offer).2.peerMissing ∧
      (SyncSession.new.respond neighbourHash (sampleStore 9) offer).2.peerMissing
        = [idOfNat 9] := by
  obtain ⟨offer, hoffer⟩ : ∃ offer, sampleRun.1 = .ok offer := ⟨_, rfl⟩
  obtain ⟨dataB, _, _, hagree⟩ := respond_complete_agree neighbourHash (fun _ => "") 0
    (sampleStore 1) (sampleStore 9) offer sampleRun.2 (Prod.ext hoffer rfl)
    (fun i => Nat.le_trans (insertions_le _ _ _ i) (by decide))
    (fun i => Nat.le_trans (insertions_le _ _ _ i) (by decide))
  have hrun : (SyncSession.new.respond neighbourHash (sampleStore 9) offer).1.isOk = true ∧
      (SyncSession.new.respond neighbourHash (sampleStore 9) offer).2.peerMissing
        = [idOfNat 9] := by
    cases hoffer
    decide +kernel
  cases hr : (SyncSession.new.respond neighbourHash (sampleStore 9) offer).1 with
  | error e =>
    rw [hr] at hrun
    cases hrun.1
  | ok r => exact ⟨offer, r.1, r.2, hoffer, hr, (hagree r.1 r.2 hr).2.2.1, hrun.2⟩

/-! ## Which stores can be offered -/

/-- **The sketch fits the wire for at most 5459 messages.** A fresh session on a
store of the default capacity offers a sketch that the peer parses exactly when
the store holds at most 5459 of its 10000 messages: `(4 n + 8) * 3` cells have to
be counted by a `u16`. -/
theorem initiate_accepted_iff (hash : CellHash) (hexHash : Bytes → String) (now : UInt64)
    (store : MeshStore) (hreach : store.Reachable) :
    (∃ ibltData count capacity proof s peerIblt,
      SyncSession.new.initiate hash hexHash now store
          = (.ok (.syncOffer ibltData count capacity proof now), s) ∧
        IBLT.fromBytes ibltData = .ok peerIblt) ↔
      store.len ≤ 5459 := by
  have hlen : store.len ≤ 10000 := hreach.withinBudget.2
  have hcount : (UInt32.ofNat store.len).toNat = store.len := by
    rw [UInt32.toNat_ofNat']
    omega
  have hcells : offerCells store ≤ u16Max ↔ store.len ≤ 5459 := by
    rw [offerCells, cellsPerDiff, u16Max]
    omega
  rw [← hcells, ← numCells_offerSketch hash store, ← toBytes_isOk_iff]
  constructor
  · grind [initiate_new]
  · rintro ⟨ibltData, hdata⟩
    obtain ⟨peerIblt, hpeer, _⟩ := IBLT.fromBytes_toBytes hdata
    have hinit : SyncSession.new.initiate hash hexHash now store = (.ok (.syncOffer ibltData
        (UInt32.ofNat store.len) (UInt32.ofNat (offerSketch hash store).numCells)
        (store.generateProof hexHash) now), { SyncSession.new with
          ourIblt := some (offerSketch hash store), state := .awaitingResponse }) := by
      unfold initiate
      rw [if_neg (by simp [SyncSession.new]), hdata]
    exact ⟨ibltData, _, _, _, _, peerIblt, hinit, hpeer⟩

theorem initiate_accepted_empty :
    ∃ ibltData count capacity proof s peerIblt,
      SyncSession.new.initiate neighbourHash (fun _ => "") 0 MeshStore.new
          = (.ok (.syncOffer ibltData count capacity proof 0), s) ∧
        IBLT.fromBytes ibltData = .ok peerIblt :=
  (initiate_accepted_iff neighbourHash (fun _ => "") 0 MeshStore.new .new).mpr (by decide)

/-- A little over half full, the store can no longer be offered. -/
theorem initiate_refused_half_full :
    (fill 5460).Reachable ∧ (fill 5460).len = 5460 ∧
      (SyncSession.new.initiate neighbourHash (fun _ => "") 0 (fill 5460)).1
        = .error (.bufferTooShort 65544 65535) := by
  have hlen := len_fill (n := 5460) (by decide)
  refine ⟨fill_reachable 5460, hlen, ?_⟩
  have hcells : (offerSketch neighbourHash (fill 5460)).numCells = 65544 := by
    rw [numCells_offerSketch, offerCells, hlen]
    decide
  unfold initiate
  rw [if_neg (by simp [SyncSession.new]), IBLT.toBytes, hcells]
  rfl

/-! ## What a sync brings over -/

section
variable {hash : CellHash} {storeA storeB : MeshStore}

theorem eq_of_cells {t u : IBLT} (h : t.cells = u.cells) : t = u := by
  have hsize : t.numCells = u.numCells := by rw [← t.length_cells, ← u.length_cells, h]
  grind [cases IBLT]

/-- What `respond` answers when it reads the sketch of `ids`. -/
theorem respond_ok {n : Nat} (hn : 1 ≤ n) {ids : List MessageId} {ibltData : Bytes}
    (hread : fromBytes ibltData = .ok ((withCells n).insertAll hash ids))
    {messageCount capacity : UInt32} {proof : String} {timestamp : UInt64} {response : SyncMessage}
    {ours : List StoredEnvelope}
    (h : (new.respond hash storeB
      (.syncOffer ibltData messageCount capacity proof timestamp)).1 = .ok (response, ours)) :
    ∃ missing others data, reconcile hash n storeB.messageIds ids = .ok (missing, others) ∧
      response = .syncResponse data (UInt32.ofNat storeB.len) (gather storeB missing) ∧
      ours = others.filterMap storeB.get := by
  have hsize : ((withCells n).insertAll hash ids).numCells = n :=
    (numCells_insertAll hash _ ids).trans (Nat.max_eq_left hn)
  unfold respond at h
  rw [if_neg (by simp [new])] at h
  simp only [hread, hsize] at h
  unfold reconcile
  grind

theorem complete_ok {s : SyncSession} {ibltData : Bytes} {count : UInt32} {missing : List Bytes}
    {final : SyncMessage} {received : List StoredEnvelope}
    (h : (s.complete hash storeA (.syncResponse ibltData count missing)).1
      = .ok (final, received)) :
    received = missing.filterMap (Bincode.deserialize StoredEnvelope.read) := by
  unfold complete at h
  grind

/-- **A sync brings over what was missing.** In a run of `initiate`, `respond` and `complete` in
which the peeling misreads no cell, the initiator receives exactly the messages that the responder
has under ids the initiator lacks. What `respond` hands out for insertion is always nothing. -/
theorem sync_brings_missing {hexHash : Bytes → String} {now : UInt64}
    {offer response final : SyncMessage} {sA : SyncSession} {ours received : List StoredEnvelope}
    (hinit : new.initiate hash hexHash now storeA = (.ok offer, sA))
    (hsketch : ∀ i, insertions hash (offerCells storeA) storeA.messageIds i ≤ 255)
    (hclean : (verdict hash (offerCells storeA) (offerCells storeA * 10)
      (only storeB.messageIds storeA.messageIds)
      (only storeA.messageIds storeB.messageIds)).clean = true)
    (hfits : ∀ entry ∈ storeB.messages.entries, entry.2.Fits)
    (hrespond : (new.respond hash storeB offer).1 = .ok (response, ours))
    (hcomplete : (sA.complete hash storeA response).1 = .ok (final, received)) :
    ours = [] ∧ ∀ e, e ∈ received ↔ ∃ id, storeB.get id = some e ∧ storeA.get id = none := by
  obtain ⟨dataA, hdataA, rfl, rfl⟩ := initiate_new hinit
  have hn := one_le_offerCells storeA
  obtain ⟨peer, hread, -, hcells⟩ := fromBytes_sketch hash _
    (numCells_offerSketch hash storeA) (cells_offerSketch hash storeA) hsketch hdataA
  rw [eq_of_cells (hcells.trans (insertAll_withCells hash _ hn _).symm)] at hread
  obtain ⟨missing, others, data, hreconcile, rfl, rfl⟩ := respond_ok hn hread hrespond
  obtain ⟨⟨-, hmissing⟩, -, hothers⟩ := soundAt_of_clean hash hn storeB.messages.keys_nodup
    storeA.messages.keys_nodup hclean missing others hreconcile
  have habsent (store : MeshStore) (id : MessageId) :
      id ∉ store.messages.keys ↔ store.get id = none := AList.lookup_eq_none.symm
  refine ⟨List.filterMap_eq_nil_iff.mpr fun id hid => (habsent _ _).mp ((hothers id).mp hid).2,
    fun e => ?_⟩
  rw [complete_ok hcomplete, gather, List.filterMap_filterMap, List.mem_filterMap]
  refine exists_congr fun id => ?_
  rw [hmissing id, habsent]
  cases hget : storeB.get id with
  | none => simp
  | some e' =>
    have hin : id ∈ storeB.messages.keys := AList.lookup_isSome.mp (Option.isSome_of_eq_some hget)
    rw [Option.map_some, Option.bind_some, StoredEnvelope.deserialize_serialize
      (hfits ⟨id, e'⟩ (AList.mem_lookup_iff.mp hget))]
    exact ⟨fun h => ⟨h.2, h.1.2⟩, fun h => ⟨⟨hin, h.2⟩, h.1⟩⟩

end

theorem sync_brings_missing_sample :
    ∃ response final received,
      (sampleRun.2.complete neighbourHash (sampleStore 1) response).1 = .ok (final, received) ∧
        sampleStored 9 ∈ received := by
  obtain ⟨offer, hoffer⟩ : ∃ offer, sampleRun.1 = .ok offer := ⟨_, rfl⟩
  have hok : ((new.respond neighbourHash (sampleStore 9) offer).1.bind fun r =>
      (sampleRun.2.complete neighbourHash (sampleStore 1) r.1).1).isOk = true := by
    cases hoffer
    decide +kernel
  cases hrespond : (new.respond neighbourHash (sampleStore 9) offer).1 with
  | error e => rw [hrespond] at hok; cases hok
  | ok r =>
    rw [hrespond, Except.bind] at hok
    cases hcomplete : (sampleRun.2.complete neighbourHash (sampleStore 1) r.1).1 with
    | error e => rw [hcomplete] at hok; cases hok
    | ok out =>
      exact ⟨r.1, out.1, out.2, hcomplete, ((sync_brings_missing (Prod.ext hoffer rfl)
        (fun i => Nat.le_trans (insertions_le _ _ _ i) (by decide)) (by decide +kernel)
        (by unfold StoredEnvelope.Fits; decide +kernel) hrespond hcomplete).2 _).mpr
        ⟨idOfNat 9, by decide +kernel, by decide +kernel⟩⟩

end SyncSession

end Scm.Drift
