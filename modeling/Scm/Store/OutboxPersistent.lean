import Mathlib.Data.List.Dedup
import Scm.Bincode
import Scm.OrderedStore
import Scm.Store.OutboxLedger

/-!
# The persistent outbox — `core/src/store/outbox.rs`

`Outbox::persistent` keeps every message under `outbox_<recipient>_<message id>` in a backend
and has neither queues nor a counter: it counts keys, and finds a queue again by scanning the
keys that start with `outbox_<recipient>_`. The backend does not fail and scans in the order of
the keys.

Two outboxes that get the same calls hold the same messages (`Mirrors`), as long as message ids
differ and recipients have no underscore, which is where a key is cut (`key_inj`,
`peerPrefix_isPrefixOf`). They differ in two ways. A queue in memory is in the order of
enqueuing, a scan in the order of the ids. And `remove` in memory leaves the queue it empties,
which `peer_count` then counts as a peer with queued messages. `AgreesOn` is when neither shows.
-/

namespace Scm.Store

open List Bytes Bincode Collections OrderedStore Runs QueuedMessage

/-- `QUEUE_PREFIX`. -/
def queuePrefix : Bytes := utf8 "outbox_"

/-- `format!("{}{}_", QUEUE_PREFIX, recipient_id)`. -/
def peerPrefix (recipientId : String) : Bytes := utf8 ("outbox_" ++ recipientId ++ "_")

namespace QueuedMessage

/-- `format!("{}{}_{}", QUEUE_PREFIX, msg.recipient_id, msg.message_id)`. -/
def key (m : QueuedMessage) : Bytes := utf8 ("outbox_" ++ m.recipientId ++ "_" ++ m.messageId)

/-- The derived `Serialize`, in bincode. -/
def serialize (m : QueuedMessage) : Bytes :=
  putString m.messageId ++ (putString m.recipientId ++ (putBytes m.envelopeData ++
    (leBytes 8 m.queuedAt ++ leBytes 4 m.attempts)))

/-- The derived `Deserialize`. -/
def read : Reader QueuedMessage := do
  let messageId ← string
  let recipientId ← string
  let envelopeData ← bytes
  let queuedAt ← uint 8
  let attempts ← uint 4
  return { messageId, recipientId, envelopeData, queuedAt, attempts }

/-- The lengths and numbers fit the widths they have in the source. -/
structure Fits (m : QueuedMessage) : Prop where
  messageId : m.messageId.utf8ByteSize < 2 ^ 64
  recipientId : m.recipientId.utf8ByteSize < 2 ^ 64
  envelopeData : m.envelopeData.length < 2 ^ 64
  queuedAt : m.queuedAt < 2 ^ 64
  attempts : m.attempts < 2 ^ 32

variable {m : QueuedMessage}

theorem deserialize_serialize (h : m.Fits) :
    deserialize read m.serialize = some m := by
  have hread : read m.serialize = some (m, []) := by
    rw [read, serialize, bind_eq _ (string_append h.messageId _),
      bind_eq _ (string_append h.recipientId _), bind_eq _ (bytes_append h.envelopeData _),
      bind_eq _ (uint_append h.queuedAt _), ← append_nil (leBytes 4 m.attempts),
      bind_eq _ (uint_append h.attempts _)]
    rfl
  rw [deserialize, hread]
  rfl

theorem Fits.attempted (h : m.Fits) : m.attempted.Fits := by
  refine ⟨h.messageId, h.recipientId, h.envelopeData, h.queuedAt, ?_⟩
  show min (m.attempts + 1) 4294967295 < 2 ^ 32
  omega

/-! ## Taking keys apart -/

theorem key_eq (m : QueuedMessage) :
    m.key = queuePrefix ++ (utf8 m.recipientId ++ UInt8.ofNat '_'.toNat :: utf8 m.messageId) := by
  simp only [key, utf8_append, append_assoc]
  rfl

theorem underscore_notMem_utf8 {s : String} (h : '_' ∉ s.toList) :
    UInt8.ofNat '_'.toNat ∉ utf8 s :=
  fun hmem => h (mem_of_mem_utf8 (by decide) hmem)

theorem queuePrefix_isPrefixOf (m : QueuedMessage) : queuePrefix.isPrefixOf m.key = true := by
  rw [ isPrefixOf_iff_prefix, key_eq]
  exact prefix_append _ _

/-- The keys under a recipient's prefix are those of that recipient. -/
theorem peerPrefix_isPrefixOf {recipientId : String} (hm : '_' ∉ m.recipientId.toList)
    (hr : '_' ∉ recipientId.toList) :
    (peerPrefix recipientId).isPrefixOf m.key = decide (m.recipientId = recipientId) := by
  have hprefix : peerPrefix recipientId
      = queuePrefix ++ (utf8 recipientId ++ [UInt8.ofNat '_'.toNat]) := by
    rw [peerPrefix, utf8_append, utf8_append, append_assoc]
    rfl
  have hcut : (peerPrefix recipientId).isPrefixOf m.key = true ↔ m.recipientId = recipientId := by
    rw [ isPrefixOf_iff_prefix, hprefix, key_eq, prefix_append_right_inj, ← isPrefixOf_iff_prefix,
      append_sep_isPrefixOf_iff (underscore_notMem_utf8 hm) (underscore_notMem_utf8 hr)]
    exact ⟨utf8_inj, fun h => h ▸ rfl⟩
  by_cases h : m.recipientId = recipientId
  · rw [hcut.mpr h, decide_eq_true h]
  · grind

theorem key_inj {m' : QueuedMessage} (hm : '_' ∉ m.recipientId.toList)
    (hm' : '_' ∉ m'.recipientId.toList) (h : m.key = m'.key) : m.messageId = m'.messageId := by
  rw [key_eq, key_eq] at h
  have hcut := eq_of_cons_append_eq (underscore_notMem_utf8 hm) (underscore_notMem_utf8 hm')
    (append_cancel_left h)
  exact utf8_inj hcut.2

theorem key_lt_key_iff {m' : QueuedMessage} (h : m.recipientId = m'.recipientId) :
    m.key < m'.key ↔ utf8 m.messageId < utf8 m'.messageId := by
  simp only [key_eq, h, append_lt_append_left_iff, cons_lt_cons_iff]
  simp

end QueuedMessage

/-! ## The operations -/

/-- `OutboxBackend::Persistent`. -/
structure PersistentOutbox where
  db : ByteStore

namespace PersistentOutbox

/-- `Outbox::persistent` over an empty backend. -/
def new : PersistentOutbox := ⟨Store.empty⟩

/-- The loop over a scan: the keys whose values deserialize, with the messages. -/
def decoded (o : PersistentOutbox) (start : Bytes) : List (Bytes × QueuedMessage) :=
  (o.db.scanPrefix start).filterMap fun entry =>
    (deserialize read entry.2).map fun msg => (entry.1, msg)

/-- `Outbox::enqueue`. -/
def enqueue (o : PersistentOutbox) (msg : QueuedMessage) : Except String Unit × PersistentOutbox :=
  if o.db.countPrefix queuePrefix ≥ maxTotalQueued then
    (.error ("Outbox full (" ++ toString maxTotalQueued ++ " messages)"), o)
  else if o.db.countPrefix (peerPrefix msg.recipientId) ≥ maxQueuePerPeer then
    (.error ("Queue full for peer " ++ msg.recipientId ++ " (" ++ toString maxQueuePerPeer ++
      " messages)"), o)
  else (.ok (), ⟨o.db.put msg.key msg.serialize⟩)

/-- `Outbox::peek_for_peer`. -/
def peekForPeer (o : PersistentOutbox) (recipientId : String) : List QueuedMessage :=
  (o.decoded (peerPrefix recipientId)).map Prod.snd

/-- `Outbox::remove`. -/
def remove (o : PersistentOutbox) (messageId : String) : Bool × PersistentOutbox :=
  match (o.decoded queuePrefix).find? fun found => found.2.messageId = messageId with
  | some (key, _) => (true, ⟨o.db.remove key⟩)
  | none => (false, o)

/-- `Outbox::drain_for_peer`. -/
def drainForPeer (o : PersistentOutbox) (recipientId : String) :
    List QueuedMessage × PersistentOutbox :=
  let found := o.decoded (peerPrefix recipientId)
  (found.map Prod.snd, ⟨o.db.removeAll (found.map Prod.fst)⟩)

/-- `Outbox::record_attempt`. -/
def recordAttempt (o : PersistentOutbox) (messageId : String) : Bool × PersistentOutbox :=
  match (o.decoded queuePrefix).find? fun found => found.2.messageId = messageId with
  | some (key, msg) =>
    (msg.attempted.attempts ≥ Outbox.maxDeliveryAttempts, ⟨o.db.put key msg.attempted.serialize⟩)
  | none => (false, o)

/-- `total_count`. -/
def totalCount (o : PersistentOutbox) : Nat := o.db.countPrefix queuePrefix

/-- `peer_count`: the recipients of the messages there are. -/
def peerCount (o : PersistentOutbox) : Nat :=
  ((o.decoded queuePrefix).map fun found => found.2.recipientId).dedup.length

/-- `Outbox::remove_expired` at the clock reading `now`, in seconds. -/
def removeExpired (o : PersistentOutbox) (now maxAgeSecs : Nat) : Nat × PersistentOutbox :=
  let keysToRemove := ((o.decoded queuePrefix).filter fun found =>
    now - found.2.queuedAt ≥ maxAgeSecs).map Prod.fst
  (keysToRemove.length, ⟨o.db.removeAll keysToRemove⟩)

/-- One call. -/
def apply (o : PersistentOutbox) : OutboxCall → OutboxResult × PersistentOutbox
  | .enqueue msg => let out := o.enqueue msg; (.queued out.1, out.2)
  | .peekForPeer recipientId => (.messages (o.peekForPeer recipientId), o)
  | .remove messageId => let out := o.remove messageId; (.flag out.1, out.2)
  | .drainForPeer recipientId => let out := o.drainForPeer recipientId; (.messages out.1, out.2)
  | .recordAttempt messageId => let out := o.recordAttempt messageId; (.flag out.1, out.2)
  | .totalCount => (.count o.totalCount, o)
  | .peerCount => (.count o.peerCount, o)
  | .removeExpired now maxAgeSecs =>
    let out := o.removeExpired now maxAgeSecs; (.count out.1, out.2)

/-- The results of a run. -/
def results : PersistentOutbox → List OutboxCall → List OutboxResult
  | _, [] => []
  | o, call :: calls => (o.apply call).1 :: results (o.apply call).2 calls

end PersistentOutbox

/-! ## The same messages on both sides -/

/-- The entry a message has in the backend. -/
def QueuedMessage.row (m : QueuedMessage) : Bytes × Bytes := (m.key, m.serialize)

/-- Queues in memory and a backend that hold the same messages. -/
structure Mirrors (o : Outbox) (p : PersistentOutbox) (waiting : List QueuedMessage) : Prop where
  holds : o.Holds waiting
  rows : p.db.entries.Perm (waiting.map row)
  distinct : (waiting.map messageId).Nodup
  fits : ∀ m ∈ waiting, m.Fits
  plain : ∀ m ∈ waiting, '_' ∉ m.recipientId.toList

theorem mirrors_new : Mirrors Outbox.new PersistentOutbox.new [] where
  holds := Outbox.holds_new
  rows := .nil
  distinct := .nil
  fits := nofun
  plain := nofun

namespace Mirrors

variable {o o' : Outbox} {p : PersistentOutbox} {waiting : List QueuedMessage}
  (h : Mirrors o p waiting)
include h

theorem stored :
    ∃ stored : List QueuedMessage, stored.Perm waiting ∧
      p.db.entries = stored.map row :=
  exists_perm_map h.rows

variable {stored : List QueuedMessage} {m msg : QueuedMessage}

theorem eq_of_messageId {m' : QueuedMessage} (hm : m ∈ waiting) (hm' : m' ∈ waiting)
    (hid : m.messageId = m'.messageId) : m = m' :=
  inj_on_of_nodup_map h.distinct hm hm' hid

theorem eq_of_key {m' : QueuedMessage} (hm : m ∈ waiting) (hm' : m' ∈ waiting)
    (hkey : m.key = m'.key) : m = m' :=
  h.eq_of_messageId hm hm' (key_inj (h.plain m hm) (h.plain m' hm') hkey)

section
variable (hperm : stored.Perm waiting) (hentries : p.db.entries = stored.map row)
include hperm hentries

theorem decoded_eq (start : Bytes) :
    p.decoded start
      = (stored.filter fun m => start.isPrefixOf m.key).map fun m => (m.key, m) := by
  rw [PersistentOutbox.decoded, ByteStore.scanPrefix, hentries, filter_map, filterMap_map]
  refine filterMap_eq_map_iff_forall_eq_some.mpr fun m hm => ?_
  have hfits := h.fits m (hperm.mem_iff.mp (mem_of_mem_filter hm))
  have hdecode := deserialize_serialize hfits
  simp only [Function.comp_apply, row, hdecode, Option.map_some]

theorem decoded_all : p.decoded queuePrefix = stored.map fun m => (m.key, m) := by
  rw [h.decoded_eq hperm hentries,
    filter_eq_self.mpr fun m _ => m.queuePrefix_isPrefixOf]

theorem decoded_peer {recipientId : String} (hr : '_' ∉ recipientId.toList) :
    p.decoded (peerPrefix recipientId)
      = (stored.filter fun m => m.recipientId = recipientId).map fun m => (m.key, m) := by
  rw [h.decoded_eq hperm hentries]
  congr 1
  refine filter_congr fun m hm => ?_
  exact peerPrefix_isPrefixOf (h.plain m (hperm.mem_iff.mp hm)) hr

end

theorem countPrefix_eq (start : Bytes) :
    p.db.countPrefix start = (waiting.filter fun m => start.isPrefixOf m.key).length := by
  rw [ByteStore.countPrefix, (ByteStore.scanPrefix_rows h.rows start).length_eq, length_map]
  rfl

theorem total_eq : p.db.countPrefix queuePrefix = o.total := by
  rw [h.countPrefix_eq, h.holds.total_eq,
    filter_eq_self.mpr fun m _ => m.queuePrefix_isPrefixOf]

theorem length_peek {recipientId : String} (hr : '_' ∉ recipientId.toList) :
    p.db.countPrefix (peerPrefix recipientId) = (o.peekForPeer recipientId).length := by
  rw [h.countPrefix_eq, h.holds recipientId]
  congr 1
  exact filter_congr fun m hm => peerPrefix_isPrefixOf (h.plain m hm) hr

/-- The loops of `remove` and `record_attempt` find the one message with the id. -/
theorem find?_eq_some (hmsg : msg ∈ waiting) :
    (p.decoded queuePrefix).find? (fun found => found.2.messageId = msg.messageId)
      = some (msg.key, msg) := by
  obtain ⟨stored, hperm, hentries⟩ := h.stored
  rw [h.decoded_all hperm hentries, List.find?_map]
  have hfound : stored.find? (fun m => m.messageId = msg.messageId) = some msg := by
    cases hfind : stored.find? fun m => m.messageId = msg.messageId with
    | none => grind
    | some m =>
      have hid := List.find?_some hfind
      have hm := hperm.mem_iff.mp (List.mem_of_find?_eq_some hfind)
      rw [h.eq_of_messageId hm hmsg (of_decide_eq_true hid)]
  exact congrArg (Option.map fun m : QueuedMessage => (m.key, m)) hfound

theorem find?_eq_none {messageId : String} (habsent : ∀ m ∈ waiting, m.messageId ≠ messageId) :
    (p.decoded queuePrefix).find? (fun found => found.2.messageId = messageId) = none := by
  obtain ⟨stored, hperm, hentries⟩ := h.stored
  rw [h.decoded_all hperm hentries, List.find?_map, Option.map_eq_none_iff, List.find?_eq_none]
  intro m hm hid
  exact habsent m (hperm.mem_iff.mp hm) (of_decide_eq_true hid)

/-! ## What each operation leaves -/

theorem push (hfits : msg.Fits) (hplain : '_' ∉ msg.recipientId.toList)
    (hfresh : msg.messageId ∉ waiting.map messageId) :
    Mirrors (o.push msg) ⟨p.db.put msg.key msg.serialize⟩ (waiting ++ [msg]) where
  holds := h.holds.push msg
  rows := by
    have hput := Store.put_rows h.rows msg.key msg.serialize (fun _ => true) fun m hm => by
      refine iff_of_true rfl fun hkey => hfresh (mem_map.mpr ⟨m, hm, ?_⟩)
      exact key_inj (h.plain m hm) hplain hkey
    rw [filter_true] at hput
    rw [map_append]
    exact hput.trans (perm_append_singleton _ _).symm
  distinct := by
    rw [map_append, nodup_append]
    refine ⟨h.distinct, nodup_singleton _, fun id hid id' hid' heq => ?_⟩
    rw [mem_singleton.mp hid'] at heq
    exact hfresh (heq ▸ hid)
  fits := forall_mem_append.mpr ⟨h.fits, forall_mem_singleton.mpr hfits⟩
  plain := forall_mem_append.mpr ⟨h.plain, forall_mem_singleton.mpr hplain⟩

theorem erase {keep : QueuedMessage → Bool} (keys : List Bytes)
    (hholds : o'.Holds (waiting.filter keep))
    (hkeys : ∀ m ∈ waiting, m.key ∈ keys ↔ keep m = false) :
    Mirrors o' ⟨p.db.removeAll keys⟩ (waiting.filter keep) where
  holds := hholds
  rows := by
    refine Store.removeAll_rows h.rows keys keep fun m hm => ?_
    rw [← Bool.not_eq_false]
    exact not_congr (hkeys m hm).symm
  distinct := h.distinct.sublist (filter_sublist.map _)
  fits := fun m hm => h.fits m (mem_of_mem_filter hm)
  plain := fun m hm => h.plain m (mem_of_mem_filter hm)

/-- The keys of the messages a loop collects are the keys of those that go. -/
theorem mem_keys_iff (hperm : stored.Perm waiting)
    (gone : QueuedMessage → Bool) (hm : m ∈ waiting) :
    m.key ∈ (stored.filter gone).map key ↔ gone m = true := by
  rw [mem_map]
  constructor
  · rintro ⟨m', hm', hkey⟩
    obtain ⟨hstored, hgone⟩ := mem_filter.mp hm'
    rw [← h.eq_of_key (hperm.mem_iff.mp hstored) hm hkey]
    exact hgone
  · grind

section
variable {front back : List QueuedMessage} (hwaiting : waiting = front ++ msg :: back)
include hwaiting

theorem filter_ne :
    (∀ m ∈ front ++ back, m.messageId ≠ msg.messageId) ∧
      waiting.filter (fun m => m.messageId ≠ msg.messageId) = front ++ back := by
  have hdistinct := h.distinct
  rw [hwaiting, map_append, map_cons, nodup_middle, nodup_cons, ← map_append] at hdistinct
  have hother : ∀ m ∈ front ++ back, m.messageId ≠ msg.messageId :=
    fun m hm heq => hdistinct.1 (mem_map.mpr ⟨m, hm, heq⟩)
  refine ⟨hother, ?_⟩
  have hall : (front ++ back).filter (fun m => m.messageId ≠ msg.messageId) = front ++ back :=
    filter_eq_self.mpr fun m hm => decide_eq_true (hother m hm)
  rw [filter_append] at hall
  rw [hwaiting, filter_append, filter_cons_of_neg (by simp), hall]

theorem attempt (hholds : o'.Holds (front ++ msg.attempted :: back)) :
    Mirrors o' ⟨p.db.put msg.key msg.attempted.serialize⟩ (front ++ msg.attempted :: back) := by
  have hsame : (front ++ msg.attempted :: back).map messageId
      = waiting.map messageId := by
    rw [hwaiting, map_append, map_append]
    rfl
  have hmem : ∀ m ∈ front ++ msg.attempted :: back, m = msg.attempted ∨ m ∈ waiting := by grind
  have hmsg : msg ∈ waiting := by grind
  refine ⟨hholds, ?_, hsame ▸ h.distinct, fun m hm => ?_, fun m hm => ?_⟩
  · have hput := Store.put_rows h.rows msg.key msg.attempted.serialize
      (fun m => m.messageId ≠ msg.messageId) fun m hm => by
        rw [decide_eq_true_iff]
        exact not_congr ⟨fun hid => congrArg key (h.eq_of_messageId hm hmsg hid),
          fun hkey => congrArg messageId (h.eq_of_key hm hmsg hkey)⟩
    rw [(h.filter_ne hwaiting).2] at hput
    have hmiddle : (front ++ msg.attempted :: back).Perm (msg.attempted :: (front ++ back)) :=
      perm_middle
    exact hput.trans (hmiddle.map row).symm
  · rcases hmem m hm with rfl | hm
    · exact (h.fits msg hmsg).attempted
    · exact h.fits m hm
  · rcases hmem m hm with rfl | hm
    · exact h.plain msg hmsg
    · exact h.plain m hm

end

end Mirrors

/-! ## The results -/

namespace OutboxCall

/-- What is queued fits the widths of the source. -/
def Fits : OutboxCall → Prop
  | .enqueue msg => msg.Fits
  | _ => True

/-- The recipients a call names. -/
def recipients : OutboxCall → List String
  | .enqueue msg => [msg.recipientId]
  | .peekForPeer recipientId => [recipientId]
  | .drainForPeer recipientId => [recipientId]
  | _ => []

/-- The id of the message a call brings. -/
def enqueuedIds : OutboxCall → List String
  | .enqueue msg => [msg.messageId]
  | _ => []

end OutboxCall

/-- What the queues have to be like for a call to give what the persistent outbox gives: a
queue that is read out stands in the order of the message ids, and no queue is left empty when
they are counted. -/
def Outbox.AgreesOn (o : Outbox) : OutboxCall → Prop
  | .peekForPeer recipientId | .drainForPeer recipientId =>
    (o.peekForPeer recipientId).Pairwise fun a b => utf8 a.messageId < utf8 b.messageId
  | .peerCount => ∀ entry ∈ o.queues.entries, entry.2 ≠ []
  | _ => True

namespace Mirrors

variable {o o' : Outbox} {p : PersistentOutbox} {waiting : List QueuedMessage}

theorem peek_eq_iff (h : Mirrors o p waiting) {recipientId : String}
    (hr : '_' ∉ recipientId.toList) :
    o.peekForPeer recipientId = p.peekForPeer recipientId ↔
      (o.peekForPeer recipientId).Pairwise fun a b => utf8 a.messageId < utf8 b.messageId := by
  obtain ⟨stored, hperm, hentries⟩ := h.stored
  have hpeek : p.peekForPeer recipientId = stored.filter fun m => m.recipientId = recipientId := by
    rw [PersistentOutbox.peekForPeer, h.decoded_peer hperm hentries hr, map_map]
    exact map_id _
  rw [hpeek, h.holds recipientId]
  refine eq_iff_pairwise_of_perm (fun a b hab hba => lt_asymm hab hba) ?_ (hperm.filter _).symm
  have hsorted := p.db.sorted
  rw [hentries, pairwise_map] at hsorted
  refine (hsorted.filter _).imp_of_mem fun {a b} ha hb hlt => ?_
  have hsame : a.recipientId = b.recipientId :=
    (of_decide_eq_true (mem_filter.mp ha).2).trans (of_decide_eq_true (mem_filter.mp hb).2).symm
  exact (key_lt_key_iff hsame).mp hlt

/-- The recipients of waiting messages are those whose queue is not empty. -/
theorem length_dedup (h : o.Holds waiting) :
    (waiting.map recipientId).dedup.length
      = (o.queues.entries.filter fun entry => !entry.2.isEmpty).length := by
  have hkeys : ((o.queues.entries.filter fun entry => !entry.2.isEmpty).map Sigma.fst).Nodup :=
    List.Nodup.sublist (filter_sublist.map _) o.queues.nodupKeys
  rw [← length_map Sigma.fst]
  refine ((perm_ext_iff_of_nodup (nodup_dedup _) hkeys).mpr fun peer => ?_).length_eq
  rw [mem_dedup, mem_map, mem_map]
  have hpeek := h peer
  constructor
  · rintro ⟨m, hm, rfl⟩
    have hmem : m ∈ o.peekForPeer m.recipientId := by simp_all
    rw [Outbox.peekForPeer] at hmem
    cases hlookup : o.queues.lookup m.recipientId with
    | none =>
      rw [hlookup] at hmem
      cases hmem
    | some queue =>
      rw [hlookup, Option.getD_some] at hmem
      refine ⟨⟨m.recipientId, queue⟩, mem_filter.mpr ⟨AList.mem_lookup_iff.mp hlookup, ?_⟩, rfl⟩
      simpa using ne_nil_of_mem hmem
  · rintro ⟨⟨peer, queue⟩, hentry, rfl⟩
    obtain ⟨hentry, hsome⟩ := mem_filter.mp hentry
    have hlookup : o.queues.lookup peer = some queue := AList.mem_lookup_iff.mpr hentry
    rw [Outbox.peekForPeer, hlookup, Option.getD_some] at hpeek
    obtain ⟨m, hm⟩ := exists_mem_of_ne_nil queue (by simpa using hsome)
    rw [hpeek] at hm
    obtain ⟨hm, hrecipient⟩ := mem_filter.mp hm
    exact ⟨m, hm, of_decide_eq_true hrecipient⟩

theorem peerCount_eq_iff (h : Mirrors o p waiting) :
    o.peerCount = p.peerCount ↔ ∀ entry ∈ o.queues.entries, entry.2 ≠ [] := by
  obtain ⟨stored, hperm, hentries⟩ := h.stored
  have hcount : p.peerCount = (o.queues.entries.filter fun entry => !entry.2.isEmpty).length := by
    rw [PersistentOutbox.peerCount, h.decoded_all hperm hentries, map_map, ← length_dedup h.holds]
    exact (hperm.map recipientId).dedup.length_eq
  rw [hcount]
  show o.queues.entries.length = _ ↔ _
  rw [eq_comm, length_filter_eq_length_iff]
  exact forall₂_congr fun entry _ => by simp

/-- What one call comes to: the results agree exactly when the queues are in order for it, and
either way the same messages are left. -/
def CallMirrors (o : Outbox) (p : PersistentOutbox) (waiting : List QueuedMessage)
    (call : OutboxCall) : Prop :=
  ((o.apply call).1 = (p.apply call).1 ↔ o.AgreesOn call) ∧
    ∃ waiting', Mirrors (o.apply call).2 (p.apply call).2 waiting' ∧
      ∀ id ∈ waiting'.map messageId,
        id ∈ waiting.map messageId ∨ id ∈ call.enqueuedIds

variable (h : Mirrors o p waiting)
include h

theorem enqueue {msg : QueuedMessage} (hfits : msg.Fits) (hr : '_' ∉ msg.recipientId.toList)
    (hfresh : msg.messageId ∉ waiting.map messageId) :
    CallMirrors o p waiting (.enqueue msg) := by
  rw [CallMirrors, Outbox.apply, PersistentOutbox.apply, Outbox.enqueue, PersistentOutbox.enqueue,
    h.total_eq,
    h.length_peek hr]
  split
  next => exact ⟨iff_of_true rfl trivial, waiting, h, fun _ => .inl⟩
  split
  next => exact ⟨iff_of_true rfl trivial, waiting, h, fun _ => .inl⟩
  refine ⟨iff_of_true rfl trivial, waiting ++ [msg],
    h.push hfits hr hfresh, fun id hid => ?_⟩
  rw [map_append] at hid
  exact mem_append.mp hid

theorem remove (messageId : String) :
    CallMirrors o p waiting (.remove messageId) := by
  rw [CallMirrors, Outbox.apply, PersistentOutbox.apply, PersistentOutbox.remove]
  rcases o.remove_cases messageId with ⟨hfalse, hunchanged, habsent⟩ | ⟨htrue, msg, hedit⟩
  · have habsent := (h.holds.mem_iff fun m => m.messageId ≠ messageId).mp habsent
    rw [h.find?_eq_none habsent, hfalse, hunchanged]
    exact ⟨iff_of_true rfl trivial, waiting, h, fun _ => .inl⟩
  · obtain ⟨front, back, hwaiting, rfl, _, hafter⟩ :=
      h.holds.edit hedit (fun m hm => by cases hm)
    have hmsg : msg ∈ waiting := by grind
    rw [h.find?_eq_some hmsg, htrue]
    refine ⟨iff_of_true rfl trivial, waiting.filter fun m => m.messageId ≠ msg.messageId, ?_,
      fun id hid => .inl ((filter_sublist.map _).subset hid)⟩
    refine h.erase [msg.key] ?_ fun m hm => ?_
    · rw [(h.filter_ne hwaiting).2]
      exact hafter
    · rw [mem_singleton, decide_eq_false_iff_not, not_not]
      exact ⟨fun hkey => congrArg messageId (h.eq_of_key hm hmsg hkey),
        fun hid => congrArg key (h.eq_of_messageId hm hmsg hid)⟩

theorem drainForPeer {recipientId : String}
    (hr : '_' ∉ recipientId.toList) : CallMirrors o p waiting (.drainForPeer recipientId) := by
  obtain ⟨stored, hperm, hentries⟩ := h.stored
  refine ⟨?_, waiting.filter fun m => m.recipientId ≠ recipientId, ?_,
    fun id hid => .inl ((filter_sublist.map _).subset hid)⟩
  · rw [Outbox.apply, PersistentOutbox.apply, OutboxResult.messages.injEq, o.drainForPeer_fst]
    exact h.peek_eq_iff hr
  · rw [Outbox.apply, PersistentOutbox.apply, PersistentOutbox.drainForPeer]
    refine h.erase _ (h.holds.drain recipientId) fun m hm => ?_
    rw [h.decoded_peer hperm hentries hr, map_map]
    refine (h.mem_keys_iff hperm _ hm).trans ?_
    rw [decide_eq_false_iff_not, not_not, decide_eq_true_iff]

theorem recordAttempt (messageId : String) :
    CallMirrors o p waiting (.recordAttempt messageId) := by
  rw [CallMirrors, Outbox.apply, PersistentOutbox.apply, PersistentOutbox.recordAttempt]
  rcases o.recordAttempt_cases messageId with ⟨hfalse, hunchanged, habsent⟩ | ⟨msg, hflag, hedit⟩
  · have habsent := (h.holds.mem_iff fun m => m.messageId ≠ messageId).mp habsent
    rw [h.find?_eq_none habsent, hfalse, hunchanged]
    exact ⟨iff_of_true rfl trivial, waiting, h, fun _ => .inl⟩
  · obtain ⟨front, back, hwaiting, rfl, _, hafter⟩ := h.holds.edit hedit (by
      intro m hm
      rw [mem_singleton.mp hm]
      rfl)
    have hmsg : msg ∈ waiting := by grind
    rw [h.find?_eq_some hmsg, hflag]
    refine ⟨iff_of_true rfl trivial, _, h.attempt hwaiting hafter, fun id hid => .inl ?_⟩
    rw [hwaiting]
    rw [map_append, map_cons] at hid ⊢
    exact hid

theorem removeExpired (now maxAgeSecs : Nat) :
    CallMirrors o p waiting (.removeExpired now maxAgeSecs) := by
  obtain ⟨stored, hperm, hentries⟩ := h.stored
  have hgone : (p.decoded queuePrefix).filter (fun found => now - found.2.queuedAt ≥ maxAgeSecs)
      = (stored.filter fun m => !Outbox.fresh now maxAgeSecs m).map fun m => (m.key, m) := by
    rw [h.decoded_all hperm hentries, filter_map]
    congr 1
    exact filter_congr fun m _ => (Outbox.not_fresh now maxAgeSecs m).symm
  refine ⟨?_, waiting.filter (Outbox.fresh now maxAgeSecs), ?_,
    fun id hid => .inl ((filter_sublist.map _).subset hid)⟩
  · rw [Outbox.apply, PersistentOutbox.apply, PersistentOutbox.removeExpired, hgone,
      h.holds.expired_eq, length_map, length_map, countP_eq_length_filter,
      (hperm.filter _).length_eq]
    exact iff_of_true rfl trivial
  · rw [Outbox.apply, PersistentOutbox.apply, PersistentOutbox.removeExpired, hgone]
    refine h.erase _ (h.holds.expire now maxAgeSecs) fun m hm => ?_
    rw [map_map]
    refine (h.mem_keys_iff hperm _ hm).trans ?_
    rw [Bool.not_eq_true']

/-- **One call.** Its results agree exactly when the queues are in order for it, and either way
the same messages are left. -/
theorem apply (call : OutboxCall) (hfits : call.Fits)
    (hplain : ∀ r ∈ call.recipients, '_' ∉ r.toList)
    (hfresh : ∀ id ∈ call.enqueuedIds, id ∉ waiting.map messageId) :
    CallMirrors o p waiting call := by
  cases call with
  | enqueue msg =>
    exact h.enqueue hfits (hplain _ (mem_singleton_self _))
      (hfresh _ (mem_singleton_self _))
  | peekForPeer recipientId =>
    refine ⟨?_, waiting, h, fun _ => .inl⟩
    rw [Outbox.apply, PersistentOutbox.apply, OutboxResult.messages.injEq]
    exact h.peek_eq_iff (hplain recipientId (mem_singleton_self _))
  | remove messageId => exact h.remove messageId
  | drainForPeer recipientId => exact h.drainForPeer (hplain _ (mem_singleton_self _))
  | recordAttempt messageId => exact h.recordAttempt messageId
  | totalCount =>
    refine ⟨?_, waiting, h, fun _ => .inl⟩
    rw [Outbox.apply, PersistentOutbox.apply, PersistentOutbox.totalCount, h.total_eq]
    exact iff_of_true rfl trivial
  | peerCount =>
    refine ⟨?_, waiting, h, fun _ => .inl⟩
    rw [Outbox.apply, PersistentOutbox.apply, OutboxResult.count.injEq]
    exact h.peerCount_eq_iff
  | removeExpired now maxAgeSecs => exact h.removeExpired now maxAgeSecs

theorem reordered (order : MapOrder) :
    Mirrors (o.reordered order) p waiting :=
  { h with holds := h.holds.reordered order }

end Mirrors

theorem Outbox.agreesOn_reordered (o : Outbox) (order : MapOrder) (call : OutboxCall) :
    (o.reordered order).AgreesOn call ↔ o.AgreesOn call := by
  cases call with
  | peekForPeer recipientId | drainForPeer recipientId =>
    rw [AgreesOn, AgreesOn, peekForPeer_reordered]
  | peerCount => exact forall_congr' fun entry => imp_congr_left (order.perm _).mem_iff
  | enqueue _ | remove _ | recordAttempt _ | totalCount | removeExpired _ _ => exact Iff.rfl

/-- A whole run agrees exactly when the queues are in order at each of its calls. -/
theorem Mirrors.results_eq_iff (events : List (MapOrder × OutboxCall)) :
    ∀ {o : Outbox} {p : PersistentOutbox} {waiting : List QueuedMessage}, Mirrors o p waiting →
      (∀ event ∈ events, event.2.Fits) →
      (∀ event ∈ events, ∀ r ∈ event.2.recipients, '_' ∉ r.toList) →
      (events.flatMap fun event => event.2.enqueuedIds).Nodup →
      (∀ id ∈ events.flatMap fun event => event.2.enqueuedIds,
        id ∉ waiting.map messageId) →
      ((o.trace events).1.map Prod.snd = p.results (events.map Prod.snd) ↔
        Along (fun o event => (o.step event).2) (fun o event => o.AgreesOn event.2) o events) := by
  induction events with
  | nil => exact fun _ _ _ _ _ => iff_of_true rfl trivial
  | cons event events ih =>
    intro o p waiting h hfits hplain hdistinct hfresh
    obtain ⟨order, call⟩ := event
    obtain ⟨hfit, hfits⟩ := forall_mem_cons.mp hfits
    obtain ⟨hcall, hplain⟩ := forall_mem_cons.mp hplain
    rw [flatMap_cons] at hdistinct hfresh
    obtain ⟨_, hrest, hapart⟩ := nodup_append.mp hdistinct
    obtain ⟨hresult, waiting', hnext, hids⟩ := (h.reordered order).apply call hfit hcall
      fun id hid => hfresh id (mem_append_left _ hid)
    have hlater : ∀ id ∈ events.flatMap fun event => event.2.enqueuedIds,
        id ∉ waiting'.map messageId := by grind
    have htail := ih hnext hfits hplain hrest hlater
    rw [o.agreesOn_reordered] at hresult
    show (_ :: _ = _ :: _) ↔ _ ∧ _
    rw [List.cons.injEq]
    exact and_congr hresult htail

/-- **When the persistent outbox gives the results of the one in memory.** Message ids differ
and recipients have no underscore: a run gives the same results exactly when each queue that is
peeked or drained stands in the order of its message ids, and no queue is left empty at a count
of the peers. -/
theorem Outbox.persistent_results_iff (events : List (MapOrder × OutboxCall))
    (hfits : ∀ event ∈ events, event.2.Fits)
    (hdistinct : (events.flatMap fun event => event.2.enqueuedIds).Nodup)
    (hplain : ∀ event ∈ events, ∀ r ∈ event.2.recipients, '_' ∉ r.toList) :
    (new.trace events).1.map Prod.snd = PersistentOutbox.new.results (events.map Prod.snd) ↔
      Along (fun o event => (o.step event).2) (fun o event => o.AgreesOn event.2) new events :=
  mirrors_new.results_eq_iff events hfits hplain hdistinct fun _ _ => not_mem_nil

/-- A message without content for `p`. -/
def emptyMessage (messageId : String) : QueuedMessage := ⟨messageId, "p", [], 0, 0⟩

/-- Two messages for one recipient are queued and read out. -/
def queueTwo (first second : String) : List (MapOrder × OutboxCall) :=
  [(.same, .enqueue (emptyMessage first)), (.same, .enqueue (emptyMessage second)),
    (.same, .peekForPeer "p")]

/-- A message is queued and confirmed, and the peers are counted. -/
def queueAndRemove : List (MapOrder × OutboxCall) :=
  [(.same, .enqueue (emptyMessage "a")), (.same, .remove "a"), (.same, .peerCount)]

theorem emptyMessage_fits {messageId : String} (h : messageId.utf8ByteSize < 2 ^ 64) :
    (emptyMessage messageId).Fits :=
  ⟨h, show "p".utf8ByteSize < 2 ^ 64 by decide, Nat.two_pow_pos 64, Nat.two_pow_pos 64,
    Nat.two_pow_pos 32⟩

theorem queueTwo_fits {first second : String} (hfirst : first.utf8ByteSize < 2 ^ 64)
    (hsecond : second.utf8ByteSize < 2 ^ 64) : ∀ event ∈ queueTwo first second, event.2.Fits := by
  simp only [queueTwo, forall_mem_cons]
  exact ⟨emptyMessage_fits hfirst, emptyMessage_fits hsecond, trivial, nofun⟩

theorem Outbox.persistent_results_of_ordered_ids :
    (new.trace (queueTwo "a" "b")).1.map Prod.snd
      = PersistentOutbox.new.results ((queueTwo "a" "b").map Prod.snd) := by
  refine (persistent_results_iff (queueTwo "a" "b") (queueTwo_fits (by decide) (by decide))
    (by decide) (by decide)).mpr ⟨trivial, trivial, ?_, trivial⟩
  show [emptyMessage "a", emptyMessage "b"].Pairwise fun a b => utf8 a.messageId < utf8 b.messageId
  decide

/-- The later of two messages has the smaller id: in memory they are read out as they were
queued, from the backend the other way round. And a message that was queued and confirmed
leaves a queue in memory that still counts as a peer. -/
theorem Outbox.persistent_results_differ :
    (new.trace (queueTwo "b" "a")).1.map Prod.snd
        ≠ PersistentOutbox.new.results ((queueTwo "b" "a").map Prod.snd) ∧
      (new.trace queueAndRemove).1.map Prod.snd
        ≠ PersistentOutbox.new.results (queueAndRemove.map Prod.snd) := by
  constructor
  · intro h
    obtain ⟨_, _, hordered, _⟩ := (mirrors_new.results_eq_iff (queueTwo "b" "a")
      (queueTwo_fits (by decide) (by decide)) (by decide) (by decide) (by decide)).mp h
    revert hordered
    show ¬ [emptyMessage "b", emptyMessage "a"].Pairwise
      fun a b => utf8 a.messageId < utf8 b.messageId
    decide
  · have hfits : ∀ event ∈ queueAndRemove, event.2.Fits := by
      simp only [queueAndRemove, forall_mem_cons]
      exact ⟨emptyMessage_fits (by decide), trivial, trivial, nofun⟩
    intro h
    obtain ⟨_, _, hnonempty, _⟩ := (mirrors_new.results_eq_iff queueAndRemove hfits
      (by decide) (by decide) (by decide)).mp h
    exact hnonempty ⟨"p", []⟩ (by decide) rfl

end Scm.Store
