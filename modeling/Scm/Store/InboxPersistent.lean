import Scm.OrderedStore
import Scm.Runs
import Scm.Store.Inbox

/-!
# The persistent inbox over whole runs — `core/src/store/inbox.rs`

The persistent form of the inbox keeps the seen hashes as one value of the backend: every
`receive` reads the set, adds the new hash, and writes the set back. No order is kept. When
the set has grown past `MAX_SEEN_IDS`, the first thousand hashes of an iteration over it are
dropped, and what those are is up to the hasher and the table (`SetOrder`).

So what the in-memory inbox promises is not promised here (`remembers_iff`). The thousand may
include even the id being taken in: `receive` returns true for it, and `is_duplicate` false at
once (`new_id_forgotten`).

The backend does not fail, and the inbox is the one of `Inbox::persistent`, which has no
storage manager. A message row never lands on the key of the set (`inboxMessageKey_ne`).
-/

namespace Scm.Store

open List Bincode Bytes Scm.Core Crypto OrderedStore Runs MemoryInbox
open Finset Option

/-- An iteration order for sets of hashes. -/
structure SetOrder where
  list : Finset Key → List Key
  nodup : ∀ s, (list s).Nodup
  mem_iff : ∀ s h, h ∈ list s ↔ h ∈ s

/-- `InboxBackend::Persistent`. -/
structure PersistentInbox where
  db : ByteStore

open PersistentInbox

/-- `SEEN_IDS_KEY`. -/
def seenIdsKey : Bytes := utf8 "inbox_seen_ids"

/-- `MESSAGES_PREFIX`. -/
def messagesPrefix : String := "inbox_msg_"

/-- The key of a message. -/
def inboxMessageKey (msg : ReceivedMessage) : Bytes :=
  utf8 (messagesPrefix ++ msg.senderId ++ "_" ++ msg.messageId)

/-- `bincode::serialize(&msg)`. -/
def serializeReceived (msg : ReceivedMessage) : Bytes :=
  putString msg.messageId ++ putString msg.senderId ++ putBytes msg.payload ++
    leBytes 8 msg.receivedAt ++ putOption putString msg.senderPublicKeyHex

/-- `bincode::serialize(&seen_ids)`, the set in the order of an iteration. -/
def serializeSeen (order : SetOrder) (seen : Finset Key) : Bytes :=
  putVec (fun h => h.toList) (order.list seen)

/-- `bincode::deserialize::<FxHashSet<[u8; 32]>>`. -/
def deserializeSeen (data : Bytes) : Option (Finset Key) :=
  (deserialize (vec (array 32)) data).map List.toFinset

namespace PersistentInbox

/-- The set `receive` works on: what is stored, or nothing. -/
def seenIds (inbox : PersistentInbox) : Finset Key :=
  ((inbox.db.get seenIdsKey).bind deserializeSeen).getD ∅

/-- What an eviction takes out. -/
def toRemove (order : SetOrder) (seen : Finset Key) : List Key := (order.list seen).take 1000

/-- The set after a new hash. -/
def evicted (order : SetOrder) (seen : Finset Key) : Finset Key :=
  if seen.card > maxSeenIds then seen \ (toRemove order seen).toFinset else seen

variable (P : IdentityPrimitives)

/-- `is_duplicate`. -/
def isDuplicate (inbox : PersistentInbox) (messageId : String) : Bool :=
  match inbox.db.get seenIdsKey with
  | some bytes =>
    match deserializeSeen bytes with
    | some seen => hashId P messageId ∈ seen
    | none => false
  | none => false

/-- `receive`. -/
def receive (order : SetOrder) (inbox : PersistentInbox) (msg : ReceivedMessage) :
    Bool × PersistentInbox :=
  let hash := hashId P msg.messageId
  if hash ∈ inbox.seenIds then (false, inbox)
  else
    let seen := evicted order (insert hash inbox.seenIds)
    let db := inbox.db.put seenIdsKey (serializeSeen order seen)
    (true, ⟨db.put (inboxMessageKey msg) (serializeReceived msg)⟩)

end PersistentInbox

/-! ## The set on disk -/

namespace PersistentInbox

variable {P : IdentityPrimitives}

theorem isDuplicate_iff {inbox : PersistentInbox} {messageId : String} :
    inbox.isDuplicate P messageId = true ↔ hashId P messageId ∈ inbox.seenIds := by
  unfold isDuplicate seenIds
  cases inbox.db.get seenIdsKey with
  | none => simp
  | some bytes => cases hseen : deserializeSeen bytes <;> simp [hseen]

/-- The fifth byte after `inbox_` tells the two kinds of key apart. -/
theorem inboxMessageKey_ne (msg : ReceivedMessage) : seenIdsKey ≠ inboxMessageKey msg := by
  have hprefix : inboxMessageKey msg
      = utf8 messagesPrefix ++ utf8 (msg.senderId ++ "_" ++ msg.messageId) := by
    simp_all [inboxMessageKey, utf8_append]
  intro h
  have hbyte := congrArg (fun key => key[6]?) (h.trans hprefix)
  rw [List.getElem?_append_left (by decide)] at hbyte
  exact absurd hbyte (by decide)

theorem card_seenIds_lt (inbox : PersistentInbox) : inbox.seenIds.card < 2 ^ 64 := by
  unfold seenIds
  cases hseen : (inbox.db.get seenIdsKey).bind deserializeSeen with
  | none => simp
  | some seen =>
    obtain ⟨bytes, -, hread⟩ := bind_eq_some_iff.mp hseen
    obtain ⟨l, hl, rfl⟩ := map_eq_some_iff.mp hread
    obtain ⟨⟨l', rest⟩, hvec, rfl⟩ := map_eq_some_iff.mp hl
    rw [getD_some]
    exact lt_of_le_of_lt (toFinset_card_le l') (length_vec_lt hvec)

variable (order : SetOrder)

theorem toFinset_list (seen : Finset Key) :
    (order.list seen).toFinset = seen := by
  ext h
  rw [List.mem_toFinset, order.mem_iff]

theorem length_list (seen : Finset Key) :
    (order.list seen).length = seen.card := by
  rw [← toFinset_card_of_nodup (order.nodup seen), toFinset_list]

theorem deserializeSeen_serializeSeen {seen : Finset Key} (h : seen.card < 2 ^ 64) :
    deserializeSeen (serializeSeen order seen) = some seen := by
  have hread : vec (array 32) (putVec (fun h : Key => h.toList) (order.list seen) ++ [])
      = some (order.list seen, []) :=
    vec_append (by rwa [length_list order seen]) (fun a _ => array_append a) []
  rw [append_nil] at hread
  rw [deserializeSeen, serializeSeen, deserialize, hread, map_some, map_some,
    toFinset_list]

theorem card_evicted_le {seen : Finset Key} (h : seen.card ≤ 2 ^ 64) :
    (evicted order seen).card < 2 ^ 64 := by
  unfold evicted
  split
  next hfull =>
    have hsub : (toRemove order seen).toFinset ⊆ seen := by
      intro key hkey
      exact (order.mem_iff _ _).mp (mem_of_mem_take (List.mem_toFinset.mp hkey))
    have hsome : (toRemove order seen).toFinset.card = 1000 := by
      have hlen := length_list order seen
      have hnodup := (order.nodup seen).sublist (take_sublist 1000 _)
      rw [toRemove, toFinset_card_of_nodup hnodup, length_take, hlen]
      unfold maxSeenIds at hfull
      omega
    rw [card_sdiff_of_subset hsub, hsome]
    omega
  next hroom =>
    unfold maxSeenIds at hroom
    omega

theorem receive_known {order : SetOrder} {inbox : PersistentInbox} {msg : ReceivedMessage}
    (h : hashId P msg.messageId ∈ inbox.seenIds) :
    inbox.receive P order msg = (false, inbox) :=
  if_pos h

theorem receive_unknown {inbox : PersistentInbox} {msg : ReceivedMessage}
    (h : hashId P msg.messageId ∉ inbox.seenIds) :
    (inbox.receive P order msg).1 = true ∧ (inbox.receive P order msg).2.seenIds
      = evicted order (insert (hashId P msg.messageId) inbox.seenIds) := by
  have hcard : (insert (hashId P msg.messageId) inbox.seenIds).card ≤ 2 ^ 64 :=
    (card_insert_le _ _).trans inbox.card_seenIds_lt
  have hget : (inbox.receive P order msg).2.db.get seenIdsKey = some (serializeSeen order
      (evicted order (insert (hashId P msg.messageId) inbox.seenIds))) := by
    grind [receive, seenIdsKey, inboxMessageKey, inboxMessageKey_ne, Store.get_put_of_ne,
      Store.get_put_self]
  refine ⟨by rw [receive, if_neg h], ?_⟩
  rw [seenIds, hget, bind_some,
    deserializeSeen_serializeSeen order (card_evicted_le order hcard), getD_some]

end PersistentInbox

/-! ## Runs -/

/-- A message that comes in, and the iteration order the set has then. -/
structure Arrival where
  msg : ReceivedMessage
  order : SetOrder

/-- The inbox and the ids it has accepted so far, oldest first. -/
structure LoggedInbox where
  inbox : PersistentInbox
  accepted : List String

/-- One `receive`. -/
def LoggedInbox.step (P : IdentityPrimitives) (s : LoggedInbox) (arrival : Arrival) : LoggedInbox :=
  let out := s.inbox.receive P arrival.order arrival.msg
  ⟨out.2, if out.1 then s.accepted ++ [arrival.msg.messageId] else s.accepted⟩

/-- Fewer than 49,000 other ids have been accepted after this one. -/
def Recent (accepted : List String) (messageId : String) : Prop :=
  ∃ before later, accepted = before ++ messageId :: later ∧
    (later.toFinset.erase messageId).card < 49000

namespace LoggedInbox

variable (P : IdentityPrimitives)

/-- Every recent id is reported as a duplicate and refused. -/
def Remembers (s : LoggedInbox) : Prop :=
  ∀ messageId, Recent s.accepted messageId →
    s.inbox.isDuplicate P messageId = true ∧
    ∀ order (again : ReceivedMessage), again.messageId = messageId →
      s.inbox.receive P order again = (false, s.inbox)

/-- When the message is new and the set is full, the thousand hashes that an iteration gives
first include neither the new one nor that of a recent id. -/
def SparesRecent (s : LoggedInbox) (arrival : Arrival) : Prop :=
  let hash := hashId P arrival.msg.messageId
  hash ∉ s.inbox.seenIds → maxSeenIds ≤ s.inbox.seenIds.card →
    ∀ messageId, Recent (s.accepted ++ [arrival.msg.messageId]) messageId →
      hashId P messageId
        ∉ toRemove arrival.order (insert hash s.inbox.seenIds)

end LoggedInbox

/-- An id that is recent after one more is that one, or was recent before. -/
theorem recent_concat {accepted : List String} {last messageId : String}
    (h : Recent (accepted ++ [last]) messageId) : messageId = last ∨ Recent accepted messageId := by
  obtain ⟨before, later, heq, hfew⟩ := h
  rcases eq_nil_or_concat later with rfl | ⟨later, x, rfl⟩
  · exact .inl (List.cons.inj (List.append_inj' heq rfl).2).1.symm
  · rw [concat_eq_append, ← cons_append, ← append_assoc] at heq
    refine .inr ⟨before, later, (List.append_inj' heq rfl).1, lt_of_le_of_lt ?_ hfew⟩
    refine card_le_card (erase_subset_erase _ fun y hy => ?_)
    rw [concat_eq_append, List.mem_toFinset]
    exact mem_append_left _ (List.mem_toFinset.mp hy)

namespace LoggedInbox

variable {P : IdentityPrimitives} {s : LoggedInbox} {arrival : Arrival}

theorem remembers_iff_mem : s.Remembers P ↔ ∀ messageId, Recent s.accepted messageId →
    hashId P messageId ∈ s.inbox.seenIds := by
  refine ⟨fun h id hid => isDuplicate_iff.mp (h id hid).1, fun h id hid => ?_⟩
  refine ⟨isDuplicate_iff.mpr (h id hid), fun order again hagain => ?_⟩
  exact receive_known (hagain ▸ h id hid)

/-- One arrival keeps every recent id exactly when its eviction, if there is one, spares
them. -/
theorem remembers_step_iff (h : s.Remembers P) :
    (s.step P arrival).Remembers P ↔ s.SparesRecent P arrival := by
  by_cases hknown : hashId P arrival.msg.messageId ∈ s.inbox.seenIds
  · have hsame : s.step P arrival = s := by
      rw [step, receive_known hknown]
      rfl
    rw [hsame]
    exact ⟨fun _ hnew => absurd hknown hnew, fun _ => h⟩
  · obtain ⟨htrue, hseen⟩ := receive_unknown arrival.order hknown
    have hlog : (s.step P arrival).accepted = s.accepted ++ [arrival.msg.messageId] := if_pos htrue
    have hset : (s.step P arrival).inbox.seenIds = _ := hseen
    rw [remembers_iff_mem] at h ⊢
    rw [hlog, hset]
    have hcard := card_insert_of_notMem hknown
    -- before anything is evicted, every recent id is in the set
    have hadded (messageId : String)
        (hid : Recent (s.accepted ++ [arrival.msg.messageId]) messageId) :
        hashId P messageId
          ∈ insert (hashId P arrival.msg.messageId) s.inbox.seenIds := by
      grind [recent_concat]
    unfold evicted
    constructor
    · intro hkept _ hfull messageId hid hmem
      have hin := hkept messageId hid
      rw [if_pos (by omega), mem_sdiff, List.mem_toFinset] at hin
      exact hin.2 hmem
    · intro hspares messageId hid
      split
      next hfull =>
        rw [mem_sdiff, List.mem_toFinset]
        exact ⟨hadded messageId hid, hspares hknown (by omega) messageId hid⟩
      next => exact hadded messageId hid

end LoggedInbox

/-- **When the persistent inbox remembers.** From any backend, over any arrivals in any
iteration orders: at every point of the run each id that was accepted and that fewer than
49,000 others have followed, the one just accepted among them, is reported by `is_duplicate`
and refused by `receive`, if and only if every eviction of the run spares the recent ids. -/
theorem remembers_iff (P : IdentityPrimitives) (inbox : PersistentInbox) (arrivals : List Arrival) :
    (∀ before after, arrivals = before ++ after →
        (run (LoggedInbox.step P) ⟨inbox, []⟩ before).Remembers P) ↔
      Along (LoggedInbox.step P) (LoggedInbox.SparesRecent P) ⟨inbox, []⟩ arrivals := by
  have hfits : Along (LoggedInbox.step P) (fun _ _ => True) ⟨inbox, []⟩ arrivals :=
    along_iff.mpr fun _ _ _ _ => trivial
  refine always_iff_along (fun s arrival h _ => LoggedInbox.remembers_step_iff h) arrivals _ ?_
    hfits
  rintro messageId ⟨before, later, hnil, -⟩
  cases before <;> cases hnil

/-! ## A full inbox that forgets -/

theorem exists_order_first (first : Key) :
    ∃ order : SetOrder, ∀ s, first ∈ s → ∃ rest, order.list s = first :: rest := by
  classical
  refine ⟨⟨fun s => if first ∈ s then first :: (s.erase first).toList else s.toList, ?_, ?_⟩, ?_⟩
  · intro s
    split
    next => exact nodup_cons.mpr ⟨by simp, nodup_toList _⟩
    next => exact nodup_toList _
  · intro s h
    split
    next hfirst => grind [Finset.mem_toList]
    next => exact Finset.mem_toList
  · exact fun s hfirst => ⟨_, if_pos hfirst⟩

/-- A hash that tells texts of different lengths apart. -/
def lengthHash : IdentityPrimitives :=
  { demoIdentities with hash := fun data => arrayAt 32 (leBytes 32 data.length) 0 }

/-- The message whose id is `n` letters long. -/
def nthMessage (n : Nat) : ReceivedMessage where
  messageId := String.ofList (List.replicate n 'a')
  senderId := "bob"
  payload := []
  receivedAt := 0
  senderPublicKeyHex := none

theorem hashId_nthMessage (n : Nat) :
    hashId lengthHash (nthMessage n).messageId = arrayAt 32 (leBytes 32 n) 0 := by
  have hbytes : (utf8 (String.ofList (List.replicate n 'a'))).length = n := by
    rw [utf8_eq_flatMap, String.toList_ofList, length_flatMap, map_replicate, sum_replicate_nat]
    exact Nat.mul_one n
  show arrayAt 32 (leBytes 32 (utf8 (String.ofList (List.replicate n 'a'))).length) 0 = _
  rw [hbytes]

theorem hashId_nthMessage_inj {m n : Nat} (hm : m < 256 ^ 32) (hn : n < 256 ^ 32)
    (h : hashId lengthHash (nthMessage m).messageId
      = hashId lengthHash (nthMessage n).messageId) : m = n := by
  rw [hashId_nthMessage, hashId_nthMessage] at h
  have hbytes := congrArg Vector.toList h
  rw [toList_arrayAt (leBytes_length 32 m), toList_arrayAt (leBytes_length 32 n)] at hbytes
  have hvalue := congrArg ofLe hbytes
  rwa [ofLe_leBytes_of_lt hm, ofLe_leBytes_of_lt hn] at hvalue

theorem hashId_nthMessage_notMem {n : Nat} (hn : n ≤ maxSeenIds) :
    hashId lengthHash (nthMessage n).messageId ∉
      (Finset.range n).image fun k => hashId lengthHash (nthMessage k).messageId := by
  have hlimit : n < 256 ^ 32 := lt_of_le_of_lt hn (by decide)
  rw [mem_image]
  rintro ⟨k, hk, heq⟩
  have hlt := Finset.mem_range.mp hk
  exact hlt.ne (hashId_nthMessage_inj (hlt.trans hlimit) hlimit heq)

theorem card_image_nthMessage : ∀ {n : Nat}, n ≤ maxSeenIds →
    ((Finset.range n).image fun k =>
      hashId lengthHash (nthMessage k).messageId).card = n
  | 0, _ => rfl
  | n + 1, hn => by
    rw [range_add_one, image_insert,
      card_insert_of_notMem (hashId_nthMessage_notMem (Nat.le_of_succ_le hn)),
      card_image_nthMessage (Nat.le_of_succ_le hn)]

theorem seenIds_fill (order : SetOrder) : ∀ {n : Nat}, n ≤ maxSeenIds →
    (run (LoggedInbox.step lengthHash) ⟨⟨Store.empty⟩, []⟩
      ((List.range n).map fun k => ⟨nthMessage k, order⟩)).inbox.seenIds
      = (Finset.range n).image fun k => hashId lengthHash (nthMessage k).messageId
  | 0, _ => rfl
  | n + 1, hn => by
    have ih := seenIds_fill order (Nat.le_of_succ_le hn)
    rw [range_succ, map_append, run_append]
    generalize run (LoggedInbox.step lengthHash) _ ((List.range n).map _) = s at ih ⊢
    have hnew : hashId lengthHash (nthMessage n).messageId ∉ s.inbox.seenIds := by
      grind [hashId_nthMessage_notMem]
    have hroom : (insert (hashId lengthHash (nthMessage n).messageId)
        s.inbox.seenIds).card ≤ maxSeenIds := by grind
    have hseen := (receive_unknown order hnew).2
    rw [evicted, if_neg (not_lt.mpr hroom), ih] at hseen
    rw [range_add_one, image_insert]
    exact hseen

/-- Fifty thousand messages and one more, which the iteration happens to give first. It is
accepted, and not known a moment later. -/
theorem new_id_forgotten : ∃ (arrivals : List Arrival) (last : Arrival),
    let inbox := (run (LoggedInbox.step lengthHash) ⟨⟨Store.empty⟩, []⟩ arrivals).inbox
    (inbox.receive lengthHash last.order last.msg).1 = true ∧
      (inbox.receive lengthHash last.order last.msg).2.isDuplicate lengthHash last.msg.messageId
        = false := by
  obtain ⟨order, horder⟩ :=
    exists_order_first (MemoryInbox.hashId lengthHash (nthMessage maxSeenIds).messageId)
  refine ⟨(List.range maxSeenIds).map fun k => ⟨nthMessage k, order⟩,
    ⟨nthMessage maxSeenIds, order⟩, ?_⟩
  have hfull := seenIds_fill order le_rfl
  generalize run (LoggedInbox.step lengthHash) _ _ = s at hfull ⊢
  have hnew : MemoryInbox.hashId lengthHash (nthMessage maxSeenIds).messageId
      ∉ s.inbox.seenIds := by
    rw [hfull]
    exact hashId_nthMessage_notMem le_rfl
  obtain ⟨htrue, hseen⟩ := PersistentInbox.receive_unknown order hnew
  obtain ⟨rest, hlist⟩ := horder _ (Finset.mem_insert_self _ s.inbox.seenIds)
  refine ⟨htrue, Bool.eq_false_iff.mpr fun hdup => ?_⟩
  have hmem := isDuplicate_iff.mp hdup
  have hcard : (insert (MemoryInbox.hashId lengthHash (nthMessage maxSeenIds).messageId)
      s.inbox.seenIds).card > maxSeenIds := by grind [card_image_nthMessage]
  rw [hseen, evicted, if_pos hcard, toRemove, hlist,
    mem_sdiff, List.mem_toFinset] at hmem
  exact hmem.2 mem_cons_self

end Scm.Store
