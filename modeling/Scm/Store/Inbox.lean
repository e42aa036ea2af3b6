import Scm.Core.Receive
import Scm.SeenWindow

/-!
# The in-memory inbox over whole runs — `core/src/store/inbox.rs`

The inbox keeps the hashes of the ids it has taken in twice, as a set to look them up in and
as a list in the order they came, and next to them the messages by sender and their number.
`receive` adds to all four and then takes the oldest hashes out of set and list while the set
is over its limit. If the two ever came apart, with too many in the set and none left in the
list, that loop would not end; `none` stands for it here.

One fact carries everything: the list is the window of the last `MAX_SEEN_IDS` hashes of the
log of accepted ids (`Holds.order`). The set is the elements of the list, which bounds it and
lets the loop end (`evictSeen_toFinset`), and an id is forgotten only when the window has
moved past it.

`Core.Inbox` is the same inbox with the set left implicit; `receive_refines` compares them.
The inbox of `Inbox::new` has no storage manager, so there is no maintenance to run.
-/

namespace Scm.Store

open List Collections Scm.Core Crypto SeenWindow

/-- `InboxBackend::Memory`. -/
structure MemoryInbox where
  seenIds : Finset Key
  seenOrder : List Key
  messages : AList fun _ : String => List ReceivedMessage
  total : Nat

/-- The eviction loop of `receive`; `none` when it does not end. -/
def evictSeen (seenIds : Finset Key) : List Key → Option (Finset Key × List Key)
  | [] => if seenIds.card > maxSeenIds then none else some (seenIds, [])
  | old :: rest =>
    if seenIds.card > maxSeenIds then evictSeen (seenIds.erase old) rest
    else some (seenIds, old :: rest)

/-- A call on the inbox. -/
inductive InboxCall where
  | receive (msg : ReceivedMessage)
  | drainReceivedMessages
  | clearMessages
  deriving DecidableEq, Repr

namespace MemoryInbox

/-- `Inbox::new`. -/
def new : MemoryInbox := ⟨∅, [], ∅, 0⟩

/-- `all_messages`. -/
def allMessages (inbox : MemoryInbox) : List ReceivedMessage :=
  inbox.messages.entries.flatMap fun entry => entry.2

/-- `clear_messages`. -/
def clearMessages (inbox : MemoryInbox) : MemoryInbox := { inbox with messages := ∅, total := 0 }

/-- `drain_received_messages`. -/
def drainReceivedMessages (inbox : MemoryInbox) : List ReceivedMessage × MemoryInbox :=
  (inbox.allMessages, { inbox with messages := ∅, total := 0 })

variable (P : IdentityPrimitives)

/-- The hash an id is remembered by. -/
def hashId (messageId : String) : Key := P.hash messageId.toUTF8.data.toList

/-- `receive`. -/
def receive (inbox : MemoryInbox) (msg : ReceivedMessage) : Option (Bool × MemoryInbox) :=
  let hash := hashId P msg.messageId
  if hash ∈ inbox.seenIds then some (false, inbox)
  else
    match evictSeen (insert hash inbox.seenIds) (inbox.seenOrder ++ [hash]) with
    | none => none
    | some (seenIds, seenOrder) =>
      some (true,
        { seenIds := seenIds
          seenOrder := seenOrder
          messages := inbox.messages.insert msg.senderId
            ((inbox.messages.lookup msg.senderId).getD [] ++ [msg])
          total := inbox.total + 1 })

/-- One call: the id it took in, if any, and the inbox it leaves. -/
def step (inbox : MemoryInbox) : InboxCall → Option (List String × MemoryInbox)
  | .receive msg =>
    (inbox.receive P msg).map fun out => (if out.1 then [msg.messageId] else [], out.2)
  | .drainReceivedMessages => some ([], inbox.drainReceivedMessages.2)
  | .clearMessages => some ([], inbox.clearMessages)

/-- A run of calls: the ids taken in, oldest first, and the inbox at the end. -/
def run (inbox : MemoryInbox) : List InboxCall → Option (List String × MemoryInbox)
  | [] => some ([], inbox)
  | call :: calls =>
    match inbox.step P call with
    | none => none
    | some (taken, next) => (run next calls).map fun out => (taken ++ out.1, out.2)

/-! ## The window -/

/-- The inbox after the ids `accepted` were taken in. -/
structure Holds (accepted : List String) (inbox : MemoryInbox) : Prop where
  order : inbox.seenOrder = (accepted.map (hashId P)).rtake maxSeenIds
  nodup : inbox.seenOrder.Nodup
  ids : inbox.seenIds = inbox.seenOrder.toFinset
  count : inbox.total = inbox.allMessages.length

end MemoryInbox

/-- A list without repetitions and the set of its elements: the loop ends and keeps the
window. -/
theorem evictSeen_toFinset : ∀ {order : List Key}, order.Nodup →
    evictSeen order.toFinset order
      = some ((order.rtake maxSeenIds).toFinset, order.rtake maxSeenIds)
  | [], _ => rfl
  | old :: rest, h => by
    obtain ⟨hold, hrest⟩ := nodup_cons.mp h
    have hcard : (old :: rest).toFinset.card = rest.length + 1 := by
      rw [toFinset_card_of_nodup h, length_cons]
    rw [evictSeen, hcard]
    split
    next hover =>
      have herase : (old :: rest).toFinset.erase old = rest.toFinset := by
        rw [toFinset_cons, Finset.erase_insert (by rwa [mem_toFinset])]
      rw [herase, evictSeen_toFinset hrest, rtake_cons_of_le (by omega)]
    next hunder => rw [rtake_of_length_le (by rw [length_cons]; omega)]

namespace MemoryInbox

variable {P : IdentityPrimitives} {accepted : List String} {inbox : MemoryInbox}

theorem length_allMessages (inbox : MemoryInbox) :
    inbox.allMessages.length = sumValues inbox.messages List.length := by
  rw [allMessages, length_flatMap, sumValues]

theorem holds_new (P : IdentityPrimitives) : Holds P [] new :=
  ⟨(rtake_of_length_le (Nat.zero_le _)).symm, nodup_nil, rfl, rfl⟩

theorem receive_known {msg : ReceivedMessage} (h : hashId P msg.messageId ∈ inbox.seenIds) :
    inbox.receive P msg = some (false, inbox) :=
  if_pos h

/-- What `receive` writes for a new id, with what the loop leaves of the old ones. -/
theorem receive_unknown {msg : ReceivedMessage} {seenIds : Finset Key} {seenOrder : List Key}
    (hnew : hashId P msg.messageId ∉ inbox.seenIds)
    (hevict : evictSeen (insert (hashId P msg.messageId) inbox.seenIds)
      (inbox.seenOrder ++ [hashId P msg.messageId]) = some (seenIds, seenOrder)) :
    inbox.receive P msg = some (true,
      { seenIds := seenIds
        seenOrder := seenOrder
        messages := inbox.messages.insert msg.senderId
          ((inbox.messages.lookup msg.senderId).getD [] ++ [msg])
        total := inbox.total + 1 }) := by
  rw [receive, if_neg hnew, hevict]

theorem evictSeen_concat {hash : Key} (hids : inbox.seenIds = inbox.seenOrder.toFinset)
    (hnodup : inbox.seenOrder.Nodup) (hnew : hash ∉ inbox.seenIds) :
    ∃ window, window = (inbox.seenOrder ++ [hash]).rtake maxSeenIds ∧ window.Nodup ∧
      evictSeen (insert hash inbox.seenIds) (inbox.seenOrder ++ [hash])
        = some (window.toFinset, window) := by
  rw [hids, mem_toFinset] at hnew
  have hnodup : (inbox.seenOrder ++ [hash]).Nodup := by
    rw [← concat_eq_append]
    exact hnodup.concat hnew
  have hset : insert hash inbox.seenIds = (inbox.seenOrder ++ [hash]).toFinset := by simp_all
  rw [hset]
  exact ⟨_, rfl, hnodup.sublist (drop_sublist _ _), evictSeen_toFinset hnodup⟩

theorem Holds.receive_new (h : Holds P accepted inbox) {msg : ReceivedMessage}
    (hnew : hashId P msg.messageId ∉ inbox.seenIds) :
    ∃ next, inbox.receive P msg = some (true, next) ∧
      Holds P (accepted ++ [msg.messageId]) next := by
  obtain ⟨window, hwindow, hnodup, hevict⟩ := evictSeen_concat h.ids h.nodup hnew
  refine ⟨_, receive_unknown hnew hevict, ?_, hnodup, rfl, ?_⟩
  · show window = _
    rw [hwindow, h.order, rtake_rtake_append, map_append, map_cons, map_nil]
  · -- the sender's list is one longer, the others are as they were
    have hsum := sumValues_insert inbox.messages msg.senderId
      ((inbox.messages.lookup msg.senderId).getD [] ++ [msg]) List.length
    have hcount := h.count
    rw [length_allMessages] at hcount ⊢
    show inbox.total + 1 = sumValues (inbox.messages.insert msg.senderId _) List.length
    rw [length_append, length_singleton] at hsum
    cases hlookup : inbox.messages.lookup msg.senderId with
    | none => simp_all
    | some queue => grind

/-- Every call returns and keeps the invariant, with the ids it took in at the end of the
log. -/
theorem Holds.step (h : Holds P accepted inbox) (call : InboxCall) :
    ∃ taken next, inbox.step P call = some (taken, next) ∧ Holds P (accepted ++ taken) next := by
  cases call with
  | receive msg =>
    rw [MemoryInbox.step]
    by_cases hknown : hashId P msg.messageId ∈ inbox.seenIds
    · simp_all [receive_known]
    · obtain ⟨next, hreceive, hnext⟩ := h.receive_new hknown
      rw [hreceive]
      exact ⟨[msg.messageId], next, rfl, hnext⟩
  | drainReceivedMessages =>
    exact ⟨[], _, rfl, by rw [append_nil]; exact ⟨h.order, h.nodup, h.ids, rfl⟩⟩
  | clearMessages =>
    exact ⟨[], _, rfl, by rw [append_nil]; exact ⟨h.order, h.nodup, h.ids, rfl⟩⟩

theorem Holds.run (calls : List InboxCall) :
    ∀ {accepted : List String} {inbox : MemoryInbox}, Holds P accepted inbox →
      ∃ taken final,
        inbox.run P calls = some (taken, final) ∧ Holds P (accepted ++ taken) final := by
  induction calls with
  | nil => exact fun {_ inbox} h => ⟨[], inbox, rfl, by rwa [append_nil]⟩
  | cons call calls ih =>
    intro accepted inbox h
    obtain ⟨taken, next, hstep, hnext⟩ := h.step call
    obtain ⟨later, final, hrun, hfinal⟩ := ih hnext
    rw [append_assoc] at hfinal
    refine ⟨taken ++ later, final, ?_, hfinal⟩
    rw [MemoryInbox.run, hstep]
    show (next.run P calls).map _ = _
    rw [hrun, Option.map_some]

/-- An id stays known until `maxSeenIds` others have been accepted after it. -/
theorem Holds.mem_of_card_lt {before later : List String} {messageId : String}
    (h : Holds P (before ++ messageId :: later) inbox)
    (hfew : (later.toFinset.erase messageId).card < maxSeenIds) :
    hashId P messageId ∈ inbox.seenIds := by
  rw [h.ids, mem_toFinset]
  have hnodup := h.nodup
  rw [h.order] at hnodup ⊢
  by_contra hgone
  have hmany := card_later_of_notMem hnodup hgone
  omega

/-- **The seen ids are a window.** After any calls on a new inbox, every one of which returns:
the order list enumerates the set without repetition, the set has at most `maxSeenIds` ids,
and `total` counts the messages. And an id that was accepted is refused by every later
`receive` for as long as fewer than `maxSeenIds` others have been accepted after it. -/
theorem seen_ids_window (P : IdentityPrimitives) (before : List InboxCall) :
    ∃ accepted inbox, new.run P before = some (accepted, inbox) ∧
      (inbox.seenOrder.Nodup ∧ inbox.seenIds = inbox.seenOrder.toFinset) ∧
      inbox.seenIds.card ≤ maxSeenIds ∧
      inbox.total = inbox.allMessages.length ∧
      ∀ (first : ReceivedMessage) (next : MemoryInbox),
        inbox.receive P first = some (true, next) →
        ∀ later : List InboxCall, ∃ since final, next.run P later = some (since, final) ∧
          ((since.toFinset.erase first.messageId).card < maxSeenIds →
            ∀ again : ReceivedMessage, again.messageId = first.messageId →
              final.receive P again = some (false, final)) := by
  obtain ⟨accepted, inbox, hrun, hinbox⟩ := (holds_new P).run before
  rw [nil_append] at hinbox
  refine ⟨accepted, inbox, hrun, ⟨hinbox.nodup, hinbox.ids⟩, ?_, hinbox.count, ?_⟩
  · rw [hinbox.ids, toFinset_card_of_nodup hinbox.nodup, hinbox.order, length_rtake]
    exact Nat.min_le_left _ _
  · intro first next hfirst later
    have hnew : hashId P first.messageId ∉ inbox.seenIds := by grind [receive_known]
    obtain ⟨next', hreceive, hnext⟩ := hinbox.receive_new hnew
    cases hreceive.symm.trans hfirst
    obtain ⟨since, final, hlater, hfinal⟩ := hnext.run later
    refine ⟨since, final, hlater, fun hfew again hagain => receive_known ?_⟩
    rw [append_assoc, singleton_append] at hfinal
    rw [hagain]
    exact hfinal.mem_of_card_lt hfew

/-! ## The inbox of `receive_message` -/

/-- The set left implicit. -/
structure Refines (inbox : MemoryInbox) (abstract : Inbox) : Prop where
  order : inbox.seenOrder = abstract.seenOrder
  ids : inbox.seenIds = inbox.seenOrder.toFinset
  messages : inbox.messages = abstract.messages
  total : inbox.total = abstract.total

theorem evictOldest_eq_rtake : ∀ seen : List Key, Core.evictOldest seen = seen.rtake maxSeenIds
  | [] => rfl
  | old :: rest => by
    unfold Core.evictOldest
    rw [length_cons]
    split
    next hover => rw [evictOldest_eq_rtake rest, rtake_cons_of_le (by omega)]
    next hunder => rw [rtake_of_length_le (by rw [length_cons]; omega)]

/-- `receive` gives the same answer on both, and they stay together. -/
theorem receive_refines {abstract : Inbox} (h : inbox.Refines abstract) (msg : ReceivedMessage) :
    ∃ next, inbox.receive P msg = some ((abstract.receive P msg).1, next) ∧
      next.Refines (abstract.receive P msg).2 := by
  have hmem : hashId P msg.messageId ∈ inbox.seenIds
      ↔ P.hash msg.messageId.toUTF8.data.toList ∈ abstract.seenOrder := by
    rw [h.ids, mem_toFinset, h.order, hashId]
  by_cases hknown : hashId P msg.messageId ∈ inbox.seenIds
  · refine ⟨inbox, ?_, ?_⟩ <;> rw [Inbox.receive, dif_pos (hmem.mp hknown)]
    · exact receive_known hknown
    · exact h
  · have hnodup : inbox.seenOrder.Nodup := by
      rw [h.order]
      exact abstract.nodup
    obtain ⟨window, hwindow, -, hevict⟩ := evictSeen_concat h.ids hnodup hknown
    rw [Inbox.receive, dif_neg (mt hmem.mpr hknown)]
    refine ⟨_, receive_unknown hknown hevict, ?_, rfl, ?_, ?_⟩
    · show window = Core.evictOldest (abstract.seenOrder.concat _)
      rw [evictOldest_eq_rtake, concat_eq_append, hwindow, h.order, hashId]
    · rw [h.messages]
    · rw [h.total]

end MemoryInbox

end Scm.Store
