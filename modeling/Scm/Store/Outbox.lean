import Scm.Bytes
import Scm.Collections

/-!
# The outbox — `core/src/store/outbox.rs`

Messages wait in one queue for each recipient until the transport confirms them. The
outbox is the in-memory one: every constructor of `IronCore` builds it with
`Outbox::new`, so there is no storage manager either and `trigger_maintenance` does
nothing. `total` is a counter of its own in the source; that it is the number of
queued messages is a field here, and every operation has to keep it.

What a caller needs is how often a message id is queued (`occurrences`). An enqueue
succeeds exactly while both limits have room (`enqueue_ok_iff`). The last part says, call
by call, what is left in each queue.
-/

namespace Scm.Store

open List AList Collections Option

/-- `MAX_QUEUE_PER_PEER`. -/
def maxQueuePerPeer : Nat := 1000

/-- `MAX_TOTAL_QUEUED`. -/
def maxTotalQueued : Nat := 10000

structure QueuedMessage where
  messageId : String
  recipientId : String
  envelopeData : Bytes
  queuedAt : Nat
  attempts : Nat
  deriving DecidableEq, Repr

/-- `OutboxBackend::Memory`. -/
structure Outbox where
  queues : AList fun _ : String => List QueuedMessage
  total : Nat
  counted : total = sumValues queues List.length

namespace Outbox

/-- `Outbox::new`. -/
def new : Outbox := ⟨∅, 0, rfl⟩

/-- `Outbox::peek_for_peer`. -/
def peekForPeer (o : Outbox) (recipientId : String) : List QueuedMessage :=
  (o.queues.lookup recipientId).getD []

/-- Add up over the queues, before and after a message is put at the end of one. -/
theorem sumValues_push (o : Outbox) (msg : QueuedMessage) (size : List QueuedMessage → Nat)
    (hnil : size [] = 0) :
    sumValues (o.queues.insert msg.recipientId (o.peekForPeer msg.recipientId ++ [msg])) size
        + size (o.peekForPeer msg.recipientId)
      = sumValues o.queues size + size (o.peekForPeer msg.recipientId ++ [msg]) := by
  rw [← sumValues_insert o.queues msg.recipientId]
  unfold peekForPeer
  cases o.queues.lookup msg.recipientId with
  | none =>
    rw [getD_none, hnil]
    rfl
  | some queue => rfl

/-- `queue.push_back(msg); *total += 1`. -/
def push (o : Outbox) (msg : QueuedMessage) : Outbox where
  queues := o.queues.insert msg.recipientId (o.peekForPeer msg.recipientId ++ [msg])
  total := o.total + 1
  counted := by
    have hsum := sumValues_push o msg List.length rfl
    rw [length_append, length_singleton] at hsum
    have hcounted := o.counted
    omega

/-- `Outbox::enqueue`. -/
def enqueue (o : Outbox) (msg : QueuedMessage) : Except String Unit × Outbox :=
  if o.total ≥ maxTotalQueued then
    (.error ("Outbox full (" ++ toString maxTotalQueued ++ " messages)"), o)
  else if (o.peekForPeer msg.recipientId).length ≥ maxQueuePerPeer then
    (.error ("Queue full for peer " ++ msg.recipientId ++ " (" ++ toString maxQueuePerPeer ++
      " messages)"), o)
  else (.ok (), o.push msg)

/-- The loop of `remove` over the queues: the first queue that has the message loses
its first copy. -/
def removeIn (messageId : String) :
    List (Sigma fun _ : String => List QueuedMessage) →
      Option (List (Sigma fun _ : String => List QueuedMessage))
  | [] => none
  | ⟨peer, queue⟩ :: rest =>
    if queue.any fun m => m.messageId = messageId then
      some (⟨peer, queue.eraseP fun m => m.messageId = messageId⟩ :: rest)
    else (removeIn messageId rest).map (⟨peer, queue⟩ :: ·)

/-- One queue lost its first message with the id, and has `instead` in its place. -/
def EditsAt (messageId : String) (msg : QueuedMessage) (instead : List QueuedMessage)
    (entries entries' : List (Sigma fun _ : String => List QueuedMessage)) : Prop :=
  ∃ front peer before after back, msg.messageId = messageId ∧
    (∀ m ∈ before, m.messageId ≠ messageId) ∧
    entries = front ++ ⟨peer, before ++ msg :: after⟩ :: back ∧
    entries' = front ++ ⟨peer, before ++ (instead ++ after)⟩ :: back

section
variable {messageId : String} {msg : QueuedMessage} {instead : List QueuedMessage}
  {entries entries' : List (Sigma fun _ : String => List QueuedMessage)}

section
variable (h : EditsAt messageId msg instead entries entries')
include h

theorem EditsAt.cons (entry : Sigma fun _ : String => List QueuedMessage) :
    EditsAt messageId msg instead (entry :: entries) (entry :: entries') := by
  obtain ⟨front, peer, before, after, back, hid, hbefore, rfl, rfl⟩ := h
  exact ⟨entry :: front, peer, before, after, back, hid, hbefore, rfl, rfl⟩

theorem EditsAt.nodupKeys (hkeys : entries.NodupKeys) : entries'.NodupKeys := by
  obtain ⟨front, peer, before, after, back, _, _, rfl, rfl⟩ := h
  rw [List.NodupKeys, List.keys, map_append, map_cons] at hkeys ⊢
  exact hkeys

/-- However messages are counted, the queues differ by what was exchanged. -/
theorem EditsAt.sum (p : QueuedMessage → Bool) :
    (entries.map fun entry => entry.2.countP p).sum + instead.countP p
      = (entries'.map fun entry => entry.2.countP p).sum + (if p msg then 1 else 0) := by
  obtain ⟨front, peer, before, after, back, _, _, rfl, rfl⟩ := h
  simp only [map_append, map_cons, sum_append, sum_cons, countP_append, countP_cons]
  omega

theorem EditsAt.sum_length :
    (entries.map fun entry => entry.2.length).sum + instead.length
      = (entries'.map fun entry => entry.2.length).sum + 1 := by
  have hsum := h.sum fun _ => true
  simpa only [countP_true, if_true] using hsum

theorem EditsAt.mem :
    msg.messageId = messageId ∧ ∃ entry ∈ entries, msg ∈ entry.2 := by
  obtain ⟨front, peer, before, after, back, hid, _, rfl, _⟩ := h
  exact ⟨hid, _, mem_append_right _ mem_cons_self,
    mem_append_right _ mem_cons_self⟩

end

end

/-- What the loop takes out is one message with the id, from one queue. -/
theorem removeIn_spec {messageId : String} :
    ∀ {entries entries' : List (Sigma fun _ : String => List QueuedMessage)},
      removeIn messageId entries = some entries' →
      ∃ msg, EditsAt messageId msg [] entries entries'
  | [], _, h => by cases h
  | ⟨peer, queue⟩ :: rest, entries', h => by
    unfold removeIn at h
    split at h
    next hany =>
      cases h
      obtain ⟨m, hm, hid⟩ := any_eq_true.mp hany
      obtain ⟨msg, before, after, hbefore, hmsg, hqueue, herase⟩ :=
        exists_of_eraseP (p := fun m => decide (m.messageId = messageId)) hm hid
      refine ⟨msg, [], peer, before, after, rest, of_decide_eq_true hmsg, ?_, ?_, ?_⟩
      · exact fun m hm hid => hbefore m hm (decide_eq_true hid)
      · rw [hqueue]
        rfl
      · rw [herase]
        rfl
    obtain ⟨rest', hrest, rfl⟩ := map_eq_some_iff.mp h
    obtain ⟨msg, hedit⟩ := removeIn_spec hrest
    exact ⟨msg, hedit.cons _⟩

theorem removeIn_eq_none {messageId : String} :
    ∀ {entries : List (Sigma fun _ : String => List QueuedMessage)},
      removeIn messageId entries = none →
      ∀ entry ∈ entries, ∀ msg ∈ entry.2, msg.messageId ≠ messageId
  | [], _ => forall_mem_nil _
  | ⟨peer, queue⟩ :: rest, h => by
    unfold removeIn at h
    split at h
    next => cases h
    next hany =>
      refine forall_mem_cons.mpr ⟨fun msg hmsg hid => hany ?_,
        removeIn_eq_none (map_eq_none_iff.mp h)⟩
      exact any_eq_true.mpr ⟨msg, hmsg, decide_eq_true hid⟩

/-- `Outbox::remove`. -/
def remove (o : Outbox) (messageId : String) : Bool × Outbox :=
  match h : removeIn messageId o.queues.entries with
  | none => (false, o)
  | some entries =>
    (true,
      { queues := ⟨entries, by
          obtain ⟨msg, hedit⟩ := removeIn_spec h
          exact hedit.nodupKeys o.queues.nodupKeys⟩
        total := o.total - 1
        counted := by
          obtain ⟨msg, hedit⟩ := removeIn_spec h
          have hsum := hedit.sum_length
          have hcounted : o.total = (o.queues.entries.map fun entry => entry.2.length).sum :=
            o.counted
          show _ = (entries.map fun entry => entry.2.length).sum
          rw [length_nil] at hsum
          omega })

/-- `Outbox::drain_for_peer`. -/
def drainForPeer (o : Outbox) (recipientId : String) : List QueuedMessage × Outbox :=
  match h : o.queues.lookup recipientId with
  | none => ([], o)
  | some queue =>
    (queue,
      { queues := o.queues.erase recipientId
        total := o.total - queue.length
        counted := by
          have hsum := sumValues_erase h List.length
          have hcounted := o.counted
          omega })

/-- `MAX_DELIVERY_ATTEMPTS`. -/
def maxDeliveryAttempts : Nat := 12

end Outbox

/-- `msg.attempts = msg.attempts.saturating_add(1)`, for a `u32`. -/
def QueuedMessage.attempted (m : QueuedMessage) : QueuedMessage :=
  { m with attempts := min (m.attempts + 1) 4294967295 }

namespace Outbox

/-- The loop of `record_attempt` over the queues, and whether the attempts are used up. -/
def attemptIn (messageId : String) :
    List (Sigma fun _ : String => List QueuedMessage) →
      Option (Bool × List (Sigma fun _ : String => List QueuedMessage))
  | [] => none
  | ⟨peer, queue⟩ :: rest =>
    match queue.find? fun m => m.messageId = messageId with
    | some msg =>
      some (msg.attempted.attempts ≥ maxDeliveryAttempts,
        ⟨peer, queue.replaceF fun m => if m.messageId = messageId then some m.attempted else none⟩
          :: rest)
    | none => (attemptIn messageId rest).map fun out => (out.1, ⟨peer, queue⟩ :: out.2)

theorem replaceF_append {before after : List QueuedMessage} {msg : QueuedMessage}
    {f : QueuedMessage → Option QueuedMessage} {edited : QueuedMessage}
    (hbefore : ∀ m ∈ before, f m = none) (hmsg : f msg = some edited) :
    (before ++ msg :: after).replaceF f = before ++ edited :: after := by
  induction before with
  | nil => exact replaceF_cons_of_some f hmsg
  | cons m before ih => simp_all

/-- What the loop counts up is one message with the id, in one queue. -/
theorem attemptIn_spec {messageId : String} :
    ∀ {entries entries' : List (Sigma fun _ : String => List QueuedMessage)} {exceeded : Bool},
      attemptIn messageId entries = some (exceeded, entries') →
      ∃ msg, exceeded = decide (msg.attempted.attempts ≥ maxDeliveryAttempts) ∧
        EditsAt messageId msg [msg.attempted] entries entries'
  | [], _, _, h => by cases h
  | ⟨peer, queue⟩ :: rest, entries', exceeded, h => by
    unfold attemptIn at h
    split at h
    next msg hfind =>
      cases h
      obtain ⟨hid, before, after, rfl, hbefore⟩ := List.find?_eq_some_iff_append.mp hfind
      have hid : msg.messageId = messageId := of_decide_eq_true hid
      have hother : ∀ m ∈ before, m.messageId ≠ messageId := by grind
      have hreplace : (before ++ msg :: after).replaceF
          (fun m => if m.messageId = messageId then some m.attempted else none)
          = before ++ msg.attempted :: after :=
        replaceF_append (fun m hm => if_neg (hother m hm)) (if_pos hid)
      refine ⟨msg, rfl, [], peer, before, after, rest, hid, hother, rfl, ?_⟩
      rw [hreplace]
      rfl
    obtain ⟨⟨exceeded', rest'⟩, hrest, hout⟩ := map_eq_some_iff.mp h
    cases hout
    obtain ⟨msg, hexceeded, hedit⟩ := attemptIn_spec hrest
    exact ⟨msg, hexceeded, hedit.cons _⟩

theorem attemptIn_eq_none {messageId : String} :
    ∀ {entries : List (Sigma fun _ : String => List QueuedMessage)},
      attemptIn messageId entries = none →
      ∀ entry ∈ entries, ∀ msg ∈ entry.2, msg.messageId ≠ messageId
  | [], _ => forall_mem_nil _
  | ⟨peer, queue⟩ :: rest, h => by
    unfold attemptIn at h
    split at h
    next => cases h
    next hfind =>
      refine forall_mem_cons.mpr ⟨fun msg hmsg hid => ?_,
        attemptIn_eq_none (map_eq_none_iff.mp h)⟩
      exact List.find?_eq_none.mp hfind msg hmsg (decide_eq_true hid)

/-- `Outbox::record_attempt`. -/
def recordAttempt (o : Outbox) (messageId : String) : Bool × Outbox :=
  match h : attemptIn messageId o.queues.entries with
  | none => (false, o)
  | some (exceeded, entries) =>
    (exceeded,
      { queues := ⟨entries, by
          obtain ⟨msg, _, hedit⟩ := attemptIn_spec h
          exact hedit.nodupKeys o.queues.nodupKeys⟩
        total := o.total
        counted := by
          obtain ⟨msg, _, hedit⟩ := attemptIn_spec h
          have hsum := hedit.sum_length
          have hcounted : o.total = (o.queues.entries.map fun entry => entry.2.length).sum :=
            o.counted
          show _ = (entries.map fun entry => entry.2.length).sum
          rw [length_singleton] at hsum
          omega })

/-- `total_count`. -/
def totalCount (o : Outbox) : Nat := o.total

/-- `peer_count`: the queues there are, the empty ones among them. -/
def peerCount (o : Outbox) : Nat := len o.queues

/-- What `remove_expired` keeps of a queue. -/
def fresh (now maxAgeSecs : Nat) (m : QueuedMessage) : Bool := now - m.queuedAt < maxAgeSecs

/-- `Outbox::remove_expired` at the clock reading `now`, in seconds. -/
def removeExpired (o : Outbox) (now maxAgeSecs : Nat) : Nat × Outbox :=
  let kept := mapValues o.queues fun queue => queue.filter (fresh now maxAgeSecs)
  let removed := sumValues o.queues fun queue =>
    queue.length - (queue.filter (fresh now maxAgeSecs)).length
  (removed,
    { queues := retain kept fun _ queue => !queue.isEmpty
      total := o.total - removed
      counted := by
        have hkept : sumValues (retain kept fun _ queue => !queue.isEmpty) List.length
            = sumValues o.queues fun queue => (queue.filter (fresh now maxAgeSecs)).length := by
          grind [sumValues_retain_of_zero, sumValues_mapValues]
        have hsplit := sumValues_add o.queues
          (fun queue => queue.length - (queue.filter (fresh now maxAgeSecs)).length)
          fun queue => (queue.filter (fresh now maxAgeSecs)).length
        have hlength : (fun queue : List QueuedMessage =>
            queue.length - (queue.filter (fresh now maxAgeSecs)).length
              + (queue.filter (fresh now maxAgeSecs)).length) = List.length := by grind
        rw [hlength, ← o.counted] at hsplit
        rw [hkept]
        omega })

/-! ## How often a message is queued -/

/-- How many queued messages have the id. -/
def occurrences (messageId : String) (o : Outbox) : Nat :=
  sumValues o.queues fun queue => queue.countP fun m => m.messageId = messageId

variable (o : Outbox) (msg : QueuedMessage)

theorem enqueue_ok_iff :
    (o.enqueue msg).1 = .ok () ↔
      o.total < maxTotalQueued ∧ (o.peekForPeer msg.recipientId).length < maxQueuePerPeer := by
  unfold enqueue
  split
  next htotal => grind
  next htotal => grind

theorem enqueue_cases :
    ((o.enqueue msg).1 = .ok () ∧ (o.enqueue msg).2 = o.push msg) ∨
      ((o.enqueue msg).1 ≠ .ok () ∧ (o.enqueue msg).2 = o) := by
  unfold enqueue
  split
  next => exact .inr ⟨nofun, rfl⟩
  next => grind

/-- What is queued afterwards: the message as well, if both limits had room for it. -/
theorem enqueue_snd : (o.enqueue msg).2 = if o.total < maxTotalQueued ∧
    (o.peekForPeer msg.recipientId).length < maxQueuePerPeer then o.push msg else o := by
  rcases o.enqueue_cases msg with ⟨hok, hpush⟩ | ⟨hrefused, hsame⟩
  · rw [hpush, if_pos ((o.enqueue_ok_iff msg).mp hok)]
  · rw [hsame, if_neg (mt (o.enqueue_ok_iff msg).mpr hrefused)]

theorem mem_peekForPeer_push :
    msg ∈ (o.push msg).peekForPeer msg.recipientId := by
  have hlookup : (o.push msg).queues.lookup msg.recipientId
      = some (o.peekForPeer msg.recipientId ++ [msg]) := lookup_insert _
  rw [peekForPeer, hlookup]
  exact mem_append_right _ (mem_singleton_self msg)

theorem occurrences_push :
    (o.push msg).occurrences msg.messageId = o.occurrences msg.messageId + 1 := by
  have hsum :=
    sumValues_push o msg (fun queue => queue.countP fun m => m.messageId = msg.messageId) rfl
  simp only [countP_append, countP_singleton, decide_true, if_true] at hsum
  have hpush : (o.push msg).occurrences msg.messageId = sumValues
    (o.queues.insert msg.recipientId (o.peekForPeer msg.recipientId ++ [msg]))
      fun queue => queue.countP fun m => m.messageId = msg.messageId := rfl
  rw [hpush, occurrences]
  omega

variable (messageId : String)

theorem occurrences_pos_iff (o : Outbox) :
    0 < o.occurrences messageId ↔
      ∃ entry ∈ o.queues.entries, ∃ msg ∈ entry.2, msg.messageId = messageId := by
  rw [occurrences, sumValues, List.sum_pos_iff_exists_pos_nat]
  simp

/-- When the loop finds nothing, no queued message has the id. -/
theorem occurrences_of_removeIn {o : Outbox} {messageId : String}
    (h : removeIn messageId o.queues.entries = none) : o.occurrences messageId = 0 := by
  refine Nat.eq_zero_of_not_pos fun hpos => ?_
  obtain ⟨entry, hentry, msg, hmsg, hid⟩ := (occurrences_pos_iff messageId o).mp hpos
  exact removeIn_eq_none h entry hentry msg hmsg hid

theorem remove_fst :
    (o.remove messageId).1 = true ↔ 0 < o.occurrences messageId := by
  unfold remove
  split
  next h =>
    rw [occurrences_of_removeIn h]
    exact ⟨nofun, nofun⟩
  next entries h =>
    rw [occurrences_pos_iff]
    refine ⟨fun _ => ?_, fun _ => rfl⟩
    obtain ⟨msg, hedit⟩ := removeIn_spec h
    obtain ⟨hid, entry, hentry, hmsg⟩ := hedit.mem
    exact ⟨entry, hentry, msg, hmsg, hid⟩

theorem occurrences_remove :
    (o.remove messageId).2.occurrences messageId = o.occurrences messageId - 1 := by
  unfold remove
  split
  next h =>
    dsimp only
    rw [occurrences_of_removeIn h]
  next entries h =>
    obtain ⟨msg, hedit⟩ := removeIn_spec h
    have hsum := hedit.sum fun m => m.messageId = messageId
    rw [if_pos (decide_eq_true hedit.mem.1), countP_nil] at hsum
    show (entries.map fun entry => entry.2.countP fun m => m.messageId = messageId).sum
      = (o.queues.entries.map fun entry => entry.2.countP fun m => m.messageId = messageId).sum - 1
    omega

theorem occurrences_pos_of_mem_peek {o : Outbox} {recipientId : String} {msg : QueuedMessage}
    (h : msg ∈ o.peekForPeer recipientId) : 0 < o.occurrences msg.messageId := by
  rw [occurrences_pos_iff]
  unfold peekForPeer at h
  cases hlookup : o.queues.lookup recipientId with
  | none => simp_all
  | some queue =>
    rw [hlookup, getD_some] at h
    exact ⟨⟨recipientId, queue⟩, mem_lookup_iff.mp hlookup, msg, h, rfl⟩

/-! ## What each call leaves in the queues -/

theorem peekForPeer_push (peer : String) :
    (o.push msg).peekForPeer peer
      = if peer = msg.recipientId then o.peekForPeer peer ++ [msg] else o.peekForPeer peer := by
  by_cases hpeer : peer = msg.recipientId
  · rw [if_pos hpeer, hpeer]
    show ((o.queues.insert msg.recipientId _).lookup msg.recipientId).getD [] = _
    rw [lookup_insert]
    rfl
  · rw [if_neg hpeer]
    show ((o.queues.insert msg.recipientId _).lookup peer).getD [] = _
    rw [lookup_insert_ne hpeer]
    rfl

/-- One recipient's queue lost its first message with the id, and has `instead` in its
place. -/
def EditsQueue (messageId : String) (msg : QueuedMessage) (instead : List QueuedMessage)
    (o o' : Outbox) : Prop :=
  ∃ peer before after, msg.messageId = messageId ∧ (∀ m ∈ before, m.messageId ≠ messageId) ∧
    o.peekForPeer peer = before ++ msg :: after ∧
    ∀ other, o'.peekForPeer other
      = if other = peer then before ++ (instead ++ after) else o.peekForPeer other

theorem EditsAt.editsQueue {messageId : String} {msg : QueuedMessage} {instead : List QueuedMessage}
    {o o' : Outbox} (h : EditsAt messageId msg instead o.queues.entries o'.queues.entries) :
    EditsQueue messageId msg instead o o' := by
  obtain ⟨front, peer, before, after, back, hid, hbefore, hold, hnew⟩ := h
  have hfound : o.queues.lookup peer = some (before ++ msg :: after) := by
    refine mem_lookup_iff.mpr ?_
    rw [hold]
    exact mem_append_right _ mem_cons_self
  have hedited : o'.queues.lookup peer = some (before ++ (instead ++ after)) := by
    refine mem_lookup_iff.mpr ?_
    rw [hnew]
    exact mem_append_right _ mem_cons_self
  -- the other queues stand in both lists
  have hsame : ∀ other ≠ peer, o'.queues.lookup other = o.queues.lookup other := by
    intro other hother
    refine Option.ext fun queue => ?_
    rw [← Option.mem_def, ← Option.mem_def, mem_lookup_iff, mem_lookup_iff, hold, hnew]
    simp [hother]
  refine ⟨peer, before, after, hid, hbefore, ?_, fun other => ?_⟩
  · rw [peekForPeer, hfound]
    rfl
  · by_cases hother : other = peer
    · rw [if_pos hother, hother, peekForPeer, hedited]
      rfl
    · rw [if_neg hother, peekForPeer, hsame other hother]
      rfl

/-- What holds of every queue's messages holds of every recipient's. -/
theorem forall_mem_peekForPeer {o : Outbox} {q : QueuedMessage → Prop}
    (h : ∀ entry ∈ o.queues.entries, ∀ msg ∈ entry.2, q msg) (peer : String) :
    ∀ msg ∈ o.peekForPeer peer, q msg := by
  intro msg hmsg
  unfold peekForPeer at hmsg
  cases hlookup : o.queues.lookup peer with
  | none => grind
  | some queue =>
    rw [hlookup, getD_some] at hmsg
    exact h _ (mem_lookup_iff.mp hlookup) msg hmsg

/-- A removal finds nothing, or takes the first copy out of one queue. -/
theorem remove_cases :
    ((o.remove messageId).1 = false ∧ (o.remove messageId).2 = o ∧
      ∀ peer, ∀ m ∈ o.peekForPeer peer, m.messageId ≠ messageId) ∨
    ((o.remove messageId).1 = true ∧
      ∃ msg, EditsQueue messageId msg [] o (o.remove messageId).2) := by
  unfold remove
  split
  next h => exact .inl ⟨rfl, rfl, forall_mem_peekForPeer (removeIn_eq_none h)⟩
  next entries h =>
    obtain ⟨msg, hedit⟩ := removeIn_spec h
    exact .inr ⟨rfl, msg, EditsAt.editsQueue hedit⟩

/-- An attempt finds nothing, or counts up the first copy in one queue. -/
theorem recordAttempt_cases :
    ((o.recordAttempt messageId).1 = false ∧ (o.recordAttempt messageId).2 = o ∧
      ∀ peer, ∀ m ∈ o.peekForPeer peer, m.messageId ≠ messageId) ∨
    ∃ msg, (o.recordAttempt messageId).1 = decide (msg.attempted.attempts ≥ maxDeliveryAttempts) ∧
      EditsQueue messageId msg [msg.attempted] o (o.recordAttempt messageId).2 := by
  unfold recordAttempt
  split
  next h => exact .inl ⟨rfl, rfl, forall_mem_peekForPeer (attemptIn_eq_none h)⟩
  next exceeded entries h =>
    obtain ⟨msg, hexceeded, hedit⟩ := attemptIn_spec h
    exact .inr ⟨msg, hexceeded, EditsAt.editsQueue hedit⟩

theorem drainForPeer_fst (recipientId : String) :
    (o.drainForPeer recipientId).1 = o.peekForPeer recipientId := by
  unfold drainForPeer
  split
  next h =>
    rw [peekForPeer, h]
    rfl
  next queue h =>
    show queue = (o.queues.lookup recipientId).getD []
    rw [h]
    rfl

theorem peekForPeer_drainForPeer (recipientId peer : String) :
    (o.drainForPeer recipientId).2.peekForPeer peer
      = if peer = recipientId then [] else o.peekForPeer peer := by
  unfold drainForPeer
  split
  next h => grind [peekForPeer]
  next queue h =>
    by_cases hpeer : peer = recipientId
    · rw [if_pos hpeer, hpeer]
      show ((o.queues.erase recipientId).lookup recipientId).getD [] = []
      rw [lookup_erase]
      rfl
    · rw [if_neg hpeer]
      show ((o.queues.erase recipientId).lookup peer).getD [] = _
      rw [lookup_erase_ne hpeer]
      rfl

theorem peekForPeer_removeExpired (now maxAgeSecs : Nat) (peer : String) :
    (o.removeExpired now maxAgeSecs).2.peekForPeer peer
      = (o.peekForPeer peer).filter (fresh now maxAgeSecs) :=
  getD_lookup_retain_mapValues o.queues filter_nil peer

end Outbox

end Scm.Store
