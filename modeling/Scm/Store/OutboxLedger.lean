import Scm.Runs
import Scm.Store.Outbox

/-!
# The outbox over whole runs — `core/src/store/outbox.rs`

Five operations change the in-memory outbox, each in a style of its own: `enqueue` appends to
a queue, `remove` and `record_attempt` look through the queues in whatever order the map has
them and stop at the first copy, `drain_for_peer` drops a queue, `remove_expired` filters
them all. A counter is kept beside them.

What the outbox is for is said by a ledger: every message that was ever queued, in that
order, with a mark while it is still waiting. Enqueuing writes a line, every other operation
strikes out lines or counts an attempt in one, and nothing is ever reordered (`Books`,
`step_books`). Message ids need not differ; of several copies the oldest in one of the queues
goes.

In between stands the list of waiting messages in the order they were queued. `Holds` says
that the queues sort that list by recipient, and there is one lemma for what each operation
does to it. The counter is the length of the list (`Holds.total_eq`).
-/

namespace Scm.Store

open List Collections

/-! ## Calls -/

/-- A call on an outbox; `now` is the reading of its clock in seconds. -/
inductive OutboxCall where
  | enqueue (msg : QueuedMessage)
  | peekForPeer (recipientId : String)
  | remove (messageId : String)
  | drainForPeer (recipientId : String)
  | recordAttempt (messageId : String)
  | totalCount
  | peerCount
  | removeExpired (now maxAgeSecs : Nat)
  deriving DecidableEq, Repr

inductive OutboxResult where
  | queued (result : Except String Unit)
  | messages (messages : List QueuedMessage)
  | flag (b : Bool)
  | count (n : Nat)

/-- The iteration order a `HashMap` happens to have. -/
structure MapOrder where
  order : List (Sigma fun _ : String => List QueuedMessage) →
    List (Sigma fun _ : String => List QueuedMessage)
  perm : ∀ entries, (order entries).Perm entries

/-- The order of the list. -/
def MapOrder.same : MapOrder := ⟨id, fun _ => .refl _⟩

namespace Outbox

/-- The same queues in another iteration order. -/
def reordered (o : Outbox) (order : MapOrder) : Outbox where
  queues := ⟨order.order o.queues.entries,
    (perm_nodupKeys (order.perm _)).mpr o.queues.nodupKeys⟩
  total := o.total
  counted := by
    have hperm := (order.perm o.queues.entries).map fun entry => entry.2.length
    exact o.counted.trans hperm.sum_nat.symm

theorem peekForPeer_reordered (o : Outbox) (order : MapOrder) (peer : String) :
    (o.reordered order).peekForPeer peer = o.peekForPeer peer := by
  have hlookup : (o.reordered order).queues.lookup peer = o.queues.lookup peer :=
    AList.perm_lookup (order.perm _)
  rw [peekForPeer, hlookup, peekForPeer]

/-- One call. -/
def apply (o : Outbox) : OutboxCall → OutboxResult × Outbox
  | .enqueue msg => let out := o.enqueue msg; (.queued out.1, out.2)
  | .peekForPeer recipientId => (.messages (o.peekForPeer recipientId), o)
  | .remove messageId => let out := o.remove messageId; (.flag out.1, out.2)
  | .drainForPeer recipientId => let out := o.drainForPeer recipientId; (.messages out.1, out.2)
  | .recordAttempt messageId => let out := o.recordAttempt messageId; (.flag out.1, out.2)
  | .totalCount => (.count o.totalCount, o)
  | .peerCount => (.count o.peerCount, o)
  | .removeExpired now maxAgeSecs =>
    let out := o.removeExpired now maxAgeSecs; (.count out.1, out.2)

/-- A call that finds the map in some order. -/
def step (o : Outbox) (event : MapOrder × OutboxCall) : OutboxResult × Outbox :=
  (o.reordered event.1).apply event.2

/-- The calls of a run with their results, and the outbox it leaves. -/
def trace : Outbox → List (MapOrder × OutboxCall) → List (OutboxCall × OutboxResult) × Outbox
  | o, [] => ([], o)
  | o, event :: events =>
    let out := trace (o.step event).2 events
    ((event.2, (o.step event).1) :: out.1, out.2)

/-- What a call takes off the counter. -/
def taken (o : Outbox) : OutboxCall → Nat
  | .remove messageId => if (o.remove messageId).1 then 1 else 0
  | .drainForPeer recipientId => (o.drainForPeer recipientId).1.length
  | .removeExpired now maxAgeSecs => (o.removeExpired now maxAgeSecs).1
  | _ => 0

/-! ## The waiting messages -/

/-- The queues sort these messages, oldest first, by recipient. -/
def Holds (o : Outbox) (waiting : List QueuedMessage) : Prop :=
  ∀ peer, o.peekForPeer peer = waiting.filter fun m => m.recipientId = peer

section
variable {o o' : Outbox} {waiting : List QueuedMessage}

theorem holds_new : new.Holds [] := fun _ => rfl

section
variable (h : o.Holds waiting)
include h

theorem Holds.reordered (order : MapOrder) :
    (o.reordered order).Holds waiting := by
  intro peer
  rw [peekForPeer_reordered, h peer]

theorem Holds.countP (p : QueuedMessage → Bool) :
    sumValues o.queues (List.countP p) = waiting.countP p :=
  sumValues_countP_of_filter h p

theorem Holds.total_eq : o.total = waiting.length := by
  have hcount := h.countP fun _ => true
  rw [countP_true] at hcount
  exact o.counted.trans hcount

theorem Holds.mem_iff (q : QueuedMessage → Prop) :
    (∀ peer, ∀ m ∈ o.peekForPeer peer, q m) ↔ ∀ m ∈ waiting, q m := by
  constructor
  · intro hall m hm
    refine hall m.recipientId m ?_
    rw [h m.recipientId]
    exact mem_filter.mpr ⟨hm, decide_eq_true rfl⟩
  · intro hall peer m hm
    rw [h peer] at hm
    exact hall m (mem_of_mem_filter hm)

theorem Holds.push (msg : QueuedMessage) :
    (o.push msg).Holds (waiting ++ [msg]) := by
  intro peer
  rw [peekForPeer_push, h peer, filter_append, filter_singleton]
  by_cases hpeer : peer = msg.recipientId
  · grind
  · grind

end

/-- An element that a filter keeps stands in the list, between what becomes of the two sides. -/
theorem exists_of_filter_eq {α : Type} {p : α → Bool} {l before after : List α} {a : α}
    (h : l.filter p = before ++ a :: after) :
    ∃ front back, l = front ++ a :: back ∧ p a = true ∧ front.filter p = before ∧
      back.filter p = after := by
  obtain ⟨start, rest, rfl, hstart, hrest⟩ := filter_eq_append_iff.mp h
  obtain ⟨skipped, back, rfl, hskipped, ha, hback⟩ := filter_eq_cons_iff.mp hrest
  refine ⟨start ++ skipped, back, by rw [append_assoc], ha, ?_, hback⟩
  rw [filter_append, hstart, filter_eq_nil_iff.mpr hskipped, append_nil]

section
variable (h : o.Holds waiting) {messageId : String} {msg : QueuedMessage}
include h

/-- A queue that lost its first copy lost it from the waiting messages. -/
theorem Holds.edit {instead : List QueuedMessage} (hedit : EditsQueue messageId msg instead o o')
    (hinstead : ∀ m ∈ instead, m.recipientId = msg.recipientId) :
    ∃ front back, waiting = front ++ msg :: back ∧ msg.messageId = messageId ∧
      (∀ m ∈ front, m.recipientId = msg.recipientId → m.messageId ≠ messageId) ∧
      o'.Holds (front ++ (instead ++ back)) := by
  obtain ⟨peer, before, after, hid, hbefore, hqueue, hnew⟩ := hedit
  rw [h peer] at hqueue
  obtain ⟨front, back, rfl, hpeer, hfront, hback⟩ := exists_of_filter_eq hqueue
  have hpeer : msg.recipientId = peer := of_decide_eq_true hpeer
  refine ⟨front, back, rfl, hid, ?_, ?_⟩
  · grind
  · intro other
    rw [hnew other, filter_append, filter_append]
    by_cases hother : other = peer
    · have hall : instead.filter (fun m => m.recipientId = other) = instead := by
        refine filter_eq_self.mpr fun m hm => decide_eq_true ?_
        rw [hinstead m hm, hpeer, hother]
      rw [if_pos hother, hall, hother, hfront, hback]
    · have hnone : instead.filter (fun m => m.recipientId = other) = [] := by
        refine filter_eq_nil_iff.mpr fun m hm hrecipient => hother ?_
        rw [← of_decide_eq_true hrecipient, hinstead m hm, hpeer]
      have hskip : decide (msg.recipientId = other) = false :=
        decide_eq_false fun heq => hother (heq.symm.trans hpeer)
      rw [if_neg hother, hnone, nil_append, h other, filter_append,
        filter_cons_of_neg (by rw [hskip]; exact Bool.false_ne_true)]

theorem Holds.drain (recipientId : String) :
    (o.drainForPeer recipientId).2.Holds (waiting.filter fun m => m.recipientId ≠ recipientId) := by
  intro peer
  rw [peekForPeer_drainForPeer, filter_filter]
  by_cases hpeer : peer = recipientId
  · simp_all
  · rw [if_neg hpeer, h peer]
    refine filter_congr fun m _ => ?_
    by_cases hm : m.recipientId = peer
    · simp [hm, hpeer]
    · simp [hm]

theorem Holds.expire (now maxAgeSecs : Nat) :
    (o.removeExpired now maxAgeSecs).2.Holds (waiting.filter (fresh now maxAgeSecs)) := by
  intro peer
  rw [peekForPeer_removeExpired, h peer, filter_filter, filter_filter]
  exact filter_congr fun m _ => Bool.and_comm _ _

theorem Holds.expired_eq (now maxAgeSecs : Nat) :
    (o.removeExpired now maxAgeSecs).1 = waiting.countP fun m => !fresh now maxAgeSecs m := by
  have hexpired : (fun queue : List QueuedMessage =>
      queue.length - (queue.filter (fresh now maxAgeSecs)).length)
        = List.countP fun m => !fresh now maxAgeSecs m := by
    funext queue
    have hsplit := length_eq_countP_add_countP (fresh now maxAgeSecs) (l := queue)
    rw [← countP_eq_length_filter, hsplit, Nat.add_sub_cancel_left]
    exact countP_congr fun m _ => by simp
  rw [← h.countP, ← hexpired]
  rfl

end

end

end Outbox

/-! ## The ledger -/

/-- A message that was queued, with the attempts counted so far, and whether it still waits. -/
structure LedgerEntry where
  message : QueuedMessage
  queued : Bool
  deriving DecidableEq, Repr

/-- Every message that was queued, in that order. -/
abbrev Ledger := List LedgerEntry

namespace Ledger

/-- The lines that are not struck out. -/
def waiting (ledger : Ledger) : List QueuedMessage :=
  ledger.filterMap fun entry => if entry.queued then some entry.message else none

/-- One recipient's lines that are not struck out. -/
def queueOf (ledger : Ledger) (recipientId : String) : List QueuedMessage :=
  ledger.waiting.filter fun m => m.recipientId = recipientId

/-- Strike out every line whose message is gone. -/
def strike (ledger : Ledger) (gone : QueuedMessage → Bool) : Ledger :=
  ledger.map fun entry => if gone entry.message then { entry with queued := false } else entry

/-- What a call with its result does to the ledger. -/
inductive Books : Ledger → OutboxCall → OutboxResult → Ledger → Prop
  | queued (ledger : Ledger) (msg : QueuedMessage) :
      Books ledger (.enqueue msg) (.queued (.ok ())) (ledger ++ [⟨msg, true⟩])
  | refused (ledger : Ledger) (msg : QueuedMessage) (e : String) :
      Books ledger (.enqueue msg) (.queued (.error e)) ledger
  | peeked (ledger : Ledger) (recipientId : String) :
      Books ledger (.peekForPeer recipientId) (.messages (ledger.queueOf recipientId)) ledger
  -- the oldest copy of its recipient goes
  | removed (front back : Ledger) (msg : QueuedMessage)
      (oldest : ∀ m ∈ front.queueOf msg.recipientId, m.messageId ≠ msg.messageId) :
      Books (front ++ ⟨msg, true⟩ :: back) (.remove msg.messageId) (.flag true)
        (front ++ ⟨msg, false⟩ :: back)
  | notRemoved (ledger : Ledger) (messageId : String)
      (absent : ∀ m ∈ ledger.waiting, m.messageId ≠ messageId) :
      Books ledger (.remove messageId) (.flag false) ledger
  | drained (ledger : Ledger) (recipientId : String) :
      Books ledger (.drainForPeer recipientId) (.messages (ledger.queueOf recipientId))
        (ledger.strike fun m => m.recipientId = recipientId)
  | attempted (front back : Ledger) (msg : QueuedMessage)
      (oldest : ∀ m ∈ front.queueOf msg.recipientId, m.messageId ≠ msg.messageId) :
      Books (front ++ ⟨msg, true⟩ :: back) (.recordAttempt msg.messageId)
        (.flag (msg.attempted.attempts ≥ Outbox.maxDeliveryAttempts))
        (front ++ ⟨msg.attempted, true⟩ :: back)
  | notAttempted (ledger : Ledger) (messageId : String)
      (absent : ∀ m ∈ ledger.waiting, m.messageId ≠ messageId) :
      Books ledger (.recordAttempt messageId) (.flag false) ledger
  | counted (ledger : Ledger) : Books ledger .totalCount (.count ledger.waiting.length) ledger
  -- how many queues there are is not in the ledger
  | peers (ledger : Ledger) (n : Nat) : Books ledger .peerCount (.count n) ledger
  | expired (ledger : Ledger) (now maxAgeSecs : Nat) :
      Books ledger (.removeExpired now maxAgeSecs)
        (.count (ledger.waiting.countP fun m => now - m.queuedAt ≥ maxAgeSecs))
        (ledger.strike fun m => now - m.queuedAt ≥ maxAgeSecs)

/-- The ledger of a whole run. -/
def Run : Ledger → List (OutboxCall × OutboxResult) → Ledger → Prop
  | ledger, [], last => last = ledger
  | ledger, (call, result) :: rest, last =>
    ∃ next, Books ledger call result next ∧ Run next rest last

section
variable {ledger : Ledger}

theorem waiting_append (front back : Ledger) :
    waiting (front ++ back) = front.waiting ++ back.waiting := filterMap_append

theorem waiting_strike (ledger : Ledger) (gone : QueuedMessage → Bool) :
    (ledger.strike gone).waiting = ledger.waiting.filter fun m => !gone m := by
  induction ledger with
  | nil => rfl
  | cons entry ledger ih =>
    obtain ⟨msg, queued⟩ := entry
    have hcons : ∀ (entry : LedgerEntry) (rest : Ledger), waiting (entry :: rest)
        = if entry.queued then entry.message :: rest.waiting else rest.waiting := by
      intro entry rest
      unfold waiting
      rw [filterMap_cons]
      cases entry.queued <;> rfl
    have hstrike : strike (⟨msg, queued⟩ :: ledger) gone
        = (if gone msg then ⟨msg, false⟩ else ⟨msg, queued⟩) :: strike ledger gone := rfl
    rw [hstrike, hcons, hcons, ih]
    cases hgone : gone msg <;> cases queued <;> simp [hgone]

theorem exists_of_waiting_eq {front back : List QueuedMessage} {msg : QueuedMessage}
    (h : ledger.waiting = front ++ msg :: back) :
    ∃ before after : Ledger, ledger = before ++ ⟨msg, true⟩ :: after ∧ before.waiting = front ∧
      after.waiting = back := by
  obtain ⟨start, rest, rfl, hstart, hrest⟩ := filterMap_eq_append_iff.mp h
  obtain ⟨skipped, entry, after, rfl, hskipped, hentry, hafter⟩ :=
    filterMap_eq_cons_iff.mp hrest
  have hline : entry = ⟨msg, true⟩ := by
    obtain ⟨m, queued⟩ := entry
    cases queued with
    | false => cases hentry
    | true =>
      cases hentry
      rfl
  refine ⟨start ++ skipped, after, by rw [hline, append_assoc], ?_, hafter⟩
  rw [waiting_append]
  have hnone : waiting skipped = [] := filterMap_eq_nil_iff.mpr hskipped
  rw [hnone, append_nil]
  exact hstart

end

end Ledger

namespace Outbox

open Ledger

/-- The messages that are not gone, in the words of the code and of the ledger. -/
theorem not_fresh (now maxAgeSecs : Nat) (m : QueuedMessage) :
    (!fresh now maxAgeSecs m) = decide (now - m.queuedAt ≥ maxAgeSecs) := by
  unfold fresh
  by_cases h : now - m.queuedAt < maxAgeSecs
  · grind
  · grind

/-- A call has a next ledger, with the messages that wait after it. -/
def FollowsLedger (o : Outbox) (ledger : Ledger) (call : OutboxCall) : Prop :=
  ∃ next, Books ledger call (o.apply call).1 next ∧ (o.apply call).2.Holds next.waiting

section
variable {s : Outbox} {ledger : Ledger} (h : s.Holds ledger.waiting)
include h

theorem enqueue_books (msg : QueuedMessage) : s.FollowsLedger ledger (.enqueue msg) := by
  simp only [FollowsLedger, apply]
  rcases s.enqueue_cases msg with ⟨hok, hpush⟩ | ⟨hrefused, hunchanged⟩
  · rw [hok, hpush]
    refine ⟨ledger ++ [⟨msg, true⟩], .queued ledger msg, ?_⟩
    rw [waiting_append]
    exact h.push msg
  · rw [hunchanged]
    cases hresult : (s.enqueue msg).1 with
    | ok u => exact absurd hresult hrefused
    | error e => exact ⟨ledger, .refused ledger msg e, h⟩

/-- The line of a message that a call edits is the oldest of its recipient. -/
theorem edited_line {s' : Outbox} {messageId : String} {msg : QueuedMessage}
    {instead : List QueuedMessage} (hedit : EditsQueue messageId msg instead s s')
    (hinstead : ∀ m ∈ instead, m.recipientId = msg.recipientId) :
    ∃ before after : Ledger, ledger = before ++ ⟨msg, true⟩ :: after ∧ msg.messageId = messageId ∧
      (∀ m ∈ before.queueOf msg.recipientId, m.messageId ≠ msg.messageId) ∧
      s'.Holds (before.waiting ++ (instead ++ after.waiting)) := by
  obtain ⟨front, back, hwaiting, rfl, holdest, hafter⟩ := h.edit hedit hinstead
  obtain ⟨before, after, rfl, rfl, rfl⟩ := exists_of_waiting_eq hwaiting
  refine ⟨before, after, rfl, rfl, fun m hm => ?_, hafter⟩
  obtain ⟨hfront, hrecipient⟩ := mem_filter.mp hm
  exact holdest m hfront (of_decide_eq_true hrecipient)

theorem remove_books (messageId : String) : s.FollowsLedger ledger (.remove messageId) := by
  simp only [FollowsLedger, apply]
  rcases s.remove_cases messageId with ⟨hfalse, hunchanged, habsent⟩ | ⟨htrue, msg, hedit⟩
  · rw [hfalse, hunchanged]
    exact ⟨ledger, .notRemoved ledger messageId
      ((h.mem_iff fun m => m.messageId ≠ messageId).mp habsent), h⟩
  · obtain ⟨before, after, rfl, rfl, holdest, hafter⟩ := edited_line h hedit nofun
    rw [htrue]
    refine ⟨before ++ ⟨msg, false⟩ :: after, .removed before after msg holdest, ?_⟩
    rw [waiting_append]
    exact hafter

theorem drainForPeer_books (recipientId : String) :
    s.FollowsLedger ledger (.drainForPeer recipientId) := by
  refine ⟨ledger.strike fun m => m.recipientId = recipientId, ?_, ?_⟩
  · rw [apply, drainForPeer_fst, h recipientId]
    exact .drained ledger recipientId
  · rw [apply, waiting_strike]
    simpa only [decide_not] using h.drain recipientId

theorem recordAttempt_books (messageId : String) :
    s.FollowsLedger ledger (.recordAttempt messageId) := by
  simp only [FollowsLedger, apply]
  rcases s.recordAttempt_cases messageId with ⟨hfalse, hunchanged, habsent⟩ | ⟨msg, hflag, hedit⟩
  · rw [hfalse, hunchanged]
    exact ⟨ledger, .notAttempted ledger messageId
      ((h.mem_iff fun m => m.messageId ≠ messageId).mp habsent), h⟩
  · obtain ⟨before, after, rfl, rfl, holdest, hafter⟩ :=
      edited_line h hedit (forall_mem_singleton.mpr rfl)
    rw [hflag]
    refine ⟨before ++ ⟨msg.attempted, true⟩ :: after, .attempted before after msg holdest, ?_⟩
    rw [waiting_append]
    exact hafter

theorem removeExpired_books (now maxAgeSecs : Nat) :
    s.FollowsLedger ledger (.removeExpired now maxAgeSecs) := by
  refine ⟨ledger.strike fun m => now - m.queuedAt ≥ maxAgeSecs, ?_, ?_⟩
  · rw [apply, h.expired_eq]
    simp only [not_fresh]
    exact .expired ledger now maxAgeSecs
  · rw [apply, waiting_strike]
    have hfresh : (fun m : QueuedMessage => !decide (now - m.queuedAt ≥ maxAgeSecs))
        = fresh now maxAgeSecs := by
      funext m
      rw [← not_fresh, Bool.not_not]
    rw [hfresh]
    exact h.expire now maxAgeSecs

end

/-- **One call follows the ledger**, whatever the order of the map. -/
theorem step_books {o : Outbox} {ledger : Ledger} (h : o.Holds ledger.waiting)
    (event : MapOrder × OutboxCall) :
    ∃ next, Books ledger event.2 (o.step event).1 next ∧ (o.step event).2.Holds next.waiting := by
  obtain ⟨order, call⟩ := event
  have hsame := h.reordered order
  unfold step
  generalize o.reordered order = s at hsame
  cases call with
  | enqueue msg => exact enqueue_books hsame msg
  | peekForPeer recipientId =>
    refine ⟨ledger, ?_, hsame⟩
    rw [apply, hsame recipientId]
    exact .peeked ledger recipientId
  | remove messageId => exact remove_books hsame messageId
  | drainForPeer recipientId => exact drainForPeer_books hsame recipientId
  | recordAttempt messageId => exact recordAttempt_books hsame messageId
  | totalCount =>
    refine ⟨ledger, ?_, hsame⟩
    rw [apply, totalCount, hsame.total_eq]
    exact .counted ledger
  | peerCount => exact ⟨ledger, .peers ledger _, hsame⟩
  | removeExpired now maxAgeSecs => exact removeExpired_books hsame now maxAgeSecs

theorem trace_books (events : List (MapOrder × OutboxCall)) :
    ∀ {o : Outbox} {ledger : Ledger}, o.Holds ledger.waiting →
      ∃ last, Ledger.Run ledger (o.trace events).1 last ∧
        (o.trace events).2.Holds last.waiting := by
  induction events with
  | nil => exact fun {o ledger} h => ⟨ledger, rfl, h⟩
  | cons event events ih =>
    intro o ledger h
    obtain ⟨next, hbooks, hnext⟩ := step_books h event
    obtain ⟨last, hrun, hlast⟩ := ih hnext
    exact ⟨last, ⟨next, hbooks, hrun⟩, hlast⟩

/-! ## The counter and the limits -/

theorem Holds.taken_le {o : Outbox} {waiting : List QueuedMessage} (h : o.Holds waiting)
    (call : OutboxCall) : o.taken call ≤ o.total := by
  rw [h.total_eq]
  cases call with
  | remove messageId =>
    show (if (o.remove messageId).1 then 1 else 0) ≤ waiting.length
    rcases o.remove_cases messageId with ⟨hfalse, _⟩ | ⟨htrue, msg, hedit⟩
    · rw [hfalse]
      exact Nat.zero_le _
    · obtain ⟨front, back, rfl, _⟩ := h.edit hedit (fun m hm => by cases hm)
      rw [htrue, if_pos rfl, length_append, length_cons]
      omega
  | drainForPeer recipientId =>
    show (o.drainForPeer recipientId).1.length ≤ waiting.length
    rw [drainForPeer_fst, h recipientId]
    exact length_filter_le _ _
  | removeExpired now maxAgeSecs =>
    show (o.removeExpired now maxAgeSecs).1 ≤ waiting.length
    rw [h.expired_eq]
    exact countP_le_length
  | enqueue _ | peekForPeer _ | recordAttempt _ | totalCount | peerCount => exact Nat.zero_le _

/-- Neither a queue nor the whole is over its limit. -/
structure WithinLimits (o : Outbox) : Prop where
  queue : ∀ peer, (o.peekForPeer peer).length ≤ maxQueuePerPeer
  total : o.total ≤ maxTotalQueued

/-- No queue is longer than it was, and the counter not higher. -/
structure Shrinks (o o' : Outbox) : Prop where
  queue : ∀ peer, (o'.peekForPeer peer).length ≤ (o.peekForPeer peer).length
  total : o'.total ≤ o.total

section
variable {o o' : Outbox}

theorem Shrinks.withinLimits (h : Shrinks o o') (hlimits : o.WithinLimits) : o'.WithinLimits :=
  ⟨fun peer => (h.queue peer).trans (hlimits.queue peer), h.total.trans hlimits.total⟩

theorem Shrinks.refl (o : Outbox) : Shrinks o o := ⟨fun _ => Nat.le_refl _, Nat.le_refl _⟩

theorem EditsQueue.shrinks {messageId : String} {msg : QueuedMessage} {instead : List QueuedMessage}
    (h : EditsQueue messageId msg instead o o') (hinstead : instead.length ≤ 1)
    (htotal : o'.total ≤ o.total) : Shrinks o o' := by
  obtain ⟨edited, before, after, _, _, hqueue, hnew⟩ := h
  refine ⟨fun peer => ?_, htotal⟩
  rw [hnew peer]
  by_cases hpeer : peer = edited
  · grind
  · rw [if_neg hpeer]

theorem withinLimits_enqueue (h : o.WithinLimits) (msg : QueuedMessage) :
    (o.enqueue msg).2.WithinLimits := by
  rcases o.enqueue_cases msg with ⟨hok, hpush⟩ | ⟨_, hunchanged⟩
  · obtain ⟨htotal, hqueue⟩ := (o.enqueue_ok_iff msg).mp hok
    rw [hpush]
    refine ⟨fun peer => ?_, htotal⟩
    rw [peekForPeer_push]
    by_cases hpeer : peer = msg.recipientId
    · grind
    · rw [if_neg hpeer]
      exact h.queue peer
  · rw [hunchanged]
    exact h

section
variable (o : Outbox) (messageId : String)

theorem total_remove_le : (o.remove messageId).2.total ≤ o.total := by
  unfold remove
  split
  next => exact Nat.le_refl _
  next => exact Nat.sub_le _ _

theorem total_recordAttempt : (o.recordAttempt messageId).2.total = o.total := by
  unfold recordAttempt
  split <;> rfl

theorem total_drainForPeer_le (recipientId : String) :
    (o.drainForPeer recipientId).2.total ≤ o.total := by
  unfold drainForPeer
  split
  next => exact Nat.le_refl _
  next => exact Nat.sub_le _ _

end

theorem withinLimits_step (h : o.WithinLimits) (event : MapOrder × OutboxCall) :
    (o.step event).2.WithinLimits := by
  obtain ⟨order, call⟩ := event
  have hsame : (o.reordered order).WithinLimits := by
    refine ⟨fun peer => ?_, h.total⟩
    rw [peekForPeer_reordered]
    exact h.queue peer
  unfold step
  generalize o.reordered order = s at hsame
  cases call with
  | enqueue msg => exact withinLimits_enqueue hsame msg
  | peekForPeer _ | totalCount | peerCount => exact hsame
  | remove messageId =>
    refine Shrinks.withinLimits ?_ hsame
    rcases s.remove_cases messageId with ⟨_, hunchanged, _⟩ | ⟨_, msg, hedit⟩
    · rw [apply, hunchanged]
      exact .refl s
    · exact hedit.shrinks (Nat.zero_le 1) (s.total_remove_le messageId)
  | drainForPeer recipientId =>
    refine Shrinks.withinLimits ⟨fun peer => ?_, s.total_drainForPeer_le recipientId⟩ hsame
    rw [apply, peekForPeer_drainForPeer]
    split
    next => exact Nat.zero_le _
    next => exact Nat.le_refl _
  | recordAttempt messageId =>
    refine Shrinks.withinLimits ?_ hsame
    rcases s.recordAttempt_cases messageId with ⟨_, hunchanged, _⟩ | ⟨msg, _, hedit⟩
    · rw [apply, hunchanged]
      exact .refl s
    · exact hedit.shrinks (Nat.le_refl 1) (s.total_recordAttempt messageId).le
  | removeExpired now maxAgeSecs =>
    refine Shrinks.withinLimits ⟨fun peer => ?_, Nat.sub_le _ _⟩ hsame
    rw [apply, peekForPeer_removeExpired]
    exact length_filter_le _ _

theorem withinLimits_trace (events : List (MapOrder × OutboxCall)) :
    ∀ {o : Outbox}, o.WithinLimits → (o.trace events).2.WithinLimits := by
  induction events with
  | nil => exact fun {o} h => h
  | cons event events ih => exact fun {o} h => ih (withinLimits_step h event)

end

/-- **The outbox over every run.** Whatever calls were made, and in whatever order the map
iterated at each: the counter is the sum of the queue lengths, and no next call takes more off
it than is on it; no queue is over the limit for one recipient and the counter not over the
limit for all; and the calls and their results are those of a ledger of which each queue is the
lines of its recipient that are not struck out, oldest first. -/
theorem run_follows_ledger (events : List (MapOrder × OutboxCall)) :
    let o := (new.trace events).2
    o.total = sumValues o.queues List.length ∧
    (∀ order call, (o.reordered order).taken call ≤ o.total) ∧
    (∀ peer, (o.peekForPeer peer).length ≤ maxQueuePerPeer) ∧ o.total ≤ maxTotalQueued ∧
    ∃ ledger : Ledger, Ledger.Run [] (new.trace events).1 ledger ∧
      ∀ peer, o.peekForPeer peer = ledger.queueOf peer := by
  intro o
  obtain ⟨ledger, hrun, hholds⟩ := @trace_books events new [] holds_new
  have hlimits : o.WithinLimits :=
    withinLimits_trace events ⟨fun _ => Nat.zero_le _, Nat.zero_le _⟩
  refine ⟨o.counted, fun order call => ?_, hlimits.queue, hlimits.total, ledger, hrun, hholds⟩
  exact (hholds.reordered order).taken_le call

end Outbox

end Scm.Store
