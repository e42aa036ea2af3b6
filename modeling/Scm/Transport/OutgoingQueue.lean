import Scm.Bytes
import Mathlib.Data.List.Pairwise

/-!
# The queue of outgoing data — `core/src/transport/manager.rs`

`enqueue` pushes and sorts again. The sort is stable, so the queue is at all times what waits in
the order of arrival, sorted by priority: of every priority it has the same list (`Sorts`).
-/

namespace Scm.Transport

open List hiding Vector

structure PendingSend where
  peerId : Vector UInt8 32
  data : Bytes
  priority : UInt8
  deriving DecidableEq, Repr

structure OutgoingQueue where
  items : List PendingSend

namespace OutgoingQueue

/-- `OutgoingQueue::new`. -/
def new : OutgoingQueue := ⟨[]⟩

/-- The order of `Reverse(item.priority)`. -/
def before (a b : PendingSend) : Bool := b.priority ≤ a.priority

/-- `enqueue`. -/
def enqueue (queue : OutgoingQueue) (item : PendingSend) : OutgoingQueue :=
  ⟨(queue.items ++ [item]).mergeSort before⟩

/-- `dequeue`. -/
def dequeue (queue : OutgoingQueue) : Option PendingSend × OutgoingQueue :=
  match queue.items with
  | [] => (none, queue)
  | item :: items => (some item, ⟨items⟩)

inductive Call
  | enqueue (item : PendingSend)
  | dequeue

/-- What the dequeues of a sequence of calls return. -/
def answers : OutgoingQueue → List Call → List (Option PendingSend)
  | _, [] => []
  | queue, .enqueue item :: calls => answers (queue.enqueue item) calls
  | queue, .dequeue :: calls => queue.dequeue.1 :: answers queue.dequeue.2 calls

/-- The queue as it is meant: of what waits, in the order of arrival, each dequeue takes the first
of the highest priority. -/
def Fair : List PendingSend → List Call → List (Option PendingSend) → Prop
  | _, [], out => out = []
  | waiting, .enqueue item :: calls, out => Fair (waiting ++ [item]) calls out
  | _, .dequeue :: _, [] => False
  | waiting, .dequeue :: calls, none :: out => waiting = [] ∧ Fair [] calls out
  | waiting, .dequeue :: calls, some item :: out =>
    ∃ earlier later, waiting = earlier ++ item :: later ∧
      (∀ other ∈ earlier, other.priority < item.priority) ∧
      (∀ other ∈ later, other.priority ≤ item.priority) ∧ Fair (earlier ++ later) calls out

/-- The queue has the priorities in order and in each of them what waits, in the same order. -/
structure Sorts (waiting : List PendingSend) (queue : OutgoingQueue) : Prop where
  sorted : queue.items.Pairwise fun a b => b.priority ≤ a.priority
  same : ∀ p, queue.items.filter (·.priority = p) = waiting.filter (·.priority = p)

variable {waiting : List PendingSend} {queue : OutgoingQueue}

theorem before_trans (a b c : PendingSend) (hab : before a b) (hbc : before b c) : before a c :=
  decide_eq_true (UInt8.le_trans (of_decide_eq_true hbc) (of_decide_eq_true hab))

theorem before_total (a b : PendingSend) : before a b || before b a := by
  simpa [before] using UInt8.le_total b.priority a.priority

/-- Sorting moves nothing past its own priority. -/
theorem filter_mergeSort (items : List PendingSend) (p : UInt8) :
    (items.mergeSort before).filter (·.priority = p) = items.filter (·.priority = p) := by
  have hpairs : (items.filter (·.priority = p)).Pairwise fun a b => before a b := by
    refine pairwise_of_forall_mem_list fun a ha b hb => ?_
    simp only [mem_filter, decide_eq_true_eq] at ha hb
    rw [before, ha.2, hb.2]
    exact decide_eq_true (UInt8.le_refl p)
  have hsub := (sublist_mergeSort before_trans before_total hpairs filter_sublist).filter
    (·.priority = p)
  rw [filter_filter] at hsub
  simp only [Bool.and_self] at hsub
  exact (hsub.eq_of_length ((mergeSort_perm items before).filter _).length_eq.symm).symm

theorem Sorts.enqueue (h : Sorts waiting queue) (item : PendingSend) :
    Sorts (waiting ++ [item]) (queue.enqueue item) := by
  refine ⟨(pairwise_mergeSort before_trans before_total _).imp of_decide_eq_true, fun p => ?_⟩
  show ((queue.items ++ [item]).mergeSort before).filter _ = _
  rw [filter_mergeSort, filter_append, h.same, filter_append]

theorem Sorts.mem_iff (h : Sorts waiting queue) {item : PendingSend} :
    item ∈ queue.items ↔ item ∈ waiting := by
  have hfilter (l : List PendingSend) : item ∈ l.filter (·.priority = item.priority) ↔
    item ∈ l := by
    simp
  rw [← hfilter, h.same, hfilter]

/-- The first of the highest priority is the first of the queue. -/
theorem Sorts.dequeue {item : PendingSend} {items : List PendingSend}
    (h : Sorts waiting ⟨item :: items⟩) :
    ∃ earlier later, waiting = earlier ++ item :: later ∧
      (∀ other ∈ earlier, other.priority < item.priority) ∧
      (∀ other ∈ later, other.priority ≤ item.priority) ∧ Sorts (earlier ++ later) ⟨items⟩ := by
  have hown := (h.same item.priority).symm
  rw [filter_cons_of_pos (by simp)] at hown
  obtain ⟨earlier, later, rfl, hearlier, _, hlater⟩ := filter_eq_cons_iff.mp hown
  have hle : ∀ other ∈ earlier ++ item :: later, other.priority ≤ item.priority := by
    intro other hother
    rcases mem_cons.mp (h.mem_iff.mpr hother) with rfl | hother
    · exact UInt8.le_refl _
    · exact (pairwise_cons.mp h.sorted).1 other hother
  refine ⟨earlier, later, rfl, fun other hother => ?_, fun other hother => ?_,
    (pairwise_cons.mp h.sorted).2, fun p => ?_⟩
  · have hne : other.priority ≠ item.priority := by simpa using hearlier other hother
    exact UInt8.lt_of_le_of_ne (hle other (mem_append_left _ hother)) hne
  · exact hle other (mem_append_right _ (mem_cons_of_mem _ hother))
  · have hsame := h.same p
    rw [filter_append] at hsame ⊢
    by_cases hp : item.priority = p
    · subst hp
      rw [hlater, filter_eq_nil_iff.mpr hearlier, nil_append]
    · rwa [filter_cons_of_neg (by simpa using hp), filter_cons_of_neg (by simpa using hp)]
        at hsame

theorem Sorts.fair (calls : List Call) : ∀ {waiting : List PendingSend} {queue : OutgoingQueue},
    Sorts waiting queue → Fair waiting calls (queue.answers calls) := by
  induction calls with
  | nil => exact fun _ => rfl
  | cons call calls ih =>
    intro waiting queue h
    match call, queue, h with
    | .enqueue item, _, h => exact ih (h.enqueue item)
    | .dequeue, ⟨[]⟩, h =>
      have hnil : waiting = [] := eq_nil_iff_forall_not_mem.mpr fun item hitem =>
        not_mem_nil (h.mem_iff.mpr hitem)
      subst hnil
      exact ⟨rfl, ih h⟩
    | .dequeue, ⟨item :: items⟩, h =>
      obtain ⟨earlier, later, hwaiting, hearlier, hlater, hrest⟩ := h.dequeue
      exact ⟨earlier, later, hwaiting, hearlier, hlater, ih hrest⟩

/-- **Highest priority first, and in the order of arrival**, in every interleaving. -/
theorem answers_fair (calls : List Call) : Fair [] calls (new.answers calls) :=
  Sorts.fair calls ⟨.nil, fun _ => rfl⟩

end OutgoingQueue

end Scm.Transport
