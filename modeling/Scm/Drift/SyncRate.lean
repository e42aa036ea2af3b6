import Mathlib.Data.List.Induction
import Scm.Collections
import Scm.Runs
import Scm.SlidingWindow

/-!
# The sync rate limiter — `core/src/drift/rate_limit.rs`

Per peer the limiter keeps the times of the requests it allowed, as far as they are inside the
window, and allows one more while there are fewer than `max_per_window`. `allow_sync` forgets the
older times of its own peer; `cleanup_expired` does so for everyone and drops the peers that are
left with none.

What this is meant to compute needs no forgetting: `answersTo` looks through the whole log of
answers, and the limiter gives the answers of the log (`Tracks`, `log_eq_answersTo`), whether and
whenever it is cleaned up.

Instants are nanoseconds of a monotonic clock.
-/

namespace Scm.Drift

open List Collections Runs SlidingWindow

structure SyncRateLimiter where
  limits : AList fun _ : String => List Nat
  window : Nat
  maxPerWindow : Nat

namespace SyncRateLimiter

def new (window maxPerWindow : Nat) : SyncRateLimiter := ⟨∅, window, maxPerWindow⟩

/-- The entry of a peer, or the one that `or_default` makes. -/
def timestamps (limiter : SyncRateLimiter) (peerId : String) : List Nat :=
  (limiter.limits.lookup peerId).getD []

/-- `allow_sync` at `now`. -/
def allowSync (limiter : SyncRateLimiter) (now : Nat) (peerId : String) : Bool × SyncRateLimiter :=
  let timestamps := recent limiter.window now (limiter.timestamps peerId)
  if timestamps.length ≥ limiter.maxPerWindow then
    (false, { limiter with limits := limiter.limits.insert peerId timestamps })
  else
    (true, { limiter with limits := limiter.limits.insert peerId (timestamps ++ [now]) })

/-- `cleanup_expired` at `now`. -/
def cleanupExpired (limiter : SyncRateLimiter) (now : Nat) : SyncRateLimiter :=
  { limiter with
    limits := retain (mapValues limiter.limits (recent limiter.window now)) fun _ timestamps =>
      !timestamps.isEmpty }

variable (limiter : SyncRateLimiter)

section
variable (now : Nat) (peerId : String)

theorem allowSync_fst :
    (limiter.allowSync now peerId).1
      = decide ((recent limiter.window now (limiter.timestamps peerId)).length
        < limiter.maxPerWindow) := by
  unfold allowSync
  dsimp only
  split
  next hfull => exact (decide_eq_false (by omega)).symm
  next hroom => exact (decide_eq_true (by omega)).symm

/-- The peer's own entry loses what is old, and gains the time if the call is allowed. -/
theorem timestamps_allowSync_self :
    (limiter.allowSync now peerId).2.timestamps peerId
      = recent limiter.window now (limiter.timestamps peerId)
        ++ (if (limiter.allowSync now peerId).1 then [now] else []) := by
  unfold allowSync
  dsimp only
  split
  next => simp_all [timestamps]
  next => rw [timestamps, AList.lookup_insert, Option.getD_some, if_pos rfl]

theorem timestamps_allowSync_of_ne {p peerId : String} (h : p ≠ peerId) (now : Nat) :
    (limiter.allowSync now peerId).2.timestamps p = limiter.timestamps p := by
  unfold allowSync
  dsimp only
  split <;> rw [timestamps, AList.lookup_insert_ne h, timestamps]

theorem allowSync_config :
    (limiter.allowSync now peerId).2.window = limiter.window ∧
      (limiter.allowSync now peerId).2.maxPerWindow = limiter.maxPerWindow := by
  unfold allowSync
  dsimp only
  split <;> exact ⟨rfl, rfl⟩

/-- A peer that is dropped had nothing left. -/
theorem timestamps_cleanupExpired (p : String) :
    (limiter.cleanupExpired now).timestamps p
      = recent limiter.window now (limiter.timestamps p) :=
  getD_lookup_retain_mapValues limiter.limits filter_nil p

end

end SyncRateLimiter

/-! ## Calls and their answers -/

inductive SyncCall where
  | allowSync (peerId : String) (now : Nat)
  | cleanupExpired (now : Nat)
  deriving DecidableEq, Repr

/-- The reading of the clock in a call. -/
def SyncCall.time : SyncCall → Nat
  | .allowSync _ now => now
  | .cleanupExpired now => now

/-- The peer and the time of an `allow_sync`. -/
def SyncCall.request : SyncCall → Option (String × Nat)
  | .allowSync peerId now => some (peerId, now)
  | .cleanupExpired _ => none

structure SyncAnswer where
  peerId : String
  now : Nat
  allowed : Bool
  deriving DecidableEq, Repr

/-- A limiter with the answers it has given. -/
structure ServedSyncs where
  limiter : SyncRateLimiter
  log : List SyncAnswer

namespace ServedSyncs

def new (window maxPerWindow : Nat) : ServedSyncs := ⟨.new window maxPerWindow, []⟩

def step (served : ServedSyncs) : SyncCall → ServedSyncs
  | .allowSync peerId now =>
    let (allowed, limiter) := served.limiter.allowSync now peerId
    ⟨limiter, served.log ++ [⟨peerId, now, allowed⟩]⟩
  | .cleanupExpired now => { served with limiter := served.limiter.cleanupExpired now }

end ServedSyncs

/-- When a peer's requests were allowed. -/
def allowedTimes (log : List SyncAnswer) (peerId : String) : List Nat :=
  (log.filter fun answer => answer.allowed && decide (answer.peerId = peerId)).map SyncAnswer.now

/-! ## A limiter that forgets nothing -/

/-- The next answer: allowed if there were fewer than `limit` in the window. -/
def answerTo (width limit : Nat) (log : List SyncAnswer) (request : String × Nat) : SyncAnswer :=
  ⟨request.1, request.2,
    decide ((recent width request.2 (allowedTimes log request.1)).length < limit)⟩

/-- The answers to requests that follow those of a log. -/
def answersFrom (width limit : Nat) (log : List SyncAnswer) (requests : List (String × Nat)) :
    List SyncAnswer :=
  requests.foldl (fun log request => log ++ [answerTo width limit log request]) log

def answersTo (width limit : Nat) (requests : List (String × Nat)) : List SyncAnswer :=
  answersFrom width limit [] requests

section Spec

variable {width limit : Nat} {log : List SyncAnswer} {requests : List (String × Nat)}

section
variable (requests : List (String × Nat))

theorem answersTo_concat (request : String × Nat) :
    answersTo width limit (requests ++ [request])
      = answersTo width limit requests
        ++ [answerTo width limit (answersTo width limit requests) request] := by
  rw [answersTo, answersFrom, foldl_append, foldl_cons]
  rfl

theorem allowedTimes_concat (log : List SyncAnswer) (answer : SyncAnswer) (p : String) :
    allowedTimes (log ++ [answer]) p
      = allowedTimes log p
        ++ (if answer.allowed && decide (answer.peerId = p) then [answer.now] else []) := by
  rw [allowedTimes, filter_append, map_append, filter_singleton]
  cases answer.allowed && decide (answer.peerId = p) <;> rfl

/-- The allowed times of each peer were let through by the window. -/
theorem admitted_answersTo (p : String) :
    Admitted width limit (allowedTimes (answersTo width limit requests) p) := by
  induction requests using List.reverseRecOn with
  | nil => exact .nil
  | append_singleton requests request ih =>
    rw [answersTo_concat, allowedTimes_concat]
    split
    next hallowed =>
      obtain ⟨hroom, hpeer⟩ := Bool.and_eq_true_iff.mp hallowed
      have hpeer : request.1 = p := of_decide_eq_true hpeer
      rw [← hpeer] at ih ⊢
      exact ih.concat (of_decide_eq_true hroom)
    rw [append_nil]
    exact ih

/-- Each answer is the one that the answers before it give. -/
theorem eq_answerTo_of_split :
    ∀ {before : List SyncAnswer} {answer : SyncAnswer} {after : List SyncAnswer},
      answersTo width limit requests = before ++ answer :: after →
      ∃ earlier later, requests = earlier ++ (answer.peerId, answer.now) :: later ∧
        before = answersTo width limit earlier ∧
        answer = answerTo width limit before (answer.peerId, answer.now) := by
  induction requests using List.reverseRecOn with
  | nil =>
    intro before answer after h
    cases before <;> cases h
  | append_singleton requests request ih =>
    intro before answer after h
    rw [answersTo_concat] at h
    rcases eq_nil_or_concat after with rfl | ⟨front, last, rfl⟩
    · obtain ⟨hbefore, hanswer⟩ := List.append_inj' h rfl
      obtain rfl := (List.cons.inj hanswer).1
      refine ⟨requests, [], rfl, hbefore.symm, ?_⟩
      rw [← hbefore]
      rfl
    · rw [concat_eq_append, ← cons_append, ← append_assoc] at h
      obtain ⟨earlier, later, hrequests, hrest⟩ := ih (List.append_inj' h rfl).1
      refine ⟨earlier, later ++ [request], ?_, hrest⟩
      rw [hrequests, append_assoc, cons_append]

end

theorem mem_of_mem_allowedTimes {p : String} {t : Nat} (requests : List (String × Nat))
    (h : t ∈ allowedTimes (answersTo width limit requests) p) : (p, t) ∈ requests := by
  induction requests using List.reverseRecOn with
  | nil => cases h
  | append_singleton requests request ih =>
    rw [answersTo_concat, allowedTimes_concat] at h
    rcases mem_append.mp h with hbefore | hlast
    · exact mem_append_left _ (ih hbefore)
    · refine mem_append_right _ (mem_singleton.mpr ?_)
      split at hlast
      next hallowed =>
        have hpeer : request.1 = p := of_decide_eq_true (Bool.and_eq_true_iff.mp hallowed).2
        rw [mem_singleton.mp hlast, ← hpeer]
        rfl
      next => cases hlast

/-- A request is denied only if the window before it is full. -/
theorem length_recent_of_denied (hclock : (requests.map Prod.snd).Pairwise (· ≤ ·))
    {before : List SyncAnswer} {answer : SyncAnswer} {after : List SyncAnswer}
    (hsplit : answersTo width limit requests = before ++ answer :: after)
    (hdenied : answer.allowed = false) :
    (recent width answer.now (allowedTimes before answer.peerId)).length = limit := by
  obtain ⟨earlier, later, rfl, rfl, hanswer⟩ := eq_answerTo_of_split requests hsplit
  rw [hanswer] at hdenied
  have hfull : ¬ (recent width answer.now
      (allowedTimes (answersTo width limit earlier) answer.peerId)).length < limit :=
    of_decide_eq_false hdenied
  refine Nat.le_antisymm ?_ (Nat.le_of_not_lt hfull)
  refine (admitted_answersTo earlier answer.peerId).length_recent_le fun t ht => ?_
  rw [map_append, pairwise_append] at hclock
  exact hclock.2.2 t (mem_map_of_mem (mem_of_mem_allowedTimes earlier ht)) answer.now
    mem_cons_self

end Spec

/-! ## The limiter gives these answers -/

namespace ServedSyncs

variable {window maxPerWindow clock : Nat} {served : ServedSyncs}

/-- From `clock` on the limiter and its log have the same recent times. -/
structure Tracks (window maxPerWindow clock : Nat) (served : ServedSyncs) : Prop where
  window_eq : served.limiter.window = window
  max_eq : served.limiter.maxPerWindow = maxPerWindow
  same : ∀ (p : String) (later : Nat), clock ≤ later →
    recent window later (served.limiter.timestamps p)
      = recent window later (allowedTimes served.log p)

theorem tracks_new (window maxPerWindow clock : Nat) :
    Tracks window maxPerWindow clock (new window maxPerWindow) :=
  ⟨rfl, rfl, fun _ _ _ => rfl⟩

section
variable (h : Tracks window maxPerWindow clock served)
include h

section
variable {now : Nat} (hnow : clock ≤ now) (peerId : String)
include hnow

/-- One request gets the answer of the log. -/
theorem Tracks.log_allowSync :
    (served.step (.allowSync peerId now)).log
      = served.log ++ [answerTo window maxPerWindow served.log (peerId, now)] := by
  have hanswer : (served.limiter.allowSync now peerId).1
      = (answerTo window maxPerWindow served.log (peerId, now)).allowed := by
    rw [SyncRateLimiter.allowSync_fst, h.window_eq, h.max_eq, h.same peerId now hnow]
    rfl
  show served.log ++ [⟨peerId, now, (served.limiter.allowSync now peerId).1⟩] = _
  rw [hanswer]
  rfl

theorem Tracks.allowSync :
    Tracks window maxPerWindow now (served.step (.allowSync peerId now)) := by
  obtain ⟨hwindow, hmax⟩ := served.limiter.allowSync_config now peerId
  refine ⟨hwindow.trans h.window_eq, hmax.trans h.max_eq, fun p later hlater => ?_⟩
  show recent window later ((served.limiter.allowSync now peerId).2.timestamps p)
    = recent window later (allowedTimes
      (served.log ++ [⟨peerId, now, (served.limiter.allowSync now peerId).1⟩]) p)
  rw [allowedTimes_concat, recent_append]
  by_cases hp : p = peerId
  · subst hp
    rw [SyncRateLimiter.timestamps_allowSync_self, recent_append, h.window_eq, recent_recent hlater,
      h.same p later (Nat.le_trans hnow hlater), decide_eq_true rfl, Bool.and_true]
  · rw [SyncRateLimiter.timestamps_allowSync_of_ne _ hp,
      h.same p later (Nat.le_trans hnow hlater), decide_eq_false (Ne.symm hp), Bool.and_false]
    exact (append_nil _).symm

theorem Tracks.cleanupExpired :
    Tracks window maxPerWindow now (served.step (.cleanupExpired now)) := by
  refine ⟨h.window_eq, h.max_eq, fun p later hlater => ?_⟩
  show recent window later ((served.limiter.cleanupExpired now).timestamps p)
    = recent window later (allowedTimes served.log p)
  rw [SyncRateLimiter.timestamps_cleanupExpired, h.window_eq, recent_recent hlater,
    h.same p later (Nat.le_trans hnow hlater)]

end

end

/-- A run answers its requests as the log does. -/
theorem Tracks.log_run (calls : List SyncCall) :
    ∀ {clock : Nat} {served : ServedSyncs}, Tracks window maxPerWindow clock served →
      (∀ call ∈ calls, clock ≤ call.time) → (calls.map SyncCall.time).Pairwise (· ≤ ·) →
      (run step served calls).log
        = answersFrom window maxPerWindow served.log (calls.filterMap SyncCall.request) := by
  induction calls with
  | nil => exact fun _ _ _ => rfl
  | cons call calls ih =>
    intro clock served h hlater hclock
    obtain ⟨hnow, _⟩ := forall_mem_cons.mp hlater
    rw [map_cons, pairwise_cons] at hclock
    have hnext : ∀ later ∈ calls, call.time ≤ later.time := fun later hmem =>
      hclock.1 _ (mem_map_of_mem hmem)
    rw [run_cons]
    cases call with
    | allowSync peerId now =>
      have hnow : clock ≤ now := hnow
      rw [ih (h.allowSync hnow peerId) hnext hclock.2, h.log_allowSync hnow peerId]
      rfl
    | cleanupExpired now =>
      have hnow : clock ≤ now := hnow
      rw [ih (h.cleanupExpired hnow) hnext hclock.2]
      rfl

section
variable {calls : List SyncCall} (hclock : (calls.map SyncCall.time).Pairwise (· ≤ ·))
include hclock

theorem log_eq_answersTo :
    (run step (new window maxPerWindow) calls).log
      = answersTo window maxPerWindow (calls.filterMap SyncCall.request) :=
  Tracks.log_run calls (tracks_new window maxPerWindow 0) (fun _ _ => Nat.zero_le _) hclock

theorem pairwise_requests : ((calls.filterMap SyncCall.request).map Prod.snd).Pairwise (· ≤ ·) := by
  rw [pairwise_map] at hclock ⊢
  refine hclock.filterMap SyncCall.request fun call call' hle request hfirst request' hsecond => ?_
  cases call with
  | cleanupExpired now => cases hfirst
  | allowSync peerId now =>
    cases call' with
    | cleanupExpired now' => cases hsecond
    | allowSync peerId' now' =>
      cases hfirst
      cases hsecond
      exact hle

end

/-- **The limiter over whole runs.** A peer has at most `max_per_window` allowed requests in every
interval of the length of the window; a request is denied only if that many were allowed in the
window before it; and two runs with the same requests give the same answers, whatever clean-ups
they have. -/
theorem allowSync_runs (window maxPerWindow : Nat) (calls : List SyncCall)
    (hclock : (calls.map SyncCall.time).Pairwise (· ≤ ·)) :
    let log := (run step (new window maxPerWindow) calls).log
    (∀ (peerId : String) (a : Nat),
      (allowedTimes log peerId).countP (fun t => decide (a ≤ t ∧ t < a + window)) ≤ maxPerWindow) ∧
    (∀ (before : List SyncAnswer) (answer : SyncAnswer) (after : List SyncAnswer),
      log = before ++ answer :: after → answer.allowed = false →
      (recent window answer.now (allowedTimes before answer.peerId)).length = maxPerWindow) ∧
    ∀ others : List SyncCall, (others.map SyncCall.time).Pairwise (· ≤ ·) →
      others.filterMap SyncCall.request = calls.filterMap SyncCall.request →
      (run step (new window maxPerWindow) others).log = log := by
  intro log
  have hlog : log = answersTo window maxPerWindow (calls.filterMap SyncCall.request) :=
    log_eq_answersTo hclock
  refine ⟨fun peerId a => ?_, fun before answer after hsplit hdenied => ?_,
    fun others hothers hsame => ?_⟩
  · rw [hlog]
    exact (admitted_answersTo _ peerId).countP_le a
  · exact length_recent_of_denied (pairwise_requests hclock) (hlog.symm.trans hsplit) hdenied
  · rw [log_eq_answersTo hothers, hsame, hlog]

/-- One request in ten nanoseconds: the second is denied, the third comes after a clean-up. -/
theorem allowSync_runs_clean :
    let calls : List SyncCall :=
      [.allowSync "peer" 0, .allowSync "peer" 5, .cleanupExpired 7, .allowSync "peer" 12]
    (run step (new 10 1) calls).log = [⟨"peer", 0, true⟩, ⟨"peer", 5, false⟩, ⟨"peer", 12, true⟩] ∧
      (recent 10 5 (allowedTimes [⟨"peer", 0, true⟩] "peer")).length = 1 := by
  intro calls
  have hlog : (run step (new 10 1) calls).log
      = [⟨"peer", 0, true⟩, ⟨"peer", 5, false⟩, ⟨"peer", 12, true⟩] := by
    decide
  exact ⟨hlog, (allowSync_runs 10 1 calls (by decide)).2.1 [⟨"peer", 0, true⟩] ⟨"peer", 5, false⟩
    [⟨"peer", 12, true⟩] hlog rfl⟩

end ServedSyncs

end Scm.Drift
