import Mathlib.Data.List.Induction
import Scm.OrderedStore
import Scm.Runs

/-!
# The log summaries — `core/src/store/logs.rs`

A line that is logged again and again is stored once, with the seconds between its occurrences;
the first of these counts from the time of the installation. A summary is changed in a cache, is
written out and forgotten there by a flush, and is loaded again when its line recurs. When it has
more than 1,000 numbers, the first 501 are added up into one.

To a reader, who looks into the cache and then into the backend, a flush changes nothing
(`find_flush`) and a recorded line changes its own summary only (`find_recordLog`). Adding up a
prefix twice adds up a longer one (`absorb_absorb`).

Times are seconds in natural numbers. The hash of a line and the JSON of a summary are parameters.
-/

namespace Scm.Store

open List Bytes Collections OrderedStore Runs

structure LogSummary where
  content : String
  deltas : List UInt32

/-- `serde_json::to_vec` and `from_slice`. -/
structure LogJson where
  toVec : LogSummary → Bytes
  fromSlice : Bytes → Option LogSummary

/-- What was written is read back. -/
def LogJson.RoundTrips (J : LogJson) : Prop :=
  ∀ summary, J.fromSlice (J.toVec summary) = some summary

structure LogManager where
  backend : ByteStore
  installTime : Nat
  cache : AList fun _ : UInt64 => LogSummary

/-- The prefix of the keys. -/
def logPrefix : Bytes := utf8 "log_sum_"

/-- `format!("log_sum_{}", hash)`. -/
def logKey (hash : UInt64) : Bytes := logPrefix ++ utf8 (toString hash.toNat)

/-- The new number of an occurrence, and the first numbers added up where there are too many. -/
def pushDelta (installTime now : Nat) (deltas : List UInt32) : List UInt32 :=
  let deltas :=
    if deltas.isEmpty then [UInt32.ofNat (now - installTime)]
    else
      let lastAbs := deltas.foldl (fun lastAbs d => lastAbs + d.toNat) installTime
      deltas ++ [UInt32.ofNat (now - lastAbs)]
  if 1000 < deltas.length then
    let sumPruned := UInt32.ofNat (min ((deltas.take 501).map UInt32.toNat).sum (2 ^ 32 - 1))
    (deltas.drop 500).set 0 sumPruned
  else deltas

namespace LogManager

section
variable (J : LogJson) (hashOf : String → UInt64)

/-- The summary under a hash: from the cache, or else loaded from the backend. -/
def find (manager : LogManager) (hash : UInt64) : Option LogSummary :=
  (manager.cache.lookup hash).or ((manager.backend.get (logKey hash)).bind J.fromSlice)

/-- `LogManager::record_log`. -/
def recordLog (manager : LogManager) (now : Nat) (line : String) : LogManager :=
  let hash := hashOf line
  let entry := (manager.find J hash).getD ⟨line, []⟩
  let deltas := pushDelta manager.installTime now entry.deltas
  { manager with cache := manager.cache.insert hash ⟨entry.content, deltas⟩ }

/-- `LogManager::flush`, on a backend that does not fail. -/
def flush (manager : LogManager) : LogManager :=
  { manager with
    backend := manager.cache.entries.foldl
      (fun db entry => db.put (logKey entry.1) (J.toVec entry.2)) manager.backend
    cache := ∅ }

end

inductive Call
  | recordLog (now : Nat) (line : String)
  | flush

def step (J : LogJson) (hashOf : String → UInt64) (manager : LogManager) : Call → LogManager
  | .recordLog now line => manager.recordLog J hashOf now line
  | .flush => manager.flush J

/-! ## What a call does to a summary -/

theorem logKey_inj {a b : UInt64} (h : logKey a = logKey b) : a = b :=
  UInt64.toNat_inj.mp (toString_inj (utf8_inj (append_cancel_left h)))

section
variable {J : LogJson} {hashOf : String → UInt64} {manager : LogManager} {hash : UInt64}

/-- A recorded line is added to its own summary. -/
theorem find_recordLog (now : Nat) (line : String) :
    (manager.recordLog J hashOf now line).find J hash =
      if hashOf line = hash then
        let entry := (manager.find J hash).getD ⟨line, []⟩
        some ⟨entry.content, pushDelta manager.installTime now entry.deltas⟩
      else manager.find J hash := by
  unfold recordLog
  by_cases h : hashOf line = hash
  · subst h
    rw [find, AList.lookup_insert, if_pos rfl]
    rfl
  · rw [find, AList.lookup_insert_ne (Ne.symm h), if_neg h, find]

/-- Writing out a list of summaries with different hashes. -/
theorem get_foldl_put : ∀ {entries : List (Sigma fun _ : UInt64 => LogSummary)} {db : ByteStore},
    entries.NodupKeys →
      (entries.foldl (fun db entry => db.put (logKey entry.1) (J.toVec entry.2)) db).get
        (logKey hash) = ((entries.dlookup hash).map J.toVec).or (db.get (logKey hash))
  | [], db, _ => rfl
  | entry :: entries, db, hkeys => by
    obtain ⟨hnew, hrest⟩ := nodupKeys_cons.mp hkeys
    rw [foldl_cons, get_foldl_put hrest]
    by_cases h : hash = entry.1
    · subst h
      rw [dlookup_eq_none.mpr hnew, Store.get_put_self, dlookup_cons_eq]
      rfl
    · have hkey : logKey hash ≠ logKey entry.1 := fun heq => h (logKey_inj heq)
      rw [dlookup_cons_ne _ _ h, Store.get_put_of_ne _ hkey]

/-- A flush moves the summaries to the backend, where they are found as before. -/
theorem find_flush (hJ : J.RoundTrips) :
    (manager.flush J).find J hash = manager.find J hash := by
  have hget : (manager.flush J).backend.get (logKey hash) =
      ((manager.cache.lookup hash).map J.toVec).or (manager.backend.get (logKey hash)) :=
    get_foldl_put manager.cache.nodupKeys
  have hcache : (manager.flush J).cache.lookup hash = none := AList.lookup_empty hash
  unfold find
  rw [hcache, hget]
  cases manager.cache.lookup hash with
  | none => rfl
  | some summary => exact hJ summary

end

/-! ## Gaps and their sums -/

/-- The seconds from one time to the next. -/
def gaps : Nat → List Nat → List Nat
  | _, [] => []
  | last, now :: times => (now - last) :: gaps now times

/-- The numbers with the first ones, up to the one at `k`, added up. -/
def absorb (k : Nat) (numbers : List Nat) : List Nat :=
  (numbers.take (k + 1)).sum :: numbers.drop (k + 1)

theorem length_gaps (times : List Nat) : ∀ start, (gaps start times).length = times.length := by
  induction times with
  | nil => exact fun _ => rfl
  | cons now times ih => exact fun start => congrArg (· + 1) (ih now)

theorem gaps_concat (now : Nat) (times : List Nat) : ∀ start,
    gaps start (times ++ [now]) = gaps start times ++ [now - times.getLastD start] := by
  induction times with
  | nil => exact fun _ => rfl
  | cons first times ih =>
    intro start
    rw [cons_append, gaps, gaps, ih first, getLastD_cons, cons_append]

/-- The gaps add up to the last time. -/
theorem sum_gaps (times : List Nat) : ∀ start, (start :: times).Pairwise (· ≤ ·) →
    start + (gaps start times).sum = times.getLastD start := by
  induction times with
  | nil => exact fun _ _ => rfl
  | cons now times ih =>
    intro start h
    obtain ⟨hstart, hrest⟩ := pairwise_cons.mp h
    have hle : start ≤ now := hstart now mem_cons_self
    have hsum := ih now hrest
    rw [gaps, sum_cons, getLastD_cons, ← hsum]
    omega

section
variable {k : Nat} {numbers : List Nat}

theorem sum_absorb : (absorb k numbers).sum = numbers.sum := by
  rw [absorb, sum_cons, ← sum_append, take_append_drop]

theorem absorb_concat (h : k < numbers.length) (n : Nat) :
    absorb k (numbers ++ [n]) = absorb k numbers ++ [n] := by
  rw [absorb, absorb, take_append_of_le_length h, drop_append_of_le_length h, cons_append]

/-- Adding up a prefix of what is left after adding up a prefix. -/
theorem absorb_absorb (j : Nat) : absorb j (absorb k numbers) = absorb (j + k) numbers := by
  have htake : numbers.take (j + k + 1) =
      numbers.take (k + 1) ++ (numbers.drop (k + 1)).take j := by
    rw [← take_add]
    congr 1
    omega
  have hdrop : (numbers.drop (k + 1)).drop j = numbers.drop (j + k + 1) := by
    rw [drop_drop]
    congr 1
    omega
  rw [absorb, absorb, take_succ_cons, drop_succ_cons, sum_cons, hdrop, absorb, htake, sum_append]

end

/-! ## The numbers of a line -/

/-- Not too many, and the gaps between the times, with some first ones added up. -/
structure Encodes (installTime : Nat) (times : List Nat) (deltas : List UInt32) : Prop where
  length_le : deltas.length ≤ 1000
  eq_absorb : ∃ k < times.length, deltas.map UInt32.toNat = absorb k (gaps installTime times)

section
variable {installTime now : Nat} {times : List Nat} {deltas : List UInt32}

theorem foldl_add_toNat (deltas : List UInt32) : ∀ start : Nat,
    deltas.foldl (fun lastAbs d => lastAbs + d.toNat) start
      = start + (deltas.map UInt32.toNat).sum := by
  induction deltas with
  | nil => exact fun _ => rfl
  | cons d deltas ih =>
    intro start
    rw [foldl_cons, ih, map_cons, sum_cons, Nat.add_assoc]

theorem toNat_ofNat_of_lt {n : Nat} (h : n < 2 ^ 32) : (UInt32.ofNat n).toNat = n := by
  rw [UInt32.toNat_ofNat']
  exact Nat.mod_eq_of_lt h

/-- The last time, from the numbers. -/
theorem Encodes.lastAbs (h : Encodes installTime times deltas)
    (hclock : (installTime :: times).Pairwise (· ≤ ·)) :
    installTime + (deltas.map UInt32.toNat).sum = times.getLastD installTime := by
  obtain ⟨k, -, hk⟩ := h.eq_absorb
  rw [hk, sum_absorb, sum_gaps times installTime hclock]

/-- Adding up the first 501 of too many numbers. -/
theorem map_toNat_pruned (hlength : 1000 < deltas.length)
    (hsum : (deltas.map UInt32.toNat).sum < 2 ^ 32) :
    ((deltas.drop 500).set 0
        (UInt32.ofNat (min ((deltas.take 501).map UInt32.toNat).sum (2 ^ 32 - 1)))).map UInt32.toNat
      = absorb 500 (deltas.map UInt32.toNat) := by
  have hprefix : ((deltas.take 501).map UInt32.toNat).sum ≤ (deltas.map UInt32.toNat).sum := by
    have hall : ((deltas.map UInt32.toNat).take 501).sum + ((deltas.map UInt32.toNat).drop 501).sum
        = (deltas.map UInt32.toNat).sum := sum_absorb
    rw [map_take]
    omega
  have hmin : min ((deltas.take 501).map UInt32.toNat).sum (2 ^ 32 - 1)
      = ((deltas.take 501).map UInt32.toNat).sum := by omega
  have hdrop : deltas.drop 500 = deltas[500] :: deltas.drop 501 := drop_eq_getElem_cons _
  rw [hmin, hdrop, set_cons_zero, map_cons, toNat_ofNat_of_lt (by omega), absorb,
    map_take, map_drop]

/-- A list that holds one number more may be cut. -/
theorem encodes_cut (hlength : deltas.length ≤ 1001)
    (heq : ∃ k < times.length, deltas.map UInt32.toNat = absorb k (gaps installTime times))
    (hsum : (gaps installTime times).sum < 2 ^ 32) :
    Encodes installTime times
      (if 1000 < deltas.length then
        (deltas.drop 500).set 0
          (UInt32.ofNat (min ((deltas.take 501).map UInt32.toNat).sum (2 ^ 32 - 1)))
      else deltas) := by
  obtain ⟨k, hk, heq⟩ := heq
  split
  next hmany =>
    refine ⟨by rw [length_set, length_drop]; omega, 500 + k, ?_, ?_⟩
    · -- more than 500 numbers are left after the first `k`
      have hcount := congrArg List.length heq
      rw [length_map, absorb, length_cons, length_drop, length_gaps] at hcount
      omega
    · rw [map_toNat_pruned hmany (by rw [heq, sum_absorb]; exact hsum), heq, absorb_absorb]
  next hfew => exact ⟨by omega, k, hk, heq⟩

/-- The next occurrence. -/
theorem Encodes.next (hold : times = [] ∧ deltas = [] ∨ Encodes installTime times deltas)
    (hclock : (installTime :: (times ++ [now])).Pairwise (· ≤ ·))
    (hspan : now < installTime + 2 ^ 32) :
    Encodes installTime (times ++ [now]) (pushDelta installTime now deltas) := by
  have hsum := sum_gaps _ _ hclock
  rw [getLastD_concat] at hsum
  rcases hold with ⟨rfl, rfl⟩ | hold
  · have heq : [UInt32.ofNat (now - installTime)].map UInt32.toNat
        = absorb 0 (gaps installTime ([] ++ [now])) := by
      rw [map_singleton, toNat_ofNat_of_lt (by omega)]
      simp [gaps, absorb]
    exact encodes_cut (by simp) ⟨0, by simp, heq⟩ (by omega)
  · have hlast := hold.lastAbs (hclock.sublist (by simp))
    obtain ⟨k, hk, heq⟩ := hold.eq_absorb
    have hne : deltas ≠ [] := by
      rintro rfl
      cases heq
    unfold pushDelta
    simp only [List.isEmpty_iff, if_neg hne, foldl_add_toNat, hlast]
    refine encodes_cut ?_ ⟨k, by rw [length_append]; omega, ?_⟩ (by omega)
    · rw [length_append]
      exact Nat.succ_le_succ hold.length_le
    · have hgap : now - times.getLastD installTime < 2 ^ 32 := by omega
      rw [gaps_concat, absorb_concat (by rw [length_gaps]; exact hk), ← heq, map_append,
        map_singleton, toNat_ofNat_of_lt hgap]

end

/-! ## Whole runs -/

/-- When a line was recorded. -/
def occurrences (line : String) (calls : List Call) : List Nat :=
  calls.filterMap fun
    | .recordLog now recorded => if recorded = line then some now else none
    | .flush => none

/-- The clock in the calls that read it. -/
def times (calls : List Call) : List Nat :=
  calls.filterMap fun
    | .recordLog now _ => some now
    | .flush => none

/-- What is found of a line is what was recorded of it. -/
def Summarizes (installTime : Nat) (line : String) (times : List Nat) : Option LogSummary → Prop
  | none => times = []
  | some summary => summary.content = line ∧ Encodes installTime times summary.deltas

section
variable {J : LogJson} {hashOf : String → UInt64} {installTime now : Nat} {line : String}
  {calls : List Call}

theorem Summarizes.next {times : List Nat} {found : Option LogSummary}
    (h : Summarizes installTime line times found)
    (hclock : (installTime :: (times ++ [now])).Pairwise (· ≤ ·))
    (hspan : now < installTime + 2 ^ 32) :
    let entry := found.getD ⟨line, []⟩
    Summarizes installTime line (times ++ [now])
      (some ⟨entry.content, pushDelta installTime now entry.deltas⟩) := by
  cases found with
  | none => exact ⟨rfl, .next (.inl ⟨h, rfl⟩) hclock hspan⟩
  | some summary => exact ⟨h.1, .next (.inr h.2) hclock hspan⟩

theorem occurrences_sublist (line : String) (calls : List Call) :
    (occurrences line calls).Sublist (times calls) := by
  induction calls with
  | nil => exact .slnil
  | cons call calls ih =>
    cases call with
    | flush => exact ih
    | recordLog now recorded =>
      by_cases h : recorded = line
      · simpa [occurrences, times, h] using ih.cons_cons now
      · simpa [occurrences, times, h] using ih.cons now

theorem installTime_step (manager : LogManager) (call : Call) :
    (manager.step J hashOf call).installTime = manager.installTime := by
  cases call <;> rfl

theorem summarizes_run (hJ : J.RoundTrips) {db : ByteStore}
    (hfresh : ∀ hash, db.get (logKey hash) = none)
    (hclock : (installTime :: times calls).Pairwise (· ≤ ·))
    (hspan : ∀ now ∈ times calls, now < installTime + 2 ^ 32)
    (hhash : ∀ now other, .recordLog now other ∈ calls → hashOf other = hashOf line →
      other = line) :
    let manager := run (step J hashOf) ⟨db, installTime, ∅⟩ calls
    manager.installTime = installTime ∧
      Summarizes installTime line (occurrences line calls) (manager.find J (hashOf line)) := by
  induction calls using List.reverseRecOn with
  | nil =>
    refine ⟨rfl, ?_⟩
    show Summarizes installTime line [] (Option.or none ((db.get _).bind J.fromSlice))
    rw [hfresh]
    rfl
  | append_singleton calls call ih =>
    have htimes : times (calls ++ [call]) = times calls ++ times [call] := filterMap_append
    have hoccurs : occurrences line (calls ++ [call]) = occurrences line calls
      ++ occurrences line [call] := filterMap_append
    have hsorted := hclock.sublist ((occurrences_sublist line _).cons_cons installTime)
    rw [htimes] at hclock hspan
    obtain ⟨hinstall, hfound⟩ := ih
      (hclock.sublist ((sublist_append_left _ _).cons_cons installTime))
      (fun now h => hspan now (mem_append_left _ h))
      (fun now other h => hhash now other (mem_append_left _ h))
    rw [run_append, run_cons, run_nil]
    generalize run (step J hashOf) ⟨db, installTime, ∅⟩ calls = manager at hinstall hfound ⊢
    refine ⟨(installTime_step manager call).trans hinstall, ?_⟩
    rw [hoccurs] at hsorted ⊢
    cases call with
    | flush =>
      rw [step, find_flush hJ]
      simpa [occurrences] using hfound
    | recordLog now other =>
      rw [step, find_recordLog, hinstall]
      by_cases hsame : hashOf other = hashOf line
      · obtain rfl := hhash now other (by simp) hsame
        have hlast : occurrences other [.recordLog now other] = [now] := by simp [occurrences]
        rw [hlast] at hsorted ⊢
        rw [if_pos rfl]
        exact hfound.next hsorted (hspan now (by simp [times]))
      · -- another line, with another hash
        have hnone : occurrences line [.recordLog now other] = [] := by
          have hne : other ≠ line := fun h => hsame (congrArg hashOf h)
          simp [occurrences, hne]
        rw [hnone, append_nil, if_neg hsame]
        exact hfound

end

/-- **What is stored of a line.** For every line that was recorded: the numbers of its summary, on
top of the install time, give its last occurrence; they are its gaps with some first ones added up;
and they are at most 1,000. -/
theorem summary_of_run (J : LogJson) (hJ : J.RoundTrips) (hashOf : String → UInt64) (db : ByteStore)
    (installTime : Nat) (calls : List Call) (line : String)
    (hfresh : ∀ hash, db.get (logKey hash) = none)
    (hclock : (installTime :: times calls).Pairwise (· ≤ ·))
    (hspan : ∀ now ∈ times calls, now < installTime + 2 ^ 32)
    (hhash : ∀ now other, .recordLog now other ∈ calls → hashOf other = hashOf line →
      other = line) :
    ∀ last ∈ (occurrences line calls).getLast?, ∃ summary,
      (run (step J hashOf) ⟨db, installTime, ∅⟩ calls).find J (hashOf line) = some summary ∧
      summary.content = line ∧
      installTime + (summary.deltas.map UInt32.toNat).sum = last ∧
      (∃ k, summary.deltas.map UInt32.toNat
        = absorb k (gaps installTime (occurrences line calls))) ∧
      summary.deltas.length ≤ 1000 := by
  intro last hlast
  have hsorted := hclock.sublist ((occurrences_sublist line calls).cons_cons installTime)
  obtain ⟨-, hfound⟩ := summarizes_run hJ hfresh hclock hspan hhash
  cases hfind : (run (step J hashOf) ⟨db, installTime, ∅⟩ calls).find J (hashOf line) with
  | none =>
    rw [hfind] at hfound
    rw [show occurrences line calls = [] from hfound] at hlast
    cases hlast
  | some summary =>
    rw [hfind] at hfound
    obtain ⟨hcontent, hencodes⟩ := hfound
    obtain ⟨k, -, hk⟩ := hencodes.eq_absorb
    refine ⟨summary, rfl, hcontent, ?_, ⟨k, hk⟩, hencodes.length_le⟩
    rw [hencodes.lastAbs hsorted, List.getLastD_eq_getLast?, hlast]
    rfl

/-- Each number after a one, and the line after a zero. -/
def plainWrite (content : String) : List UInt32 → Bytes
  | [] => 0 :: utf8 content
  | d :: deltas => 1 :: leBytes 4 d.toNat ++ plainWrite content deltas

def plainRead : Bytes → Option LogSummary
  | 0 :: content => (String.fromUTF8? ⟨content.toArray⟩).map (⟨·, []⟩)
  | 1 :: a :: b :: c :: d :: rest => (plainRead rest).map fun summary =>
    { summary with deltas := UInt32.ofNat (ofLe [a, b, c, d]) :: summary.deltas }
  | _ => none

/-- Stands in for JSON. -/
def plainJson : LogJson := ⟨fun summary => plainWrite summary.content summary.deltas, plainRead⟩

theorem plainJson_roundTrips : plainJson.RoundTrips := by
  rintro ⟨content, deltas⟩
  induction deltas with
  | nil =>
    have hutf8 : String.fromUTF8? ⟨(utf8 content).toArray⟩ = some content :=
      dif_pos content.isValidUTF8
    exact congrArg (Option.map _) hutf8
  | cons d deltas ih =>
    refine (congrArg (Option.map _) ih).trans ?_
    have hd : UInt32.ofNat (ofLe (leBytes 4 d.toNat)) = d := by
      rw [ofLe_leBytes_of_lt d.toNat_lt, UInt32.ofNat_toNat]
    exact congrArg (fun d => some (LogSummary.mk content (d :: deltas))) hd

/-- Two lines, and a flush between two occurrences of the first. -/
theorem summary_of_run_up : ∃ summary,
    (run (step plainJson fun line => UInt64.ofNat line.length) ⟨.empty, 100, ∅⟩
      [.recordLog 105 "up", .flush, .recordLog 107 "down", .recordLog 112 "up"]).find plainJson 2
        = some summary ∧
      summary.content = "up" ∧ 100 + (summary.deltas.map UInt32.toNat).sum = 112 ∧
      (∃ k, summary.deltas.map UInt32.toNat = absorb k [5, 7]) ∧ summary.deltas.length ≤ 1000 := by
  refine summary_of_run _ plainJson_roundTrips _ .empty 100 _ "up" (fun _ => rfl) (by decide)
    (by decide) (fun now other hcall hsame => ?_) 112 rfl
  by_contra hother
  have hdown : other = "down" := by simp_all
  subst hdown
  exact absurd hsame (by decide)

end LogManager

end Scm.Store
