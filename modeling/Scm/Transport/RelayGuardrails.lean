import Scm.Collections
import Scm.TokenBucket

/-!
# The relay guardrails — `core/src/transport/swarm.rs`, `RelayAbuseGuardrails`

A node that relays for others gives each peer a bucket of tokens. A request costs one; they come
back with time, up to a burst capacity, and both the capacity and the rate are scaled by a
multiplier that goes with the peer's reputation. Buckets that were not used for five minutes are
dropped, and a peer that comes back is given a full one.

A dropped bucket would have been full: five minutes bring back more than the capacity. So the
level of a peer is the same with and without its bucket (`guardrails_budget`).

Numbers are exact. Times are milliseconds; `saturating_sub` is the subtraction of natural numbers.
Left out: the window of recent duplicates and the checks of a request's size, which no token
depends on.
-/

namespace Scm.Transport

open Collections Runs TokenBucket

/-- `TokenBucketState`; `last` is `last_refill_ms`. -/
abbrev TokenBucketState := Bucket ℚ

/-- `RELAY_PEER_BUCKET_BURST_CAPACITY`. -/
def burstCapacity : ℚ := 20

/-- `RELAY_PEER_BUCKET_REFILL_PER_SEC`. -/
def refillPerSec : ℚ := 4

/-- `RELAY_PEER_BUCKET_MAX_TRACKED`. -/
def maxTrackedBuckets : Nat := 2048

/-- How long a bucket is kept that is not used. -/
def bucketIdleMs : Nat := 300000

structure RelayAbuseGuardrails where
  perPeerBuckets : AList fun _ : String => TokenBucketState

namespace RelayAbuseGuardrails

def new : RelayAbuseGuardrails := ⟨∅⟩

/-- `prune_oldest_peer_bucket`. -/
def pruneOldestPeerBucket (guardrails : RelayAbuseGuardrails) : RelayAbuseGuardrails :=
  match minBy (fun a b => compare a.2.last b.2.last) guardrails.perPeerBuckets.entries with
  | some oldest => ⟨guardrails.perPeerBuckets.erase oldest.1⟩
  | none => guardrails

/-- `prune_peer_buckets`. -/
def prunePeerBuckets (guardrails : RelayAbuseGuardrails) (nowMs : Nat) : RelayAbuseGuardrails :=
  let kept : RelayAbuseGuardrails := ⟨retain guardrails.perPeerBuckets fun _ bucket =>
    decide (nowMs - bucket.last ≤ bucketIdleMs)⟩
  if len kept.perPeerBuckets > maxTrackedBuckets then kept.pruneOldestPeerBucket else kept

/-- The refill of `consume_peer_token`. -/
def refillBucket (bucket : TokenBucketState) (nowMs : Nat) (multiplier : ℚ) : TokenBucketState :=
  let elapsedMs := nowMs - bucket.last
  if elapsedMs > 0 then
    let refill := ((elapsedMs : ℚ) / 1000) * refillPerSec * multiplier
    ⟨min (bucket.tokens + refill) (burstCapacity * multiplier), nowMs⟩
  else bucket

/-- `consume_peer_token`. -/
def consumePeerToken (guardrails : RelayAbuseGuardrails) (peerId : String) (nowMs : Nat)
    (multiplier : ℚ) : Bool × RelayAbuseGuardrails :=
  let pruned := guardrails.prunePeerBuckets nowMs
  let bucket := refillBucket
    ((pruned.perPeerBuckets.lookup peerId).getD ⟨burstCapacity * multiplier, nowMs⟩)
    nowMs multiplier
  if bucket.tokens < 1 then (false, ⟨pruned.perPeerBuckets.insert peerId bucket⟩)
  else
    (true, ⟨pruned.perPeerBuckets.insert peerId { bucket with tokens := bucket.tokens - 1 }⟩)

end RelayAbuseGuardrails

/-- A call of `consume_peer_token`. -/
structure TokenCall where
  peerId : String
  nowMs : Nat
  multiplier : ℚ
  deriving DecidableEq, Repr

namespace RelayAbuseGuardrails

def step (guardrails : RelayAbuseGuardrails) (call : TokenCall) : RelayAbuseGuardrails :=
  (guardrails.consumePeerToken call.peerId call.nowMs call.multiplier).2

/-- The call is of the peer, and it succeeds. -/
def serves (peerId : String) (guardrails : RelayAbuseGuardrails) (call : TokenCall) : Bool :=
  decide (call.peerId = peerId)
    && (guardrails.consumePeerToken call.peerId call.nowMs call.multiplier).1

/-- No more buckets than may be tracked, and the peer's multiplier is `m`. -/
def Tracked (peerId : String) (m : ℚ) (guardrails : RelayAbuseGuardrails) (call : TokenCall) :
    Prop :=
  len guardrails.perPeerBuckets ≤ maxTrackedBuckets ∧ (call.peerId = peerId → call.multiplier = m)

/-! ## What a call finds -/

/-- The capacity of a bucket. -/
def capacity (m : ℚ) : ℚ := burstCapacity * m

/-- The tokens that come back in a millisecond. -/
def rate (m : ℚ) : ℚ := refillPerSec * m / 1000

/-- What the peer's next call finds. -/
def levelOf (peerId : String) (m : ℚ) (guardrails : RelayAbuseGuardrails) (now : Nat) : ℚ :=
  level (capacity m) (rate m) (guardrails.perPeerBuckets.lookup peerId) now

/-- The peer's bucket, if there is one, is in order. -/
def InOrder (peerId : String) (m : ℚ) (now : Nat) (guardrails : RelayAbuseGuardrails) : Prop :=
  ∀ bucket, guardrails.perPeerBuckets.lookup peerId = some bucket → Filled (capacity m) now bucket

variable {guardrails : RelayAbuseGuardrails} {p : String} {m : ℚ} {t now : Nat}

theorem lookup_prune (hlen : len guardrails.perPeerBuckets ≤ maxTrackedBuckets) (now : Nat)
    (p : String) :
    (guardrails.prunePeerBuckets now).perPeerBuckets.lookup p
      = (guardrails.perPeerBuckets.lookup p).filter fun bucket =>
        decide (now - bucket.last ≤ bucketIdleMs) := by
  have hkept := Nat.le_trans (len_retain_le guardrails.perPeerBuckets fun _ bucket =>
    decide (now - bucket.last ≤ bucketIdleMs)) hlen
  unfold prunePeerBuckets
  dsimp only
  rw [if_neg (Nat.not_lt.mpr hkept)]
  refine Option.ext fun bucket => ?_
  rw [lookup_retain, Option.filter_eq_some_iff]

/-- **Dropping idle buckets changes no level.** -/
theorem level_prune (h : InOrder p m t guardrails) (hm : 0 ≤ m)
    (hlen : len guardrails.perPeerBuckets ≤ maxTrackedBuckets) (now : Nat) :
    level (capacity m) (rate m) ((guardrails.prunePeerBuckets now).perPeerBuckets.lookup p) now
      = levelOf p m guardrails now := by
  rw [lookup_prune hlen, levelOf]
  cases hlookup : guardrails.perPeerBuckets.lookup p with
  | none => rfl
  | some bucket =>
    rw [Option.filter_some]
    split
    next => rfl
    next hidle =>
      have hrate : 0 ≤ rate m := by unfold rate refillPerSec; positivity
      have hgrace : capacity m ≤ (bucketIdleMs : ℚ) * rate m := by
        unfold capacity rate burstCapacity refillPerSec bucketIdleMs
        push_cast
        linarith
      rw [decide_eq_true_iff, Nat.not_le] at hidle
      exact ((h bucket hlookup).level_of_idle hrate hgrace (Nat.le_of_lt hidle)).symm

/-- A refill writes the level down. -/
theorem refillBucket_eq {bucket : TokenBucketState} (hle : bucket.tokens ≤ capacity m)
    (hpast : bucket.last ≤ now) :
    refillBucket bucket now m = ⟨level (capacity m) (rate m) (some bucket) now, now⟩ := by
  unfold refillBucket
  dsimp only
  split
  next =>
    have hgain : ((now - bucket.last : Nat) : ℚ) / 1000 * refillPerSec * m
        = ((now - bucket.last : Nat) : ℚ) * rate m := by
      unfold rate
      ring
    rw [hgain]
    rfl
  next helapsed =>
    have hlast : bucket.last = now := by omega
    rw [level_of_last hle hlast, ← hlast]

theorem refillBucket_getD {found : Option TokenBucketState}
    (h : ∀ bucket, found = some bucket → Filled (capacity m) t bucket) (hnow : t ≤ now) :
    refillBucket (found.getD ⟨burstCapacity * m, now⟩) now m
      = ⟨level (capacity m) (rate m) found now, now⟩ := by
  cases found with
  | none =>
    have hfull : level (capacity m) (rate m) (some ⟨capacity m, now⟩) now = capacity m :=
      level_of_last (le_refl _) rfl
    refine (refillBucket_eq (le_refl (capacity m)) (Nat.le_refl now)).trans ?_
    exact congrArg (Bucket.mk · now) hfull
  | some bucket =>
    have hfilled := h bucket rfl
    exact refillBucket_eq hfilled.le_capacity (Nat.le_trans hfilled.past hnow)

theorem InOrder.prune (h : InOrder p m t guardrails)
    (hlen : len guardrails.perPeerBuckets ≤ maxTrackedBuckets) (now : Nat) :
    InOrder p m t (guardrails.prunePeerBuckets now) := by
  intro bucket hbucket
  rw [lookup_prune hlen, Option.filter_eq_some_iff] at hbucket
  exact h bucket hbucket.1

/-- A call of the peer finds its level, pays a token if it can, and writes down the rest. -/
theorem consume_self (h : InOrder p m t guardrails) (hm : 0 ≤ m) (hnow : t ≤ now)
    (hlen : len guardrails.perPeerBuckets ≤ maxTrackedBuckets) :
    (guardrails.consumePeerToken p now m).1 = decide (1 ≤ levelOf p m guardrails now) ∧
    (guardrails.consumePeerToken p now m).2.perPeerBuckets.lookup p
      = some ⟨levelOf p m guardrails now - (if 1 ≤ levelOf p m guardrails now then 1 else 0),
        now⟩ := by
  unfold consumePeerToken
  dsimp only
  rw [refillBucket_getD (h.prune hlen now) hnow, level_prune h hm hlen]
  by_cases hroom : 1 ≤ levelOf p m guardrails now
  · grind [AList.lookup_insert]
  · grind [AList.lookup_insert]

/-- A call of another peer leaves the bucket, unless it is dropped. -/
theorem consume_other {q : String} (hq : p ≠ q) (now : Nat) (m : ℚ) :
    (guardrails.consumePeerToken q now m).2.perPeerBuckets.lookup p
      = (guardrails.prunePeerBuckets now).perPeerBuckets.lookup p := by
  unfold consumePeerToken
  dsimp only
  split <;> exact AList.lookup_insert_ne hq

/-! ## The bound -/

theorem rate_nonneg (hm : 0 ≤ m) : 0 ≤ rate m := by
  unfold rate refillPerSec
  positivity

section
variable (h : InOrder p m t guardrails) (hm : 0 ≤ m)
include h hm

theorem levelOf_nonneg (now : Nat) : 0 ≤ levelOf p m guardrails now := by
  unfold levelOf
  cases hlookup : guardrails.perPeerBuckets.lookup p with
  | none =>
    show 0 ≤ burstCapacity * m
    unfold burstCapacity
    positivity
  | some bucket => exact (h bucket hlookup).level_nonneg (rate_nonneg hm) now

/-- What the peer itself does to its level. -/
theorem levelOf_step_self {call : TokenCall} (hp : call.peerId = p) (hnow : t ≤ call.nowMs)
    (hok : Tracked p m guardrails call) :
    InOrder p m call.nowMs (guardrails.step call) ∧
      levelOf p m (guardrails.step call) call.nowMs + (if guardrails.serves p call then 1 else 0)
        = levelOf p m guardrails call.nowMs := by
  have hmultiplier := hok.2 hp
  obtain ⟨hanswer, hafter⟩ := consume_self h hm hnow hok.1
  rw [← hmultiplier, ← hp] at hanswer
  have hserves : guardrails.serves p call = decide (1 ≤ levelOf p m guardrails call.nowMs) := by
    rw [serves, decide_eq_true hp, Bool.true_and, hanswer, hp, hmultiplier]
  have hlookup : (guardrails.step call).perPeerBuckets.lookup p
      = some ⟨levelOf p m guardrails call.nowMs
        - (if 1 ≤ levelOf p m guardrails call.nowMs then 1 else 0), call.nowMs⟩ := by
    rw [step, hp, hmultiplier]
    exact hafter
  have hnonneg := levelOf_nonneg h hm call.nowMs
  have hle : levelOf p m guardrails call.nowMs ≤ capacity m := level_le_capacity _ _
  have hrest : 0 ≤ levelOf p m guardrails call.nowMs
      - (if 1 ≤ levelOf p m guardrails call.nowMs then 1 else 0) ∧
      levelOf p m guardrails call.nowMs
      - (if 1 ≤ levelOf p m guardrails call.nowMs then 1 else 0) ≤ capacity m := by
    split <;> constructor <;> linarith
  refine ⟨fun bucket hbucket => ?_, ?_⟩
  · rw [hlookup] at hbucket
    rw [← Option.some.inj hbucket]
    exact ⟨hrest.1, hrest.2, Nat.le_refl _⟩
  · grind [levelOf, level_of_last]

/-- What the others do to it. -/
theorem levelOf_step_other {call : TokenCall} (hp : call.peerId ≠ p) (hnow : t ≤ call.nowMs)
    (hok : Tracked p m guardrails call) :
    InOrder p m call.nowMs (guardrails.step call) ∧
      levelOf p m (guardrails.step call) call.nowMs = levelOf p m guardrails call.nowMs := by
  have hlookup : (guardrails.step call).perPeerBuckets.lookup p
      = (guardrails.prunePeerBuckets call.nowMs).perPeerBuckets.lookup p :=
    consume_other (Ne.symm hp) call.nowMs call.multiplier
  refine ⟨fun bucket hbucket => ?_, ?_⟩
  · rw [hlookup] at hbucket
    exact (h.prune hok.1 call.nowMs bucket hbucket).later hnow
  · rw [levelOf, hlookup]
    exact level_prune h hm hok.1 call.nowMs

end

/-- The peer's tokens are a budget. -/
theorem guardrails_budget (p : String) (hm : 0 ≤ m) :
    Budget step TokenCall.nowMs (serves p) (Tracked p m) (InOrder p m) (levelOf p m) (capacity m)
      (rate m) where
  rate_nonneg := rate_nonneg hm
  later h hnow bucket hbucket := (h bucket hbucket).later hnow
  keeps := by
    intro t guardrails call h hnow hok
    by_cases hp : call.peerId = p
    · exact (levelOf_step_self h hm hp hnow hok).1
    · exact (levelOf_step_other h hm hp hnow hok).1
  nonneg h := levelOf_nonneg h hm _
  le_capacity _ := level_le_capacity _ _
  grows _ hnow := level_le_add (rate_nonneg hm) _ hnow
  pays := by
    intro t guardrails call h hnow hok
    by_cases hp : call.peerId = p
    · exact (levelOf_step_self h hm hp hnow hok).2.le
    · rw [(levelOf_step_other h hm hp hnow hok).2, serves, decide_eq_false hp, Bool.false_and,
        if_neg Bool.false_ne_true, add_zero]

/-- A multiplier below zero leaves a bucket without a token. -/
theorem refillBucket_lt_one (hm : m < 0) {bucket : TokenBucketState} (h : bucket.tokens < 1)
    (now : Nat) : (refillBucket bucket now m).tokens < 1 := by
  unfold refillBucket
  dsimp only
  split
  next =>
    refine (min_le_right _ _).trans_lt ?_
    unfold burstCapacity
    linarith
  next => exact h

/-- The peer has no token to pay with. -/
def Tokenless (p : String) (guardrails : RelayAbuseGuardrails) : Prop :=
  ∀ bucket, guardrails.perPeerBuckets.lookup p = some bucket → bucket.tokens < 1

/-- Then no call of it succeeds, and it stays so. -/
theorem Tokenless.step (h : Tokenless p guardrails) (hm : m < 0) {call : TokenCall}
    (hok : Tracked p m guardrails call) :
    guardrails.serves p call = false ∧ Tokenless p (guardrails.step call) := by
  have hpruned : Tokenless p (guardrails.prunePeerBuckets call.nowMs) := by
    intro bucket hbucket
    rw [lookup_prune hok.1, Option.filter_eq_some_iff] at hbucket
    exact h bucket hbucket.1
  by_cases hp : call.peerId = p
  · obtain ⟨peerId, now, multiplier⟩ := call
    obtain rfl : peerId = p := hp
    obtain rfl : multiplier = m := hok.2 rfl
    have hlow : (refillBucket (((guardrails.prunePeerBuckets now).perPeerBuckets.lookup peerId).getD
        ⟨burstCapacity * multiplier, now⟩) now multiplier).tokens < 1 := by
      refine refillBucket_lt_one hm ?_ now
      cases hfound : (guardrails.prunePeerBuckets now).perPeerBuckets.lookup peerId with
      | none =>
        show burstCapacity * multiplier < 1
        unfold burstCapacity
        linarith
      | some bucket => exact hpruned bucket hfound
    have hcall : guardrails.consumePeerToken peerId now multiplier = (false, _) := if_pos hlow
    refine ⟨?_, fun bucket hbucket => ?_⟩
    · rw [serves, hcall, Bool.and_false]
    · rw [RelayAbuseGuardrails.step, hcall, AList.lookup_insert] at hbucket
      rw [← Option.some.inj hbucket]
      exact hlow
  · refine ⟨?_, fun bucket hbucket => ?_⟩
    · rw [serves, decide_eq_false hp, Bool.false_and]
    · rw [RelayAbuseGuardrails.step, consume_other (Ne.symm hp)] at hbucket
      exact hpruned bucket hbucket

theorem Tokenless.passedWithin_eq_zero (hm : m < 0) {a length : Nat} (calls : List TokenCall) :
    ∀ {guardrails : RelayAbuseGuardrails}, Tokenless p guardrails →
      Along RelayAbuseGuardrails.step (Tracked p m) guardrails calls →
      passedWithin RelayAbuseGuardrails.step TokenCall.nowMs (serves p) a length guardrails calls
        = 0 := by
  induction calls with
  | nil => exact fun _ _ => rfl
  | cons call calls ih =>
    rintro guardrails h ⟨hok, halong⟩
    obtain ⟨hserves, hafter⟩ := h.step hm hok
    rw [passedWithin, hserves, Bool.false_and, if_neg Bool.false_ne_true, ih hafter halong]

/-- **How many calls of a peer succeed.** In any `length` milliseconds at most the burst capacity
and what comes back in that time, both scaled by the peer's multiplier. -/
theorem served_le (p : String) (m : ℚ) (calls : List TokenCall)
    (hclock : (calls.map TokenCall.nowMs).Pairwise (· ≤ ·))
    (htracked : Along step (Tracked p m) new calls) (a length : Nat) :
    (0 ≤ m → (passedWithin step TokenCall.nowMs (serves p) a length new calls : ℚ)
      ≤ burstCapacity * m + refillPerSec * m * length / 1000) ∧
    (m < 0 → passedWithin step TokenCall.nowMs (serves p) a length new calls = 0) := by
  refine ⟨fun hm => ?_, fun hm => ?_⟩
  · have hnew : InOrder p m 0 new := fun _ hbucket => nomatch hbucket
    have hcapacity : 0 ≤ capacity m := by
      unfold capacity burstCapacity
      positivity
    have hle : (passedWithin step TokenCall.nowMs (serves p) a length new calls : ℚ)
        ≤ capacity m + (length : ℚ) * rate m :=
      (guardrails_budget p hm).passedWithin_le hcapacity calls hnew (fun _ _ => Nat.zero_le _)
        hclock htracked
    have hrate : (length : ℚ) * rate m = refillPerSec * m * length / 1000 := by
      unfold rate
      ring
    rwa [hrate] at hle
  · exact Tokenless.passedWithin_eq_zero hm calls (fun _ hbucket => nomatch hbucket) htracked

/-- A burst of one token. The second call is too early; the third finds a new bucket. -/
theorem served_le_idle :
    let calls : List TokenCall :=
      [⟨"peer", 0, 1 / 20⟩, ⟨"peer", 1, 1 / 20⟩, ⟨"peer", 300002, 1 / 20⟩]
    passedWithin step TokenCall.nowMs (serves "peer") 0 300002 new calls = 2 ∧
      (passedWithin step TokenCall.nowMs (serves "peer") 0 300002 new calls : ℚ)
        ≤ burstCapacity * (1 / 20) + refillPerSec * (1 / 20) * (300002 : Nat) / 1000 := by
  intro calls
  refine ⟨by decide +kernel, ?_⟩
  refine (served_le "peer" (1 / 20) calls (by decide) ?_ 0 300002).1 (by norm_num)
  refine ⟨⟨?_, fun _ => rfl⟩, ⟨?_, fun _ => rfl⟩, ⟨?_, fun _ => rfl⟩, trivial⟩ <;> decide +kernel

end RelayAbuseGuardrails

end Scm.Transport
