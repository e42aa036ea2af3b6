import Scm.Crypto.Ratchet
import Scm.MinEviction
import Scm.Runs

/-!
# Which skipped key is evicted — `core/src/crypto/ratchet.rs`

`get_message_key` keeps the keys of the numbers it jumps over, at most 256 of them, and the one
it drops to stay within the limit is called `oldest`. It is the least one: by the bytes of the
DH public key first, and by the message number only among the keys of one chain.

The cache is an `AList`. Storing puts a key in front and taking leaves the others as they are,
so its keys stand in the order of storing, the latest first, and the one stored first is the
last of the list. What a call of `decrypt` does to the cache is a list of events
(`cacheEvents`), and a run of calls is a run of the events (`skippedKeys_run`).
`evicts_earliest_iff` says when each key dropped is the one stored first.
-/

namespace Scm.Crypto

open AList List Bytes Collections Runs MinEviction

/-! ## The cache as a run of its own -/

/-- A key is used, or one more is kept. -/
inductive CacheEvent where
  | taken (key : Key × UInt32)
  | stored (key : Key × UInt32) (value : Key)

def cacheStep (cache : SkippedKeys) : CacheEvent → SkippedKeys
  | .taken key => cache.erase key
  | .stored key value => evictOldest (cache.insert key value)

/-- A key that is evicted was stored first of those in the cache. -/
def EvictsEarliest (cache : SkippedKeys) : CacheEvent → Prop
  | .taken _ => True
  | .stored key value => ∀ evicted ∈ cache.insert key value,
      evicted ∉ evictOldest (cache.insert key value) →
        (cache.insert key value).keys.getLast? = some evicted

/-- When a new key comes to a full cache, the key stored first precedes all others, by DH key
and number. -/
def EarliestIsLeast (cache : SkippedKeys) : CacheEvent → Prop
  | .taken _ => True
  | .stored key _ => key ∉ cache → len cache = maxSkipKeys →
      EarliestLeast compareSkipped (key :: cache.keys)

instance : Std.TransCmp compareSkipped :=
  inferInstanceAs (Std.TransCmp (compareLex (compareOn fun key : Key × UInt32 => key.1.toList)
    (compareOn fun key => key.2)))

instance : Std.LawfulEqCmp compareSkipped where
  eq_of_compare {a b} h := by
    obtain ⟨hdh, hnumber⟩ := Ordering.then_eq_eq.mp h
    exact Prod.ext (Vector.toList_inj.mp (Std.LawfulEqCmp.eq_of_compare hdh))
      (Std.LawfulEqCmp.eq_of_compare hnumber)

theorem keys_evictOldest (cache : SkippedKeys) :
    (evictOldest cache).keys = trim maxSkipKeys compareSkipped cache.keys := by
  unfold evictOldest trim
  rw [length_keys]
  split
  · cases minBy compareSkipped cache.keys with
    | none => rfl
    | some least => exact keys_erase _ _
  · rfl

theorem len_cacheStep_le (cache : SkippedKeys) (event : CacheEvent) (h : len cache ≤ maxSkipKeys) :
    len (cacheStep cache event) ≤ maxSkipKeys := by
  cases event with
  | taken key => exact (len_erase_le cache key).trans h
  | stored key value =>
    rw [cacheStep, ← length_keys, keys_evictOldest]
    refine length_trim_le ?_
    rw [length_keys]
    by_cases hmem : key ∈ cache
    · rw [len_insert_of_mem value hmem]
      omega
    · rw [len_insert_of_notMem value hmem]
      omega

variable {cache : SkippedKeys} {n : UInt32}

theorem evictsEarliest_iff (h : len cache ≤ maxSkipKeys) (event : CacheEvent) :
    EvictsEarliest cache event ↔ EarliestIsLeast cache event := by
  cases event with
  | taken key => exact Iff.rfl
  | stored key value =>
    have htrims : EvictsEarliest cache (.stored key value) ↔
        TrimsEarliest maxSkipKeys compareSkipped (cache.insert key value).keys := by
      unfold EvictsEarliest TrimsEarliest
      simp only [← keys_evictOldest, AList.mem_keys]
    rw [htrims]
    by_cases hover : maxSkipKeys < (cache.insert key value).keys.length
    · -- there is no room, and so the key is a new one
      have hnew : key ∉ cache := fun hmem => by
        rw [length_keys, len_insert_of_mem value hmem] at hover
        omega
      have hfull : len cache = maxSkipKeys := by
        rw [length_keys, len_insert_of_notMem value hnew] at hover
        omega
      rw [trimsEarliest_iff (keys_nodup _) hover, keys_insert_of_notMem value hnew]
      exact ⟨fun hleast _ _ => hleast, fun hleast => hleast hnew hfull⟩
    · refine iff_of_true (fun evicted hmem hgone => ?_) fun hnew hfull => ?_
      · exact absurd (by rwa [trim_of_le (Nat.not_lt.mp hover)]) hgone
      · grind [length_keys, len_insert_of_notMem]

/-! ## The events of a call -/

/-- What the loop over the skipped numbers stores. -/
def skippedEvents (P : Primitives) (theirDh : Key) : Nat → Chain → List CacheEvent
  | 0, _ => []
  | k + 1, chain =>
    let (skippedKey, chain) := chain.nextMessageKey P
    .stored (theirDh, chain.index - 1) skippedKey :: skippedEvents P theirDh k chain

theorem skippedEvents_succ (P : Primitives) (theirDh : Key) (k : Nat) (chain : Chain) :
    skippedEvents P theirDh (k + 1) chain
      = .stored (theirDh, chain.index) (chain.nextMessageKey P).1
        :: skippedEvents P theirDh k (chain.nextMessageKey P).2 := by
  show CacheEvent.stored (theirDh, chain.index + 1 - 1) _ :: _ = _
  rw [UInt32.add_sub_cancel]
  rfl

theorem skipKeys_snd (P : Primitives) (theirDh : Key) (k : Nat) :
    ∀ (chain : Chain) (cache : SkippedKeys), (skipKeys P theirDh k chain cache).2
      = run cacheStep cache (skippedEvents P theirDh k chain) := by
  induction k with
  | zero => exact fun _ _ => rfl
  | succ k ih => exact fun chain cache => ih _ _

/-- The arguments of a call of `decrypt`, and the secret it would draw. -/
structure DecryptCall where
  newDhSecret : Key
  theirDhPublic : Bytes
  messageNumber : UInt32
  nonce : Bytes
  ciphertext : Bytes
  aad : Bytes

namespace RatchetSession

variable (P : Primitives)

/-- The session after a call. -/
def step (s : RatchetSession) (call : DecryptCall) : RatchetSession :=
  (s.decrypt P call.newDhSecret call.theirDhPublic call.messageNumber call.nonce call.ciphertext
    call.aad).2

/-- What `get_message_key` does to the cache. -/
def lookupEvents (s : RatchetSession) (theirDh : Key) (number : UInt32) : List CacheEvent :=
  if (theirDh, number) ∈ s.skippedKeys then [.taken (theirDh, number)]
  else
    match s.receivingChain with
    | none => []
    | some chain =>
      if number < chain.index ∨ (number - chain.index).toNat > maxSkipKeys then []
      else skippedEvents P theirDh (number - chain.index).toNat chain

/-- What a call does to the cache. -/
def cacheEvents (s : RatchetSession) (call : DecryptCall) : List CacheEvent :=
  if call.theirDhPublic.length ≠ 32 then []
  else
    let theirDh := arrayAt 32 call.theirDhPublic 0
    (s.ratchetTo P call.newDhSecret theirDh).lookupEvents P theirDh call.messageNumber

/-- What a sequence of calls does to it. -/
def sessionEvents : RatchetSession → List DecryptCall → List CacheEvent
  | _, [] => []
  | s, call :: calls => s.cacheEvents P call ++ sessionEvents (s.step P call) calls

variable {P}

variable {theirDh : Key} {s : RatchetSession} {number : UInt32}

theorem lookupEvents_of_mem (h : (theirDh, number) ∈ s.skippedKeys) :
    s.lookupEvents P theirDh number = [.taken (theirDh, number)] := by
  rw [lookupEvents, if_pos h]

theorem lookupEvents_of_out (hnew : (theirDh, number) ∉ s.skippedKeys)
    (hout : ∀ chain, s.receivingChain = some chain →
      number < chain.index ∨ (number - chain.index).toNat > maxSkipKeys) :
    s.lookupEvents P theirDh number = [] := by
  rw [lookupEvents, if_neg hnew]
  cases hchain : s.receivingChain with
  | none => rfl
  | some chain => exact if_pos (hout chain hchain)

theorem lookupEvents_of_reached {chain : Chain} (hnew : (theirDh, number) ∉ s.skippedKeys)
    (hchain : s.receivingChain = some chain) (hahead : ¬ number < chain.index)
    (hnear : ¬ (number - chain.index).toNat > maxSkipKeys) :
    s.lookupEvents P theirDh number
      = skippedEvents P theirDh (number - chain.index).toNat chain := by
  rw [lookupEvents, if_neg hnew, hchain]
  exact if_neg fun h => h.elim hahead hnear

theorem skippedKeys_getMessageKey (s : RatchetSession) (theirDh : Key) (number : UInt32) :
    (s.getMessageKey P theirDh number).2.skippedKeys
      = run cacheStep s.skippedKeys (s.lookupEvents P theirDh number) := by
  have hlookup := lookup_getMessageKey P s theirDh number
  generalize s.getMessageKey P theirDh number = out at hlookup ⊢
  cases hlookup with
  | saved hsaved =>
    rw [lookupEvents_of_mem (lookup_isSome.mp (by rw [hsaved]; rfl))]
    rfl
  | refused hnew hout =>
    rw [lookupEvents_of_out hnew hout]
    rfl
  | @reached chain hnew hchain hahead hnear => simp_all [lookupEvents_of_reached, skipKeys_snd]

theorem skippedKeys_step (s : RatchetSession) (call : DecryptCall) :
    (s.step P call).skippedKeys = run cacheStep s.skippedKeys (s.cacheEvents P call) := by
  unfold step cacheEvents
  by_cases hlen : call.theirDhPublic.length = 32
  · rw [decrypt_snd P _ _ hlen, skippedKeys_getMessageKey, if_neg (not_not.mpr hlen),
      skippedKeys_ratchetTo]
  · rw [if_pos hlen, decrypt, if_pos hlen]
    rfl

theorem skippedKeys_run (calls : List DecryptCall) : ∀ s : RatchetSession,
    (run (step P) s calls).skippedKeys = run cacheStep s.skippedKeys (s.sessionEvents P calls) := by
  induction calls with
  | nil => exact fun _ => rfl
  | cons call calls ih =>
    intro s
    rw [run_cons, ih, sessionEvents, run_append, skippedKeys_step]

/-- **The cache of skipped keys.** For every session and every sequence of calls of `decrypt`:
the cache is within its limit after each call, and every key evicted is the one stored first of
those cached, if and only if each time a new key comes to a full cache the key stored first is
the least. The limit is kept in any case. -/
theorem evicts_earliest_iff (P : Primitives) (s : RatchetSession)
    (hs : len s.skippedKeys ≤ maxSkipKeys) (calls : List DecryptCall) :
    ((∀ before after, calls = before ++ after →
        len (run (step P) s before).skippedKeys ≤ maxSkipKeys) ∧
      Along cacheStep EvictsEarliest s.skippedKeys (s.sessionEvents P calls)) ↔
      Along cacheStep EarliestIsLeast s.skippedKeys (s.sessionEvents P calls) := by
  have hlimit := fun events => run_invariant_always len_cacheStep_le events s.skippedKeys hs
  have hbound : ∀ before after, calls = before ++ after →
      len (run (step P) s before).skippedKeys ≤ maxSkipKeys := fun before _ _ => by
    rw [skippedKeys_run]
    exact hlimit _
  rw [and_iff_right hbound, along_iff, along_iff]
  refine forall_congr' fun before => forall_congr' fun event => forall_congr' fun after => ?_
  rw [evictsEarliest_iff (hlimit before)]

/-! ## Keys that come after all others -/

end RatchetSession

theorem compareSkipped_of_dh {a b : Key × UInt32} (h : compare a.1.toList b.1.toList = .lt) :
    compareSkipped a b = .lt := by
  rw [compareSkipped, h]
  rfl

theorem compareSkipped_succ (d : Key) (h : n.toNat + 1 < 2 ^ 32) :
    compareSkipped (d, n) (d, n + 1) = .lt := by
  have hlt : n < n + 1 := by
    simp_all [UInt32.lt_iff_toNat_lt, UInt32.toNat_add, Nat.mod_eq_of_lt]
  have hdh : compare d.toList d.toList = .eq := Std.ReflCmp.compare_self
  rw [compareSkipped, hdh]
  exact Std.compare_eq_lt.mpr hlt

/-- All cached keys come before the given one. -/
def Before (cache : SkippedKeys) (key : Key × UInt32) : Prop :=
  ∀ other ∈ cache, compareSkipped other key = .lt

theorem Before.notMem {key : Key × UInt32} (h : Before cache key) :
    key ∉ cache := fun hmem => by
  have hself : compareSkipped key key = .eq := Std.ReflCmp.compare_self
  rw [h key hmem] at hself
  cases hself

theorem Before.succ {d : Key} (h : Before cache (d, n)) (hn : n.toNat + 1 < 2 ^ 32) :
    Before cache (d, n + 1) := fun other hother =>
  Std.TransCmp.lt_trans (h other hother) (compareSkipped_succ d hn)

theorem mem_of_mem_stored {key other : Key × UInt32} {value : Key}
    (h : other ∈ cacheStep cache (.stored key value)) : other = key ∨ other ∈ cache := by
  have hkeys := AList.mem_keys.mp h
  rw [cacheStep, keys_evictOldest] at hkeys
  exact (mem_insert _).mp (AList.mem_keys.mpr (trim_sublist.subset hkeys))

theorem Before.stored {d : Key} (h : Before cache (d, n)) (hn : n.toNat + 1 < 2 ^ 32) (value : Key)
    :
    Before (cacheStep cache (.stored (d, n) value)) (d, n + 1) := by
  intro other hother
  rcases mem_of_mem_stored hother with rfl | hold
  · exact compareSkipped_succ d hn
  · exact h.succ hn other hold

namespace RatchetSession

variable {P : Primitives} {s : RatchetSession}

/-! ## Falling keys -/

variable {d : Key}

section
variable (P : Primitives) (s : RatchetSession)

/-- What a call under a new DH key stores: the keys of all numbers before its own. -/
theorem cacheEvents_of_dhChanged {call : DecryptCall} (hdh : call.theirDhPublic = d.toList)
    (hchanged : s.dhChanged d = true) (hnew : (d, call.messageNumber) ∉ s.skippedKeys)
    (hskip : call.messageNumber.toNat ≤ maxSkipKeys) :
    ∃ chainKey, s.cacheEvents P call
      = skippedEvents P d call.messageNumber.toNat (Chain.new chainKey) := by
  refine ⟨(P.rootKeyRatchet s.rootKey (P.diffieHellman s.ratchetSecret d)).2, ?_⟩
  have hchain : (s.ratchetTo P call.newDhSecret d).receivingChain
      = some (Chain.new (P.rootKeyRatchet s.rootKey (P.diffieHellman s.ratchetSecret d)).2) := by
    rw [ratchetTo, if_pos hchanged]
    rfl
  have hunsaved : (d, call.messageNumber) ∉ (s.ratchetTo P call.newDhSecret d).skippedKeys := by
    rw [skippedKeys_ratchetTo]
    exact hnew
  have hzero : call.messageNumber - 0 = call.messageNumber := UInt32.sub_zero _
  have hnear : ¬ (call.messageNumber - 0).toNat > maxSkipKeys := by
    rw [hzero]
    exact Nat.not_lt.mpr hskip
  unfold cacheEvents
  rw [hdh, if_neg (by simp), arrayAt_toList]
  rw [lookupEvents_of_reached hunsaved hchain UInt32.not_lt_zero hnear]
  exact congrArg (fun n : UInt32 => skippedEvents P d n.toNat _) hzero

theorem keys_skippedEvents (d : Key) (k : Nat) :
    ∀ (chain : Chain) (cache : SkippedKeys), Before cache (d, chain.index) →
      chain.index.toNat + k < 2 ^ 32 → len cache + k ≤ maxSkipKeys →
      (run cacheStep cache (skippedEvents P d k chain)).keys
        = ((List.range k).map fun i => (d, chain.index + UInt32.ofNat i)).reverse
          ++ cache.keys := by
  induction k with
  | zero => exact fun _ _ _ _ _ => rfl
  | succ k ih =>
    intro chain cache hbefore hbound hroom
    have hindex := toNat_index_next P chain (by omega)
    have hlen := len_insert_of_notMem (chain.nextMessageKey P).1 hbefore.notMem
    have hstored : (cacheStep cache (.stored (d, chain.index) (chain.nextMessageKey P).1)).keys
        = (d, chain.index) :: cache.keys := by
      rw [cacheStep, keys_evictOldest, trim_of_le (by rw [length_keys]; omega),
        keys_insert_of_notMem _ hbefore.notMem]
    have hlen' := congrArg List.length hstored
    rw [length_keys, length_cons, length_keys] at hlen'
    have hnext := hbefore.stored (by omega) (chain.nextMessageKey P).1
    have hrest := ih (chain.nextMessageKey P).2 _ hnext (by omega) (by omega)
    rw [skippedEvents_succ, run_cons, hrest, hstored, range_succ_eq_map, map_cons,
      reverse_cons, append_assoc, map_map]
    refine congrArg₂ (· ++ ·) (congrArg List.reverse (map_congr_left fun i _ => ?_)) ?_
    · exact Prod.ext rfl (index_next_add P chain i)
    · simp

/-- A call with the given key and number; it does not matter here that it fails. -/
def callUnder (dh : UInt8) (number : UInt32) : DecryptCall where
  newDhSecret := keyOfByte 7
  theirDhPublic := (keyOfByte dh).toList
  messageNumber := number
  nonce := demoNonce
  ciphertext := []
  aad := []

/-- The condition on a session that has just started. -/
theorem evicts_earliest_iff_fresh :
    ((∀ before after, [callUnder 9 256, callUnder 5 1] = before ++ after →
        len (run (step demoPrimitives) demoFresh before).skippedKeys ≤ maxSkipKeys) ∧
      Along cacheStep EvictsEarliest demoFresh.skippedKeys
        (demoFresh.sessionEvents demoPrimitives [callUnder 9 256, callUnder 5 1])) ↔
      Along cacheStep EarliestIsLeast demoFresh.skippedKeys
        (demoFresh.sessionEvents demoPrimitives [callUnder 9 256, callUnder 5 1]) :=
  evicts_earliest_iff demoPrimitives demoFresh (by decide) _

theorem theirDhPublic_step (call : DecryptCall) (hdh : call.theirDhPublic = d.toList) :
    (s.step P call).theirDhPublic = some d := by
  unfold step
  rw [decrypt_snd P _ _ (by rw [hdh]; simp), hdh, arrayAt_toList, theirDhPublic_getMessageKey,
    theirDhPublic_ratchetTo]

end

/-- On an empty cache, all keys that the call skips are there afterwards. -/
theorem keys_step_of_empty {call : DecryptCall} (hdh : call.theirDhPublic = d.toList)
    (hchanged : s.dhChanged d = true) (hempty : s.skippedKeys = ∅)
    (hskip : call.messageNumber.toNat ≤ maxSkipKeys) :
    (s.step P call).skippedKeys.keys
      = ((List.range call.messageNumber.toNat).map fun i => (d, UInt32.ofNat i)).reverse := by
  have hnone : ∀ key, key ∉ s.skippedKeys := by
    rw [hempty]
    exact notMem_empty
  obtain ⟨chainKey, hevents⟩ := cacheEvents_of_dhChanged P s hdh hchanged (hnone _) hskip
  have hlen : len s.skippedKeys = 0 := by
    rw [hempty]
    rfl
  have hbound : (0 : UInt32).toNat + call.messageNumber.toNat < 2 ^ 32 := by grind [maxSkipKeys]
  have hkeys := keys_skippedEvents P d _ (Chain.new chainKey) s.skippedKeys
    (fun other hother => absurd hother (hnone other)) hbound (by omega)
  rw [skippedKeys_step, hevents, hkeys, hempty]
  show List.reverse (List.map (fun i => (d, 0 + UInt32.ofNat i)) _) ++ [] = _
  simp only [UInt32.zero_add, append_nil]

/-- A key that comes to a full cache below all others is evicted at once. -/
theorem stored_below {cache : SkippedKeys} {key : Key × UInt32} (value : Key)
    (hfull : len cache = maxSkipKeys) (hbelow : ∀ other ∈ cache, compareSkipped key other = .lt) :
    (cacheStep cache (.stored key value)).keys = cache.keys ∧
      key ∉ cache ∧ ¬ EvictsEarliest cache (.stored key value) := by
  have hnew : key ∉ cache := fun hmem => by
    have hself : compareSkipped key key = .eq := Std.ReflCmp.compare_self
    rw [hbelow key hmem] at hself
    cases hself
  have hkeys : (cacheStep cache (.stored key value)).keys = cache.keys := by
    rw [cacheStep, keys_evictOldest, keys_insert_of_notMem value hnew]
    exact trim_cons_of_lt (by rw [length_keys, hfull])
      fun other hother => hbelow other (AList.mem_keys.mpr hother)
  refine ⟨hkeys, hnew, fun hearliest => hnew ?_⟩
  -- the key would have to be the one stored first, and the cache has others
  have hgone : key ∉ cacheStep cache (.stored key value) := by simp_all [AList.mem_keys]
  have hlast := hearliest key ((mem_insert _).mpr (.inl rfl)) hgone
  rw [keys_insert_of_notMem value hnew] at hlast
  cases hcached : cache.keys with
  | nil =>
    rw [← length_keys, hcached] at hfull
    cases hfull
  | cons first rest => simp_all [List.getLast?_cons_cons, AList.mem_keys, List.mem_of_getLast?]

/-- The receiver skips 256 keys of a first chain, and then one of a chain whose DH key is
smaller: the key that has just been stored is evicted, and the first one of the first chain,
stored before all others, is kept. -/
theorem newest_evicted :
    (keyOfByte 5, 0) ∉ (run (step demoPrimitives) demoFresh
      [callUnder 9 256, callUnder 5 1]).skippedKeys ∧
    (keyOfByte 9, 0) ∈ (run (step demoPrimitives) demoFresh
      [callUnder 9 256, callUnder 5 1]).skippedKeys ∧
    ¬ Along cacheStep EvictsEarliest demoFresh.skippedKeys
      (demoFresh.sessionEvents demoPrimitives [callUnder 9 256, callUnder 5 1]) := by
  have hkeys : (demoFresh.step demoPrimitives (callUnder 9 256)).skippedKeys.keys
      = ((List.range 256).map fun i => (keyOfByte 9, UInt32.ofNat i)).reverse :=
    keys_step_of_empty rfl (by decide +kernel) rfl (Nat.le_refl 256)
  have htheir := theirDhPublic_step demoPrimitives demoFresh (callUnder 9 256) rfl
  have hevents := skippedKeys_step (P := demoPrimitives) demoFresh (callUnder 9 256)
  rw [sessionEvents, along_append, ← hevents, run_cons]
  generalize demoFresh.step demoPrimitives (callUnder 9 256) = session at hkeys htheir ⊢
  have hfull : len session.skippedKeys = maxSkipKeys := by
    rw [← length_keys, hkeys, length_reverse, length_map, length_range]
    rfl
  have hdh : ∀ key ∈ session.skippedKeys, key.1 = keyOfByte 9 := by
    simp_all [AList.mem_keys, mem_reverse, mem_map]
  have hchanged : session.dhChanged (keyOfByte 5) = true := by
    rw [dhChanged, htheir]
    decide +kernel
  have hunsaved : (keyOfByte 5, (callUnder 5 1).messageNumber) ∉ session.skippedKeys :=
    fun h => absurd (hdh _ h) (by decide +kernel)
  obtain ⟨chainKey, hsecond⟩ :=
    cacheEvents_of_dhChanged demoPrimitives session rfl hchanged hunsaved (by decide)
  have hone : skippedEvents demoPrimitives (keyOfByte 5) 1 (Chain.new chainKey)
      = [.stored (keyOfByte 5, 0) ((Chain.new chainKey).nextMessageKey demoPrimitives).1] :=
    skippedEvents_succ demoPrimitives (keyOfByte 5) 0 (Chain.new chainKey)
  replace hsecond := hsecond.trans hone
  have hbelow : ∀ other ∈ session.skippedKeys, compareSkipped (keyOfByte 5, 0) other = .lt :=
    fun other hother => compareSkipped_of_dh (by rw [hdh other hother]; decide +kernel)
  obtain ⟨hsame, hnew, hnot⟩ := stored_below
    ((Chain.new chainKey).nextMessageKey demoPrimitives).1 hfull hbelow
  have hafter : (run (step demoPrimitives) session [callUnder 5 1]).skippedKeys.keys
      = session.skippedKeys.keys := by grind [run_cons, run_nil, skippedKeys_step]
  refine ⟨?_, ?_, fun h => hnot ?_⟩
  · grind [AList.mem_keys]
  · rw [AList.mem_keys, hafter, hkeys, mem_reverse]
    exact mem_map.mpr ⟨0, by simp, rfl⟩
  · rw [sessionEvents, hsecond] at h
    exact h.2.1

end RatchetSession

end Scm.Crypto
