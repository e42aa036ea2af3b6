import Scm.Collections
import Scm.Runs
import Scm.Transport.Ble.Fragments

/-!
# The reassembly manager — `core/src/transport/ble/l2cap.rs`, `L2capReassemblyManager`

Fragments come in from many peers, in any order. The manager keeps, for each peer, the payloads
that have come by their index, and once there are as many as the first fragment announced it
puts them together and checks the CRC32 that ends the message. A partial message is given up
when it is too old or takes too much memory.

Every call is one of four: the fragment has no header, it does not fit, it is kept, or it is the
last one. `Fed` says what each leaves behind, and the two sections that follow read it.

* A fragment that comes again is counted again though it takes the place of the first
  (`accounted_run_iff`).
* The total is the one of the first fragment, and no other is compared with it
  (`sound_of_consistent`).

Times are nanoseconds of a monotonic clock; each call reads it in `evict_expired` and once more
when it opens a partial message.
-/

namespace Scm.Transport.Ble

open List AList Bytes Collections Runs

/-! ## CRC32 -/

/-- One bit of the CRC register. -/
def crcShift (crc : UInt32) : UInt32 :=
  if crc &&& 1 ≠ 0 then (crc >>> 1) ^^^ 0xEDB88320 else crc >>> 1

/-- `crc32`. -/
def crc32 (data : Bytes) : UInt32 :=
  data.foldl (fun crc byte => Nat.repeat crcShift 8 (crc ^^^ byte.toUInt32)) 0xFFFFFFFF
    ^^^ 0xFFFFFFFF

/-- `append_crc32`. -/
def appendCrc32 (data : Bytes) : Bytes := data ++ leBytes 4 (crc32 data).toNat

-- the check value of the IEEE polynomial, over the digits 1 to 9
example : crc32 [0x31, 0x32, 0x33, 0x34, 0x35, 0x36, 0x37, 0x38, 0x39] = 0xCBF43926 := by
  decide +kernel

/-- The end of `feed_fragment`: a message of four bytes or more has to end with its CRC. -/
def checkCrc (reassembled : Bytes) : Option Bytes :=
  if reassembled.length ≥ 4 then
    let dataLen := reassembled.length - 4
    let expectedCrc := leAt 4 reassembled dataLen
    let actualCrc := crc32 (reassembled.take dataLen)
    if expectedCrc ≠ actualCrc.toNat then none else some (reassembled.take dataLen)
  else some reassembled

/-! ## The manager -/

inductive DropReason where
  | timeout
  | memoryCapExceeded
  | crcMismatch
  deriving DecidableEq, Repr

structure PartialReassembly where
  fragments : AList fun _ : UInt16 => Bytes
  expectedTotal : UInt16
  receivedAt : Nat
  bytesStored : Nat

namespace PartialReassembly

/-- What `or_insert_with` opens for a fragment. -/
def opened (header : FragmentHeader) (now : Nat) : PartialReassembly :=
  ⟨∅, header.totalFragments, now, 0⟩

/-- The fragment is kept. -/
def store (pending : PartialReassembly) (header : FragmentHeader) (payload : Bytes) :
    PartialReassembly :=
  { pending with
    fragments := pending.fragments.insert header.fragmentIndex payload
    bytesStored := pending.bytesStored + payload.length }

/-- The payloads with the indices up to `total`, one after the other. -/
def concat (pending : PartialReassembly) (total : UInt16) : Bytes :=
  (List.range total.toNat).flatMap fun i => (pending.fragments.lookup (UInt16.ofNat i)).getD []

/-- The sizes of the stored payloads. -/
def storedBytes (pending : PartialReassembly) : Nat := sumValues pending.fragments List.length

end PartialReassembly

structure L2capReassemblyManager where
  reassemblyTimeout : Nat
  maxPeerMemoryBytes : Nat
  partials : AList fun _ : String => PartialReassembly
  dropStats : AList fun _ : DropReason => Nat

/-- A fragment that comes in, with the two readings of the clock. -/
structure Arrival where
  now : Nat
  openedAt : Nat
  peerId : String
  fragment : Bytes

/-- The header of the fragment, if it has one. -/
def Arrival.header (arrival : Arrival) : Except L2capError FragmentHeader :=
  FragmentHeader.fromBytes L2capError.ofFragments arrival.fragment

namespace L2capReassemblyManager

/-- `L2capReassemblyManager::new`. -/
def new (reassemblyTimeoutSecs : UInt64) (maxPeerMemoryBytes : Nat) : L2capReassemblyManager :=
  ⟨reassemblyTimeoutSecs.toNat * 1000000000, maxPeerMemoryBytes, ∅, ∅⟩

/-- `with_defaults`. -/
def withDefaults : L2capReassemblyManager := new 30 (256 * 1024)

/-- A partial message is dropped and its reason counted. -/
def drop (manager : L2capReassemblyManager) (peerId : String) (reason : DropReason) :
    L2capReassemblyManager :=
  { manager with
    partials := manager.partials.erase peerId
    dropStats := manager.dropStats.insert reason ((manager.dropStats.lookup reason).getD 0 + 1) }

/-- `evict_expired`. -/
def evictExpired (manager : L2capReassemblyManager) (now : Nat) : L2capReassemblyManager :=
  let expired := manager.partials.entries.filter fun entry =>
    now - entry.2.receivedAt > manager.reassemblyTimeout
  (expired.map Sigma.fst).foldl (fun manager peerId => manager.drop peerId .timeout) manager

/-- What is stored for the peer of a fragment with a header, when it comes in. -/
def pendingFor (manager : L2capReassemblyManager) (arrival : Arrival) (header : FragmentHeader) :
    PartialReassembly :=
  ((manager.evictExpired arrival.now).partials.lookup arrival.peerId).getD
    (.opened header arrival.openedAt)

/-- `feed_fragment`. -/
def feedFragment (manager : L2capReassemblyManager) (arrival : Arrival) :
    Option Bytes × L2capReassemblyManager :=
  let evicted := manager.evictExpired arrival.now
  match arrival.header with
  | .error _ => (none, evicted)
  | .ok header =>
    let pending := manager.pendingFor arrival header
    let payload := payload arrival.fragment
    if pending.bytesStored + payload.length > manager.maxPeerMemoryBytes then
      (none, evicted.drop arrival.peerId .memoryCapExceeded)
    else
      let pending := pending.store header payload
      if len pending.fragments = pending.expectedTotal.toNat then
        match checkCrc (pending.concat pending.expectedTotal) with
        | none => (none, evicted.drop arrival.peerId .crcMismatch)
        | some data =>
          (some data, { evicted with partials := evicted.partials.erase arrival.peerId })
      else (none, { evicted with partials := evicted.partials.insert arrival.peerId pending })

/-- The manager after a fragment. -/
def feed (manager : L2capReassemblyManager) (arrival : Arrival) : L2capReassemblyManager :=
  (manager.feedFragment arrival).2

/-- What a fragment is answered. -/
def answer (manager : L2capReassemblyManager) (arrival : Arrival) : Option Bytes :=
  (manager.feedFragment arrival).1

/-! ## Eviction -/

variable {manager : L2capReassemblyManager} {arrival : Arrival} {peer : String}

/-- Dropping a list of peers touches their partial messages and the timeout count only. -/
theorem foldl_drop_timeout (peers : List String) :
    ∀ manager : L2capReassemblyManager,
      let dropped := peers.foldl (fun manager peerId => manager.drop peerId .timeout) manager
      dropped.reassemblyTimeout = manager.reassemblyTimeout ∧
      dropped.maxPeerMemoryBytes = manager.maxPeerMemoryBytes ∧
      (∀ peer, dropped.partials.lookup peer
        = if peer ∈ peers then none else manager.partials.lookup peer) ∧
      ∀ reason, reason ≠ .timeout →
        dropped.dropStats.lookup reason = manager.dropStats.lookup reason := by
  induction peers with
  | nil => exact fun _ => ⟨rfl, rfl, fun _ => (if_neg not_mem_nil).symm, fun _ _ => rfl⟩
  | cons first peers ih =>
    intro manager
    obtain ⟨htimeout, hcap, hlookup, hstats⟩ := ih (manager.drop first .timeout)
    refine ⟨htimeout, hcap, fun peer => (hlookup peer).trans ?_, fun reason hreason => ?_⟩
    · by_cases hpeers : peer ∈ peers
      · rw [if_pos hpeers, if_pos (mem_cons_of_mem _ hpeers)]
      · rw [if_neg hpeers]
        show (manager.partials.erase first).lookup peer = _
        by_cases hfirst : peer = first
        · rw [hfirst, lookup_erase, if_pos mem_cons_self]
        · rw [lookup_erase_ne hfirst, if_neg (not_mem_cons_of_ne_of_not_mem hfirst hpeers)]
    · exact (hstats reason hreason).trans (lookup_insert_ne hreason)

@[simp] theorem reassemblyTimeout_evictExpired (now : Nat) :
    (manager.evictExpired now).reassemblyTimeout = manager.reassemblyTimeout :=
  (foldl_drop_timeout _ manager).1

@[simp] theorem maxPeerMemoryBytes_evictExpired (now : Nat) :
    (manager.evictExpired now).maxPeerMemoryBytes = manager.maxPeerMemoryBytes :=
  (foldl_drop_timeout _ manager).2.1

/-- A partial message survives an eviction exactly when it is not too old. -/
theorem lookup_evictExpired (now : Nat) (peer : String) :
    (manager.evictExpired now).partials.lookup peer = (manager.partials.lookup peer).filter
      fun pending => now - pending.receivedAt ≤ manager.reassemblyTimeout := by
  refine ((foldl_drop_timeout _ manager).2.2.1 peer).trans ?_
  split
  next hmem =>
    obtain ⟨entry, hentry, rfl⟩ := mem_map.mp hmem
    obtain ⟨hentry, hold⟩ := mem_filter.mp hentry
    rw [mem_lookup_iff.mpr hentry, Option.filter_some, if_neg]
    exact fun hyoung => Nat.not_lt.mpr (of_decide_eq_true hyoung) (of_decide_eq_true hold)
  next hmem =>
    cases hlookup : manager.partials.lookup peer with
    | none => rfl
    | some pending =>
      rw [Option.filter_some, if_pos]
      refine decide_eq_true (Nat.le_of_not_lt fun hold => hmem ?_)
      exact mem_map_of_mem (f := Sigma.fst)
        (mem_filter.mpr ⟨mem_lookup_iff.mp hlookup, decide_eq_true hold⟩)

theorem lookup_of_lookup_evictExpired {now : Nat} {pending : PartialReassembly}
    (h : (manager.evictExpired now).partials.lookup peer = some pending) :
    manager.partials.lookup peer = some pending := by
  rw [lookup_evictExpired] at h
  exact (Option.filter_eq_some_iff.mp h).1

/-! ## What a call does -/

/-- The partial message with the fragment in it. -/
def storedWith (manager : L2capReassemblyManager) (arrival : Arrival) (header : FragmentHeader) :
    PartialReassembly :=
  (manager.pendingFor arrival header).store header (payload arrival.fragment)

/-- A call with its answer and the manager it leaves. -/
inductive Fed (manager : L2capReassemblyManager) (arrival : Arrival) :
    Option Bytes → L2capReassemblyManager → Prop
  | malformed {e : L2capError} (hheader : arrival.header = .error e) :
    Fed manager arrival none (manager.evictExpired arrival.now)
  | capped {header : FragmentHeader} (hheader : arrival.header = .ok header)
    (hcap : manager.maxPeerMemoryBytes
      < (manager.pendingFor arrival header).bytesStored + (payload arrival.fragment).length) :
    Fed manager arrival none
      ((manager.evictExpired arrival.now).drop arrival.peerId .memoryCapExceeded)
  | kept {header : FragmentHeader} {stored : PartialReassembly}
    (hheader : arrival.header = .ok header)
    (hstored : stored = manager.storedWith arrival header)
    (hcap : stored.bytesStored ≤ manager.maxPeerMemoryBytes)
    (hcount : len stored.fragments ≠ stored.expectedTotal.toNat) :
    Fed manager arrival none
      { manager.evictExpired arrival.now with
        partials := (manager.evictExpired arrival.now).partials.insert arrival.peerId stored }
  | last {header : FragmentHeader} {stored : PartialReassembly}
    {stats : AList fun _ : DropReason => Nat}
    (hheader : arrival.header = .ok header)
    (hstored : stored = manager.storedWith arrival header)
    (hcap : stored.bytesStored ≤ manager.maxPeerMemoryBytes)
    (hcount : len stored.fragments = stored.expectedTotal.toNat)
    (hstats : stats.lookup .memoryCapExceeded
      = (manager.evictExpired arrival.now).dropStats.lookup .memoryCapExceeded) :
    Fed manager arrival (checkCrc (stored.concat stored.expectedTotal))
      { manager.evictExpired arrival.now with
        partials := (manager.evictExpired arrival.now).partials.erase arrival.peerId
        dropStats := stats }

theorem fed (manager : L2capReassemblyManager) (arrival : Arrival) :
    Fed manager arrival (manager.answer arrival) (manager.feed arrival) := by
  unfold answer feed feedFragment
  split
  next e hheader => exact .malformed hheader
  next header hheader =>
    dsimp only
    split
    next hcap => exact .capped hheader hcap
    next hcap =>
      have hfits := Nat.le_of_not_lt hcap
      split
      next hcount =>
        split
        next hcheck =>
          rw [← hcheck]
          exact .last hheader rfl hfits hcount (lookup_insert_ne (by decide))
        next data hcheck =>
          rw [← hcheck]
          exact .last hheader rfl hfits hcount rfl
      next hcount => exact .kept hheader rfl hfits hcount

/-- What holds of every partial message and of one just opened holds of what a fragment meets. -/
theorem forall_pendingFor {P : PartialReassembly → Prop} {header : FragmentHeader}
    (hstored : ∀ pending, manager.partials.lookup arrival.peerId = some pending → P pending)
    (hopened : P (.opened header arrival.openedAt)) : P (manager.pendingFor arrival header) := by
  unfold pendingFor
  cases hlookup : (manager.evictExpired arrival.now).partials.lookup arrival.peerId with
  | none => exact hopened
  | some pending => exact hstored pending (lookup_of_lookup_evictExpired hlookup)

/-- What holds of every partial message, and of the one a fragment is kept in, holds after it. -/
theorem forall_partials_feed {P : String → PartialReassembly → Prop}
    (h : ∀ peer pending, manager.partials.lookup peer = some pending → P peer pending)
    (hkept : ∀ header, arrival.header = .ok header →
      let stored := manager.storedWith arrival header
      stored.bytesStored ≤ manager.maxPeerMemoryBytes →
      len stored.fragments ≠ stored.expectedTotal.toNat → P arrival.peerId stored) :
    ∀ peer pending, (manager.feed arrival).partials.lookup peer = some pending →
      P peer pending := by
  intro peer pending hlookup
  have hfed := fed manager arrival
  generalize manager.answer arrival = answer, manager.feed arrival = left at hfed hlookup
  cases hfed with
  | malformed => exact h peer pending (lookup_of_lookup_evictExpired hlookup)
  | capped =>
    exact h peer pending (lookup_of_lookup_evictExpired (lookup_of_lookup_erase hlookup))
  | kept hheader hstored hcap hcount =>
    subst hstored
    rcases lookup_insert_cases hlookup with ⟨rfl, rfl⟩ | ⟨_, hold⟩
    · exact hkept _ hheader hcap hcount
    · exact h peer pending (lookup_of_lookup_evictExpired hold)
  | last =>
    exact h peer pending (lookup_of_lookup_evictExpired (lookup_of_lookup_erase hlookup))

/-- Where the call leaves the peer whose fragment fits: it waits for more, or is done. -/
theorem answer_of_fits {header : FragmentHeader} {stored : PartialReassembly}
    (hheader : arrival.header = .ok header) (hstored : stored = manager.storedWith arrival header)
    (hcap : stored.bytesStored ≤ manager.maxPeerMemoryBytes) :
    manager.answer arrival = none ∧
        (manager.feed arrival).partials.lookup arrival.peerId = some stored ∧
        len stored.fragments ≠ stored.expectedTotal.toNat ∨
      manager.answer arrival = checkCrc (stored.concat stored.expectedTotal) ∧
        (manager.feed arrival).partials.lookup arrival.peerId = none ∧
        len stored.fragments = stored.expectedTotal.toNat := by
  subst hstored
  have hfed := fed manager arrival
  generalize manager.answer arrival = answer, manager.feed arrival = left at hfed ⊢
  cases hfed with
  | malformed herror =>
    rw [hheader] at herror
    cases herror
  | capped hheader' hover =>
    cases hheader.symm.trans hheader'
    exact absurd hcap (Nat.not_le.mpr hover)
  | kept hheader' hstored' _ hcount =>
    cases hheader.symm.trans hheader'
    subst hstored'
    exact .inl ⟨rfl, lookup_insert _, hcount⟩
  | last hheader' hstored' _ hcount =>
    cases hheader.symm.trans hheader'
    subst hstored'
    exact .inr ⟨rfl, lookup_erase _ _, hcount⟩

/-! ## Bytes that are stored and bytes that are counted -/

/-- Every partial message counts the bytes it stores. -/
def Accounted (manager : L2capReassemblyManager) : Prop :=
  ∀ peer pending, manager.partials.lookup peer = some pending →
    pending.bytesStored = pending.storedBytes

/-- The bytes stored for a peer. -/
def storedFor (manager : L2capReassemblyManager) (peer : String) : Nat :=
  ((manager.partials.lookup peer).map PartialReassembly.storedBytes).getD 0

/-- How often the memory cap was the reason to drop a partial message. -/
def capDrops (manager : L2capReassemblyManager) : Nat :=
  (manager.dropStats.lookup .memoryCapExceeded).getD 0

/-- If the fragment has a partial message dropped for the cap, the two really exceed it. -/
def DropsOverCap (manager : L2capReassemblyManager) (arrival : Arrival) : Prop :=
  (manager.feed arrival).capDrops ≠ manager.capDrops →
    manager.maxPeerMemoryBytes < (manager.evictExpired arrival.now).storedFor arrival.peerId
      + (payload arrival.fragment).length

/-- The fragment, if it is kept, takes the place of nothing but an empty payload. -/
def ReplacesNothing (manager : L2capReassemblyManager) (arrival : Arrival) : Prop :=
  ∀ header, arrival.header = .ok header →
    (manager.pendingFor arrival header).bytesStored + (payload arrival.fragment).length
      ≤ manager.maxPeerMemoryBytes →
    ∀ old, (manager.pendingFor arrival header).fragments.lookup header.fragmentIndex = some old →
      old = []

/-- What waits is not complete. -/
def Incomplete (manager : L2capReassemblyManager) : Prop :=
  ∀ peer pending, manager.partials.lookup peer = some pending →
    len pending.fragments ≠ pending.expectedTotal.toNat

theorem Incomplete.feed (h : manager.Incomplete) (arrival : Arrival) :
    (manager.feed arrival).Incomplete :=
  forall_partials_feed h fun _ _ _ hcount => hcount

/-- Storing keeps the count right when it replaces nothing but an empty payload. -/
theorem bytesStored_store_iff {pending : PartialReassembly} {header : FragmentHeader}
    {payload : Bytes} (h : pending.bytesStored = pending.storedBytes) :
    (pending.store header payload).bytesStored = (pending.store header payload).storedBytes ↔
      ∀ old, pending.fragments.lookup header.fragmentIndex = some old → old = [] := by
  have hinsert := sumValues_insert pending.fragments header.fragmentIndex payload List.length
  show pending.bytesStored + payload.length
    = sumValues (pending.fragments.insert header.fragmentIndex payload) List.length ↔ _
  rw [h, PartialReassembly.storedBytes]
  cases hold : pending.fragments.lookup header.fragmentIndex with
  | none => simp_all
  | some old =>
    rw [hold] at hinsert
    have hsum : sumValues (pending.fragments.insert header.fragmentIndex payload) List.length
        + old.length = sumValues pending.fragments List.length + payload.length := hinsert
    constructor
    · rintro heq _ ⟨⟩
      exact eq_nil_of_length_eq_zero (by omega)
    · grind

theorem accounted_pendingFor (h : manager.Accounted) (header : FragmentHeader) :
    (manager.pendingFor arrival header).bytesStored
      = (manager.pendingFor arrival header).storedBytes :=
  forall_pendingFor (P := fun pending => pending.bytesStored = pending.storedBytes) (h _) rfl

theorem accounted_feed_iff (h : manager.Accounted) (hincomplete : manager.Incomplete) :
    (manager.feed arrival).Accounted ↔ manager.ReplacesNothing arrival := by
  constructor
  · intro hafter header hheader hcap old hold
    -- a fragment that replaces another does not complete the message
    have hcount : len (manager.pendingFor arrival header).fragments
        ≠ (manager.pendingFor arrival header).expectedTotal.toNat := by
      revert hold
      exact forall_pendingFor (P := fun pending => pending.fragments.lookup _ = some old →
        len pending.fragments ≠ pending.expectedTotal.toNat)
        (fun pending hpending _ => hincomplete _ pending hpending) (fun hnone => nomatch hnone)
    have hmem : header.fragmentIndex ∈ (manager.pendingFor arrival header).fragments :=
      lookup_isSome.mp (by rw [hold]; rfl)
    rw [← len_insert_of_mem (payload arrival.fragment) hmem] at hcount
    rcases answer_of_fits hheader rfl hcap with ⟨_, hkept, _⟩ | ⟨_, _, hfull⟩
    · exact (bytesStored_store_iff (accounted_pendingFor h header)).mp (hafter _ _ hkept) old hold
    · exact absurd hfull hcount
  · intro hreplaces
    exact forall_partials_feed h fun header hheader hcap _ =>
      (bytesStored_store_iff (accounted_pendingFor h header)).mpr (hreplaces header hheader hcap)

theorem Accounted.dropsOverCap (h : manager.Accounted) (arrival : Arrival) :
    manager.DropsOverCap arrival := by
  have hevicted : (manager.evictExpired arrival.now).dropStats.lookup .memoryCapExceeded
      = manager.dropStats.lookup .memoryCapExceeded :=
    (foldl_drop_timeout _ manager).2.2.2 _ (by decide)
  intro hdrops
  unfold capDrops at hdrops
  have hfed := fed manager arrival
  generalize manager.answer arrival = answer, manager.feed arrival = left at hfed hdrops
  cases hfed with
  | malformed => exact absurd (congrArg (Option.getD · 0) hevicted) hdrops
  | capped hheader hcap =>
    rename_i header
    rw [accounted_pendingFor h header] at hcap
    refine Nat.lt_of_lt_of_le hcap (Nat.add_le_add_right (Nat.le_of_eq ?_) _)
    unfold pendingFor storedFor
    cases (manager.evictExpired arrival.now).partials.lookup arrival.peerId with
    | none => rfl
    | some pending => rfl
  | kept => exact absurd (congrArg (Option.getD · 0) hevicted) hdrops
  | last _ _ _ _ hstats =>
    exact absurd (congrArg (Option.getD · 0) (hstats.trans hevicted)) hdrops

/-- From the start, the counts are right throughout and fragments are dropped for the cap only when
they exceed it, exactly as long as no fragment takes the place of one that is not empty. -/
theorem accounted_run_iff (reassemblyTimeoutSecs : UInt64) (maxPeerMemoryBytes : Nat)
    (arrivals : List Arrival) :
    ((∀ before after, arrivals = before ++ after →
        (run feed (new reassemblyTimeoutSecs maxPeerMemoryBytes) before).Accounted) ∧
      Along feed DropsOverCap (new reassemblyTimeoutSecs maxPeerMemoryBytes) arrivals) ↔
    Along feed ReplacesNothing (new reassemblyTimeoutSecs maxPeerMemoryBytes) arrivals := by
  have hstart : (new reassemblyTimeoutSecs maxPeerMemoryBytes).Accounted := fun _ _ h => nomatch h
  have hincomplete : Along feed (fun manager _ => manager.Incomplete)
      (new reassemblyTimeoutSecs maxPeerMemoryBytes) arrivals :=
    along_iff.mpr fun before _ _ _ =>
      run_invariant_always (fun _ arrival h => h.feed arrival) before _ fun _ _ h => nomatch h
  have hstep : ∀ (manager : L2capReassemblyManager) (arrival : Arrival), manager.Accounted →
      manager.Incomplete → ((manager.feed arrival).Accounted ↔ manager.ReplacesNothing arrival) :=
    fun _ _ => accounted_feed_iff
  rw [← always_iff_along hstep arrivals _ hstart hincomplete]
  refine ⟨And.left, fun h => ⟨h, along_iff.mpr fun before arrival after heq => ?_⟩⟩
  exact (h before (arrival :: after) heq).dropsOverCap arrival

/-- A fragment of three bytes that comes twice counts six, and the next one, of five bytes, is
dropped for a cap of ten though eight are stored. -/
theorem duplicate_counted_twice :
    let first : Arrival := ⟨0, 0, "peer", numbered 3 0 [1, 2, 3]⟩
    let manager := run feed (new 30 10) [first, first]
    ¬ manager.Accounted ∧ ¬ manager.DropsOverCap ⟨0, 0, "peer", numbered 3 1 [4, 5, 6, 7, 8]⟩ := by
  refine ⟨fun h => ?_, fun h => ?_⟩
  · exact absurd (h "peer" _ rfl) (by decide)
  · exact absurd (h (by decide)) (by decide)

end L2capReassemblyManager

/-! ## Messages that are handed out -/

theorem length_appendCrc32 (data : Bytes) : (appendCrc32 data).length = data.length + 4 := by
  rw [appendCrc32, length_append, leBytes_length]

/-- Of what is long enough to be checked, a message passes exactly with its checksum. -/
theorem checkCrc_eq_some_iff {reassembled data : Bytes} (hlong : 4 ≤ reassembled.length) :
    checkCrc reassembled = some data ↔ reassembled = appendCrc32 data := by
  rw [checkCrc, if_pos hlong]
  dsimp only
  constructor
  · intro h
    split at h
    · cases h
    next hcrc =>
      cases h
      have hend : (reassembled.drop (reassembled.length - 4)).take 4
          = reassembled.drop (reassembled.length - 4) :=
        take_of_length_le (by rw [length_drop]; omega)
      have hlast : leBytes 4 (leAt 4 reassembled (reassembled.length - 4)) = _ :=
        leBytes_leAt (by omega)
      rw [not_not.mp hcrc, hend] at hlast
      rw [appendCrc32, hlast, take_append_drop]
  · intro h
    have hlen : reassembled.length - 4 = data.length := by
      rw [h, length_appendCrc32]
      omega
    have hdata : reassembled.take data.length = data := by rw [h, appendCrc32, take_left]
    have hcrc : leAt 4 reassembled data.length = (crc32 data).toNat :=
      leAt_of_drop (r := []) (by rw [h, appendCrc32, drop_left, append_nil])
        (crc32 data).toNat_lt
    rw [hlen, hdata, if_neg (not_not_intro hcrc)]

/-- A map with indices below `n` has `n` of them when it has them all. -/
theorem len_eq_toNat_iff {m : AList fun _ : UInt16 => Bytes} {n : UInt16}
    (h : ∀ index ∈ m, index < n) : len m = n.toNat ↔ ∀ index, index < n → index ∈ m := by
  have hnodup : (m.keys.map UInt16.toNat).Nodup :=
    (nodup_map_iff fun _ _ => UInt16.toNat_inj.mp).mpr m.keys_nodup
  have hsubset : m.keys.map UInt16.toNat ⊆ List.range n.toNat := by
    intro i hi
    obtain ⟨index, hindex, rfl⟩ := mem_map.mp hi
    exact mem_range.mpr (UInt16.lt_iff_toNat_lt.mp (h index (AList.mem_keys.mpr hindex)))
  have hlen : (m.keys.map UInt16.toNat).length = len m := by rw [length_map, length_keys]
  constructor
  · intro hcount index hindex
    have hperm := (subperm_of_subset hnodup hsubset).perm_of_length_le
      (by rw [hlen, hcount, length_range])
    obtain ⟨key, hkey, heq⟩ := mem_map.mp
      (hperm.mem_iff.mpr (mem_range.mpr (UInt16.lt_iff_toNat_lt.mp hindex)))
    exact AList.mem_keys.mpr (UInt16.toNat_inj.mp heq ▸ hkey)
  · intro hall
    have hperm : (m.keys.map UInt16.toNat).Perm (List.range n.toNat) := by
      refine (perm_ext_iff_of_nodup hnodup nodup_range).mpr fun i => ⟨(hsubset ·), ?_⟩
      intro hi
      have hlt := mem_range.mp hi
      have hi' : (UInt16.ofNat i).toNat = i :=
        UInt16.toNat_ofNat_of_lt' (Nat.lt_trans hlt n.toNat_lt)
      refine mem_map.mpr ⟨UInt16.ofNat i, AList.mem_keys.mp (hall _ ?_), hi'⟩
      rwa [UInt16.lt_iff_toNat_lt, hi']
    rw [← hlen, hperm.length_eq, length_range]

/-- The manager, and beside it, for each peer and index, the total announced by the fragment that
was stored there last. -/
structure Traced where
  manager : L2capReassemblyManager
  announced : String → UInt16 → UInt16

namespace Traced

/-- A new manager. -/
def new (reassemblyTimeoutSecs : UInt64) (maxPeerMemoryBytes : Nat) : Traced :=
  ⟨.new reassemblyTimeoutSecs maxPeerMemoryBytes, fun _ _ => 0⟩

def feed (traced : Traced) (arrival : Arrival) : Traced where
  manager := traced.manager.feed arrival
  announced peer index :=
    match arrival.header with
    | .ok header =>
      if peer = arrival.peerId ∧ index = header.fragmentIndex then header.totalFragments
      else traced.announced peer index
    | .error _ => traced.announced peer index

/-- If a message is handed out, its fragments were the indices below one total, every one of them
announced that total, and they are the message and its checksum. -/
def Sound (traced : Traced) (arrival : Arrival) : Prop :=
  ∀ data, traced.manager.answer arrival = some data → ∃ header total,
    arrival.header = .ok header ∧
    (∀ index, index ∈ (traced.manager.storedWith arrival header).fragments ↔ index < total) ∧
    (traced.manager.storedWith arrival header).concat total = appendCrc32 data ∧
    ∀ index ∈ (traced.manager.storedWith arrival header).fragments,
      (traced.feed arrival).announced arrival.peerId index = total

/-- If the fragment fits and its peer then has as many as expected, they are four bytes or more,
and the fragment and every one that is stored announce the total that is expected. -/
def Consistent (traced : Traced) (arrival : Arrival) : Prop :=
  ∀ header, arrival.header = .ok header →
    let pending := traced.manager.pendingFor arrival header
    let stored := traced.manager.storedWith arrival header
    stored.bytesStored ≤ traced.manager.maxPeerMemoryBytes →
    len stored.fragments = pending.expectedTotal.toNat →
      4 ≤ (stored.concat pending.expectedTotal).length ∧
      header.totalFragments = pending.expectedTotal ∧
      ∀ index ∈ pending.fragments,
        traced.announced arrival.peerId index = pending.expectedTotal

/-- Stored fragments have an index below the total they announced. -/
def Valid (traced : Traced) : Prop :=
  ∀ peer pending, traced.manager.partials.lookup peer = some pending →
    ∀ index ∈ pending.fragments, index < traced.announced peer index

variable {traced : Traced} {arrival : Arrival}

theorem lt_announced_feed {peer : String} {index : UInt16}
    (h : index < traced.announced peer index) :
    index < (traced.feed arrival).announced peer index := by
  unfold feed
  dsimp only
  split
  next header _ =>
    split
    next hsame => exact hsame.2 ▸ header.index_lt
    next => exact h
  next => exact h

theorem announced_feed {header : FragmentHeader} (hheader : arrival.header = .ok header)
    (index : UInt16) : (traced.feed arrival).announced arrival.peerId index
      = if index = header.fragmentIndex then header.totalFragments
        else traced.announced arrival.peerId index := by
  unfold feed
  rw [hheader]
  simp only [true_and]

theorem Valid.storedWith (h : traced.Valid) {header : FragmentHeader}
    (hheader : arrival.header = .ok header) :
    ∀ index ∈ (traced.manager.storedWith arrival header).fragments,
      index < (traced.feed arrival).announced arrival.peerId index := by
  intro index hindex
  rcases (mem_insert _).mp hindex with rfl | hold
  · rw [announced_feed hheader, if_pos rfl]
    exact header.index_lt
  · refine lt_announced_feed ?_
    revert hold
    exact L2capReassemblyManager.forall_pendingFor
      (P := fun pending => index ∈ pending.fragments → index < traced.announced _ index)
      (fun pending hpending => h _ pending hpending index) (fun hnone => nomatch hnone)

theorem Valid.feed (h : traced.Valid) (arrival : Arrival) : (traced.feed arrival).Valid :=
  L2capReassemblyManager.forall_partials_feed
    (fun peer pending hpending index hindex =>
      lt_announced_feed (h peer pending hpending index hindex))
    fun _ hheader _ _ => h.storedWith hheader

end Traced

/-- A message that is handed out is complete and has passed the check. -/
theorem L2capReassemblyManager.exists_of_answer_eq_some {manager : L2capReassemblyManager}
    {arrival : Arrival} {data : Bytes} (h : manager.answer arrival = some data) :
    ∃ header, arrival.header = .ok header ∧
      (manager.storedWith arrival header).bytesStored ≤ manager.maxPeerMemoryBytes ∧
      len (manager.storedWith arrival header).fragments
        = (manager.storedWith arrival header).expectedTotal.toNat ∧
      checkCrc ((manager.storedWith arrival header).concat
        (manager.storedWith arrival header).expectedTotal) = some data := by
  have hfed := fed manager arrival
  generalize manager.answer arrival = answer, manager.feed arrival = left at hfed h
  cases hfed with
  | malformed => cases h
  | capped => cases h
  | kept => cases h
  | last hheader hstored hcap hcount =>
    subst hstored
    exact ⟨_, hheader, hcap, hcount, h⟩

theorem Traced.Consistent.sound {traced : Traced} {arrival : Arrival} (hvalid : traced.Valid)
    (hconsistent : traced.Consistent arrival) : traced.Sound arrival := by
  intro data hdata
  obtain ⟨header, hheader, hcap, hcount, hcheck⟩ :=
    L2capReassemblyManager.exists_of_answer_eq_some hdata
  obtain ⟨hlong, htotal, hearlier⟩ := hconsistent header hheader hcap hcount
  have hannounced : ∀ index ∈ (traced.manager.storedWith arrival header).fragments,
      (traced.feed arrival).announced arrival.peerId index
        = (traced.manager.storedWith arrival header).expectedTotal := by
    intro index hindex
    rw [announced_feed hheader]
    split
    next => exact htotal
    next hother => exact hearlier index (((mem_insert _).mp hindex).resolve_left hother)
  have hbelow : ∀ index ∈ (traced.manager.storedWith arrival header).fragments,
      index < (traced.manager.storedWith arrival header).expectedTotal := by
    intro index hindex
    rw [← hannounced index hindex]
    exact hvalid.storedWith hheader index hindex
  have hall := (len_eq_toNat_iff hbelow).mp hcount
  exact ⟨header, _, hheader, fun index => ⟨hbelow index, hall index⟩,
    (checkCrc_eq_some_iff hlong).mp hcheck, hannounced⟩

/-- **When a message that is handed out is sound.** Whatever is sent to a new manager: if every
fragment that completes a message leaves at least four bytes and agrees on the total with all that
are stored, then every message that is handed out is complete, in order and checked. -/
theorem Traced.sound_of_consistent (reassemblyTimeoutSecs : UInt64) (maxPeerMemoryBytes : Nat)
    (arrivals : List Arrival)
    (h : Along Traced.feed Traced.Consistent (.new reassemblyTimeoutSecs maxPeerMemoryBytes)
      arrivals) :
    Along Traced.feed Traced.Sound (.new reassemblyTimeoutSecs maxPeerMemoryBytes) arrivals := by
  have hstart : (Traced.new reassemblyTimeoutSecs maxPeerMemoryBytes).Valid :=
    fun _ _ h => nomatch h
  have hvalid (before : List Arrival) :
      (run Traced.feed (.new reassemblyTimeoutSecs maxPeerMemoryBytes) before).Valid :=
    run_invariant_always (fun _ arrival h => h.feed arrival) before _ hstart
  rw [along_iff] at h ⊢
  exact fun before arrival after heq => (h before arrival after heq).sound (hvalid before)

/-- A message of one byte in two fragments: the byte, and its checksum. -/
def twoFragments : List Arrival :=
  [⟨0, 0, "peer", numbered 2 0 [7]⟩,
    ⟨1, 1, "peer", numbered 2 1 (leBytes 4 (crc32 [7]).toNat)⟩]

theorem sound_twoFragments :
    Along Traced.feed Traced.Sound (.new 30 1000) twoFragments ∧
      (run Traced.feed (.new 30 1000) (twoFragments.take 1)).manager.answer
        ⟨1, 1, "peer", numbered 2 1 (leBytes 4 (crc32 [7]).toNat)⟩ = some [7] := by
  refine ⟨Traced.sound_of_consistent 30 1000 twoFragments ⟨?_, ?_, trivial⟩, by decide +kernel⟩
  · intro header hheader pending stored _ hcount
    obtain rfl := Except.ok.inj (hheader.symm.trans rfl)
    exact absurd hcount (by decide +kernel)
  · intro header hheader pending stored _ _
    obtain rfl := Except.ok.inj (hheader.symm.trans rfl)
    have hkeys : pending.fragments.keys = [0] := by decide +kernel
    refine ⟨by decide +kernel, by decide +kernel, fun index hindex => ?_⟩
    rw [AList.mem_keys, hkeys, mem_singleton] at hindex
    rw [hindex]
    decide +kernel

/-- Three bytes without a checksum are handed out. So is the first of two fragments, when the other
one that came is the fourth of five: the second never comes. -/
theorem unsound_messages :
    (Traced.new 30 1000).manager.answer ⟨0, 0, "peer", numbered 1 0 [1, 2, 3]⟩
      = some [1, 2, 3] ∧
    ¬ (Traced.new 30 1000).Sound ⟨0, 0, "peer", numbered 1 0 [1, 2, 3]⟩ ∧
    let traced := (Traced.new 30 1000).feed ⟨0, 0, "peer", numbered 2 0 (appendCrc32 [7])⟩
    traced.manager.answer ⟨0, 0, "peer", numbered 5 3 [9]⟩ = some [7] ∧
    ¬ traced.Sound ⟨0, 0, "peer", numbered 5 3 [9]⟩ := by
  refine ⟨by decide +kernel, fun h => ?_, by decide +kernel, fun h => ?_⟩
  · obtain ⟨header, total, hheader, _, hconcat, hannounced⟩ := h [1, 2, 3] (by decide +kernel)
    obtain rfl := Except.ok.inj (hheader.symm.trans rfl)
    -- the one fragment announced a total of one, and it has no checksum
    obtain rfl := hannounced 0 (by decide +kernel)
    exact absurd hconcat (by decide +kernel)
  · obtain ⟨header, total, hheader, _, _, hannounced⟩ := h [7] (by decide +kernel)
    obtain rfl := Except.ok.inj (hheader.symm.trans rfl)
    -- the first fragment announced two, the other one five
    exact absurd ((hannounced 0 (by decide +kernel)).trans (hannounced 3 (by decide +kernel)).symm)
      (by decide +kernel)

end Scm.Transport.Ble
