import Scm.Transport.Ble.Reassembly

/-!
# Fragments in any order, among those of other peers

A peer sends a message with its CRC32 through `L2capFragmenter::fragment`; the fragments reach
the manager in some order, and between them anything may come from other peers.
`answersTo_fragments` says that the peer's fragments are answered with nothing until the last one
and that one with the message, and that nothing is left of it.

`Awaiting` is the state on the way: the pieces that have come are stored under their indices
(`Collected`) and those still to come are the rest of the arrivals from this peer. A fragment of
another peer leaves it as it is (`Awaiting.other`), since the partial message is not old enough to
be evicted before the peer's last fragment; one of the peer moves a piece from the one side to the
other (`Awaiting.own`).
-/

namespace Scm.Transport.Ble

open List Bytes Chunks Collections Runs L2capReassemblyManager

/-- The fragments of one peer. -/
def sentBy (peer : String) (arrivals : List Arrival) : List Arrival :=
  arrivals.filter fun arrival => arrival.peerId = peer

theorem sentBy_cons_self {arrival : Arrival} {peer : String} (h : arrival.peerId = peer)
    (arrivals : List Arrival) :
    sentBy peer (arrival :: arrivals) = arrival :: sentBy peer arrivals :=
  filter_cons_of_pos (decide_eq_true h)

theorem sentBy_cons_ne {arrival : Arrival} {peer : String} (h : arrival.peerId ≠ peer)
    (arrivals : List Arrival) : sentBy peer (arrival :: arrivals) = sentBy peer arrivals :=
  filter_cons_of_neg (by rwa [decide_eq_true_eq])

/-! ## The pieces that have come -/

/-- The pieces that have come are stored under their indices, and nothing else is. -/
structure Collected (k : Nat) (message : Bytes) (done : List Nat)
    (pending : PartialReassembly) : Prop where
  total : pending.expectedTotal.toNat = chunkCount k message
  lookup : ∀ index : UInt16, pending.fragments.lookup index
    = if index.toNat ∈ done then some (chunkAt k message index.toNat) else none
  count : len pending.fragments = done.length
  bytes : pending.bytesStored = (done.map fun i => (chunkAt k message i).length).sum

namespace Collected

variable {k : Nat} {message : Bytes} {done : List Nat} {pending : PartialReassembly}
  {header : FragmentHeader}

theorem opened (h : header.totalFragments.toNat = chunkCount k message) (now : Nat) :
    Collected k message [] (.opened header now) where
  total := h
  lookup _ := (if_neg not_mem_nil).symm
  count := rfl
  bytes := rfl

theorem store (h : Collected k message done pending) (hnew : header.fragmentIndex.toNat ∉ done) :
    Collected k message (header.fragmentIndex.toNat :: done)
      (pending.store header (chunkAt k message header.fragmentIndex.toNat)) where
  total := h.total
  lookup index := by
    show (pending.fragments.insert _ _).lookup index = _
    by_cases hindex : index = header.fragmentIndex
    · rw [hindex, AList.lookup_insert, if_pos mem_cons_self]
    · have hne : index.toNat ≠ header.fragmentIndex.toNat :=
        fun heq => hindex (UInt16.toNat_inj.mp heq)
      rw [AList.lookup_insert_ne hindex, h.lookup]
      simp only [mem_cons, hne, false_or]
  count := by
    have hnone : header.fragmentIndex ∉ pending.fragments := by
      rw [← AList.lookup_eq_none, h.lookup, if_neg hnew]
    exact (len_insert_of_notMem _ hnone).trans (congrArg (· + 1) h.count)
  bytes := by
    show pending.bytesStored + _ = _
    rw [h.bytes, map_cons, sum_cons, Nat.add_comm]

theorem concat_eq (h : Collected k message done pending) (hk : 0 < k)
    (hdone : done.Perm (List.range (chunkCount k message))) :
    pending.concat pending.expectedTotal = message := by
  have hpiece : ∀ i ∈ List.range (chunkCount k message),
      (pending.fragments.lookup (UInt16.ofNat i)).getD [] = chunkAt k message i := by
    intro i hi
    have hlt : i < 65536 :=
      Nat.lt_trans (mem_range.mp hi) (h.total ▸ pending.expectedTotal.toNat_lt)
    rw [h.lookup, UInt16.toNat_ofNat_of_lt' hlt, if_pos (hdone.mem_iff.mpr hi), Option.getD_some]
  rw [PartialReassembly.concat, h.total, flatMap_congr hpiece, flatMap_def]
  exact flatten_chunks hk message

end Collected

/-- Some of the pieces, and those still to come, are no longer than the message. -/
theorem sum_length_le_of_perm {k : Nat} (hk : 0 < k) {message : Bytes} {done todo : List Nat}
    (h : (done ++ todo).Perm (List.range (chunkCount k message))) :
    (done.map fun i => (chunkAt k message i).length).sum ≤ message.length := by
  have hsum := (h.map fun i => (chunkAt k message i).length).sum_nat
  rw [sum_length_chunkAt hk, map_append, sum_append] at hsum
  omega

namespace L2capReassemblyManager

variable {manager : L2capReassemblyManager} {arrival : Arrival} {peer : String}

/-- What the fragments of one peer are answered. -/
def answersTo (peer : String) :
    L2capReassemblyManager → List Arrival → List (Option Bytes)
  | _, [] => []
  | manager, arrival :: arrivals =>
    if arrival.peerId = peer then
      manager.answer arrival :: answersTo peer (manager.feed arrival) arrivals
    else answersTo peer (manager.feed arrival) arrivals

theorem config_feed (manager : L2capReassemblyManager) (arrival : Arrival) :
    (manager.feed arrival).reassemblyTimeout = manager.reassemblyTimeout ∧
      (manager.feed arrival).maxPeerMemoryBytes = manager.maxPeerMemoryBytes := by
  have hfed := fed manager arrival
  generalize manager.answer arrival = answer, manager.feed arrival = left at hfed ⊢
  cases hfed <;>
    exact ⟨reassemblyTimeout_evictExpired _, maxPeerMemoryBytes_evictExpired _⟩

theorem lookup_feed_of_ne (h : arrival.peerId ≠ peer) :
    (manager.feed arrival).partials.lookup peer
      = (manager.evictExpired arrival.now).partials.lookup peer := by
  have hfed := fed manager arrival
  generalize manager.answer arrival = answer, manager.feed arrival = left at hfed ⊢
  cases hfed with
  | malformed => rfl
  | capped => exact AList.lookup_erase_ne h.symm
  | kept => exact AList.lookup_insert_ne h.symm
  | last => exact AList.lookup_erase_ne h.symm

/-- A peer without a partial message that sends nothing has none afterwards. -/
theorem quiet (arrivals : List Arrival) :
    ∀ manager : L2capReassemblyManager, manager.partials.lookup peer = none →
      sentBy peer arrivals = [] →
      answersTo peer manager arrivals = [] ∧
        (run feed manager arrivals).partials.lookup peer = none := by
  induction arrivals with
  | nil => exact fun manager hnone _ => ⟨rfl, hnone⟩
  | cons arrival arrivals ih =>
    intro manager hnone hsent
    have hother : arrival.peerId ≠ peer := by grind [sentBy_cons_self]
    have hstays : (manager.feed arrival).partials.lookup peer = none := by
      rw [lookup_feed_of_ne hother, lookup_evictExpired, hnone]
      rfl
    rw [sentBy_cons_ne hother] at hsent
    rw [answersTo, if_neg hother, run_cons]
    exact ih _ hstays hsent

end L2capReassemblyManager

/-! ## On the way -/

/-- The pieces `done` of the message have come from the peer, the pieces `todo` are still among the
arrivals, in time and with room for them. -/
structure Awaiting (peer : String) (k : Nat) (message : Bytes) (manager : L2capReassemblyManager)
    (arrivals : List Arrival) (done todo : List Nat) :
    Prop where
  sent : (sentBy peer arrivals).map Arrival.fragment
    = todo.map fun i => numbered (chunkCount k message) i (chunkAt k message i)
  order : (done ++ todo).Perm (List.range (chunkCount k message))
  clock : arrivals.Pairwise fun earlier later => earlier.now ≤ later.now
  prompt : ∀ first ∈ sentBy peer arrivals, ∀ later ∈ sentBy peer arrivals,
    later.now - first.openedAt ≤ manager.reassemblyTimeout
  room : message.length ≤ manager.maxPeerMemoryBytes
  opened : ∀ pending, manager.partials.lookup peer = some pending →
    Collected k message done pending ∧
    ∀ later ∈ sentBy peer arrivals, later.now - pending.receivedAt ≤ manager.reassemblyTimeout
  unopened : manager.partials.lookup peer = none → done = []

namespace Awaiting

variable {peer : String} {k : Nat} {message : Bytes} {manager : L2capReassemblyManager}
  {arrival : Arrival} {arrivals : List Arrival} {done todo : List Nat} {i : Nat}

section
variable (h : Awaiting peer k message manager (arrival :: arrivals) done todo)
include h

/-- While the peer has something to send, an arrival finds its partial message in time. -/
theorem lookup_evictExpired_eq (htodo : todo ≠ []) :
    (manager.evictExpired arrival.now).partials.lookup peer = manager.partials.lookup peer := by
  rw [lookup_evictExpired]
  cases hlookup : manager.partials.lookup peer with
  | none => rfl
  | some pending =>
    rw [Option.filter_some, if_pos]
    have hsent : sentBy peer (arrival :: arrivals) ≠ [] := fun hnil => htodo <|
      map_eq_nil_iff.mp (h.sent.symm.trans (by rw [hnil, map_nil]))
    obtain ⟨later, hlater⟩ := exists_mem_of_ne_nil _ hsent
    have hyoung := (h.opened pending hlookup).2 later hlater
    have hnow : arrival.now ≤ later.now := by
      rcases mem_cons.mp (mem_of_mem_filter hlater) with rfl | hmem
      · exact Nat.le_refl _
      · exact (pairwise_cons.mp h.clock).1 later hmem
    exact decide_eq_true (by omega)

theorem other (htodo : todo ≠ []) (hother : arrival.peerId ≠ peer) :
    Awaiting peer k message (manager.feed arrival) arrivals done todo := by
  obtain ⟨htimeout, hcap⟩ := manager.config_feed arrival
  have hlookup : (manager.feed arrival).partials.lookup peer = manager.partials.lookup peer := by
    rw [lookup_feed_of_ne hother, h.lookup_evictExpired_eq htodo]
  have hsent := sentBy_cons_ne hother arrivals
  exact {
    sent := hsent ▸ h.sent
    order := h.order
    clock := (pairwise_cons.mp h.clock).2
    prompt := by rw [htimeout, ← hsent]; exact h.prompt
    room := by rw [hcap]; exact h.room
    opened := by rw [hlookup, htimeout, ← hsent]; exact h.opened
    unopened := by rw [hlookup]; exact h.unopened }

end

theorem pendingFor (h : Awaiting peer k message manager (arrival :: arrivals) done (i :: todo))
    (hpeer : arrival.peerId = peer) {header : FragmentHeader}
    (htotal : header.totalFragments.toNat = chunkCount k message) :
    Collected k message done (manager.pendingFor arrival header) ∧
    ∀ later ∈ sentBy peer arrivals,
      later.now - (manager.pendingFor arrival header).receivedAt ≤ manager.reassemblyTimeout := by
  have hsent := sentBy_cons_self hpeer arrivals
  rw [L2capReassemblyManager.pendingFor, hpeer, h.lookup_evictExpired_eq (cons_ne_nil _ _)]
  cases hlookup : manager.partials.lookup peer with
  | none =>
    rw [h.unopened hlookup]
    refine ⟨.opened htotal _, fun later hlater => ?_⟩
    exact h.prompt arrival (hsent ▸ mem_cons_self) later
      (hsent ▸ mem_cons_of_mem _ hlater)
  | some pending =>
    obtain ⟨hcollected, hyoung⟩ := h.opened pending hlookup
    exact ⟨hcollected, fun later hlater => hyoung later (hsent ▸ mem_cons_of_mem _ hlater)⟩

theorem order_cons (h : Awaiting peer k message manager arrivals done (i :: todo)) :
    (i :: done ++ todo).Perm (List.range (chunkCount k message)) :=
  perm_middle.symm.trans h.order

section
variable (h : Awaiting peer k message manager (arrival :: arrivals) done (i :: todo))
include h

section
variable (hk : 0 < k) (hcount : chunkCount k message ≤ 65535) (hpeer : arrival.peerId = peer)
include hk hcount hpeer

/-- With the peer's next fragment, one more piece is stored, and there was room for it. -/
theorem storedWith :
    ∃ header, arrival.header = .ok header ∧
      Collected k message (i :: done) (manager.storedWith arrival header) ∧
      (manager.storedWith arrival header).bytesStored ≤ manager.maxPeerMemoryBytes ∧
      ∀ later ∈ sentBy peer arrivals,
        later.now - (manager.storedWith arrival header).receivedAt ≤ manager.reassemblyTimeout := by
  have hi : i < chunkCount k message :=
    mem_range.mp (h.order_cons.mem_iff.mp mem_cons_self)
  have hfragment : arrival.fragment
      = numbered (chunkCount k message) i (chunkAt k message i) := by
    have hsent := h.sent
    rw [sentBy_cons_self hpeer] at hsent
    exact (List.cons.inj hsent).1
  have hindex := toNat_fragmentIndex_headerAt hi hcount
  have hnew : (headerAt hi hcount).fragmentIndex.toNat ∉ done := by
    have hnodup := h.order_cons.nodup_iff.mpr nodup_range
    rw [hindex]
    exact fun hmem => (nodup_cons.mp hnodup).1 (mem_append_left todo hmem)
  obtain ⟨hcollected, hyoung⟩ := h.pendingFor hpeer (toNat_totalFragments_headerAt hi hcount)
  have hstored : Collected k message (i :: done)
      (manager.storedWith arrival (headerAt hi hcount)) := by
    have hstore := hcollected.store hnew
    rwa [hindex, ← payload_numbered hi hcount (chunkAt k message i), ← hfragment] at hstore
  refine ⟨headerAt hi hcount, ?_, hstored, ?_, hyoung⟩
  · rw [Arrival.header, hfragment, fromBytes_numbered _ hi hcount]
  · rw [hstored.bytes]
    exact Nat.le_trans (sum_length_le_of_perm hk h.order_cons) h.room

/-- The peer's next fragment is stored: it waits for more, or the message is there. -/
theorem own :
    manager.answer arrival = none ∧ todo ≠ [] ∧
        Awaiting peer k message (manager.feed arrival) arrivals (i :: done) todo ∨
      manager.answer arrival = checkCrc message ∧ todo = [] ∧
        (manager.feed arrival).partials.lookup peer = none := by
  obtain ⟨header, hheader, hstored, hcap, hyoung⟩ := h.storedWith hk hcount hpeer
  have hlen : done.length + 1 + todo.length = chunkCount k message := by
    rw [← length_cons, ← length_append, h.order_cons.length_eq, length_range]
  have hsent := sentBy_cons_self hpeer arrivals
  rcases answer_of_fits hheader rfl hcap with
    ⟨hanswer, hlookup, hwaits⟩ | ⟨hanswer, hlookup, hfull⟩
  · rw [hstored.count, hstored.total, length_cons] at hwaits
    have htodo : todo ≠ [] := by
      rintro rfl
      exact hwaits hlen
    obtain ⟨htimeout, hcap⟩ := manager.config_feed arrival
    rw [hpeer] at hlookup
    refine .inl ⟨hanswer, htodo, ?_⟩
    exact {
      sent := (List.cons.inj ((congrArg (List.map _) hsent).symm.trans h.sent)).2
      order := h.order_cons
      clock := (pairwise_cons.mp h.clock).2
      prompt := by
        rw [htimeout]
        intro first hfirst later hlater
        exact h.prompt first (hsent ▸ mem_cons_of_mem _ hfirst) later
          (hsent ▸ mem_cons_of_mem _ hlater)
      room := by rw [hcap]; exact h.room
      opened := by
        rw [hlookup, htimeout]
        rintro _ ⟨⟩
        exact ⟨hstored, hyoung⟩
      unopened := by rw [hlookup]; exact fun hnone => nomatch hnone }
  · rw [hstored.count, hstored.total, length_cons] at hfull
    have hnil : todo = [] := eq_nil_of_length_eq_zero (by omega)
    have hall := h.order_cons
    rw [hnil, append_nil] at hall
    rw [hpeer] at hlookup
    exact .inr ⟨hanswer.trans (congrArg checkCrc (hstored.concat_eq hk hall)), hnil, hlookup⟩

end

end

/-- The peer's fragments are answered with nothing, and the last one with the message. -/
theorem answersTo_eq (hk : 0 < k) (hcount : chunkCount k message ≤ 65535) :
    ∀ {arrivals : List Arrival} {manager : L2capReassemblyManager} {done todo : List Nat},
      Awaiting peer k message manager arrivals done todo → todo ≠ [] →
      manager.answersTo peer arrivals
          = List.replicate (todo.length - 1) none ++ [checkCrc message] ∧
        (run L2capReassemblyManager.feed manager arrivals).partials.lookup peer = none := by
  intro arrivals
  induction arrivals with
  | nil =>
    intro manager done todo h htodo
    exact absurd (map_eq_nil_iff.mp h.sent.symm) htodo
  | cons arrival arrivals ih =>
    intro manager done todo h htodo
    rw [run_cons, L2capReassemblyManager.answersTo]
    by_cases hpeer : arrival.peerId = peer
    · obtain ⟨i, rest, rfl⟩ := exists_cons_of_ne_nil htodo
      rw [if_pos hpeer, length_cons, Nat.add_sub_cancel]
      rcases h.own hk hcount hpeer with ⟨hanswer, hrest, hnext⟩ | ⟨hanswer, rfl, hnone⟩
      · obtain ⟨hanswers, hleft⟩ := ih hnext hrest
        obtain ⟨n, hn⟩ := Nat.exists_eq_succ_of_ne_zero
          (fun h0 => hrest (eq_nil_of_length_eq_zero h0))
        rw [hanswer, hanswers, hn, replicate_succ]
        exact ⟨rfl, hleft⟩
      · have hsent := h.sent
        rw [sentBy_cons_self hpeer, map_cons, map_cons] at hsent
        obtain ⟨hanswers, hleft⟩ := L2capReassemblyManager.quiet arrivals _ hnone
          (map_eq_nil_iff.mp (List.cons.inj hsent).2)
        rw [hanswer, hanswers]
        exact ⟨rfl, hleft⟩
    · rw [if_neg hpeer]
      exact ih (h.other htodo hpeer) htodo

end Awaiting

/-- A message and its CRC32, cut for any MTU, arrive in any order among the fragments of other
peers, from the first to the last within the timeout and in all within the cap. -/
theorem answersTo_fragments (manager : L2capReassemblyManager) (fragmenter : L2capFragmenter)
    (peer : String) (data : Bytes) (fragments : List Bytes) (arrivals : List Arrival)
    (hidle : manager.partials.lookup peer = none)
    (hfragments : fragmenter.fragment (appendCrc32 data) = .ok fragments)
    (hsent : ((sentBy peer arrivals).map Arrival.fragment).Perm fragments)
    (hclock : arrivals.Pairwise fun earlier later => earlier.now ≤ later.now)
    (hprompt : ∀ first ∈ sentBy peer arrivals, ∀ later ∈ sentBy peer arrivals,
      later.now - first.openedAt ≤ manager.reassemblyTimeout)
    (hroom : data.length + 4 ≤ manager.maxPeerMemoryBytes) :
    manager.answersTo peer arrivals
        = List.replicate (fragments.length - 1) none ++ [some data] ∧
      (run L2capReassemblyManager.feed manager arrivals).partials.lookup peer = none := by
  have hk := fragmenter.maxPayloadPerFragment_pos
  have hlen := length_appendCrc32 data
  have hmessage : appendCrc32 data ≠ [] := fun h => by rw [h] at hlen; cases hlen
  rw [L2capFragmenter.fragment, fragment_eq _ _ _ hmessage] at hfragments
  split at hfragments
  · cases hfragments
  next hcount =>
    cases hfragments
    have hcount := Nat.le_of_not_lt hcount
    obtain ⟨order, horder, hsent⟩ := exists_perm_map hsent
    have hawaiting : Awaiting peer fragmenter.maxPayloadPerFragment (appendCrc32 data) manager
        arrivals [] order :=
      { sent := hsent
        order := horder
        clock := hclock
        prompt := hprompt
        room := by rw [hlen]; exact hroom
        opened := by rw [hidle]; exact fun _ h => nomatch h
        unopened := fun _ => rfl }
    have horderlen : order.length
        = chunkCount fragmenter.maxPayloadPerFragment (appendCrc32 data) := by
      rw [horder.length_eq, length_range]
    have hne : order ≠ [] := by grind [chunkCount_pos]
    have hcheck : checkCrc (appendCrc32 data) = some data :=
      (checkCrc_eq_some_iff (by rw [hlen]; omega)).mpr rfl
    rw [length_fragmentsOf, ← horderlen, ← hcheck]
    exact hawaiting.answersTo_eq hk hcount hne

/-- Twenty bytes over an MTU of 23: the second fragment comes first, then one of another peer. -/
theorem answersTo_fragments_swapped :
    let data := List.replicate 20 7
    let piece := fun i => numbered 2 i (chunkAt 19 (appendCrc32 data) i)
    withDefaults.answersTo "alice"
        [⟨1, 1, "alice", piece 1⟩, ⟨2, 2, "bob", [1, 0, 0]⟩, ⟨3, 3, "alice", piece 0⟩]
      = [none, some data] := by
  have hpieces : fragmentsOf 19 (appendCrc32 (List.replicate 20 7)) = [0, 1].map fun i =>
      numbered 2 i (chunkAt 19 (appendCrc32 (List.replicate 20 7)) i) := by decide +kernel
  exact (answersTo_fragments .withDefaults ⟨{ mtu := 23 }, rfl⟩ "alice" (List.replicate 20 7)
    (fragmentsOf 19 (appendCrc32 (List.replicate 20 7))) _ rfl (by decide +kernel)
    (hpieces ▸ List.Perm.swap _ _ []) (by decide) (by decide) (by decide)).1

/-! ## The memory of a peer -/

namespace L2capReassemblyManager

/-- The count of a peer is not too low, and within the cap. -/
def Capped (cap : Nat) (manager : L2capReassemblyManager) : Prop :=
  manager.maxPeerMemoryBytes = cap ∧
    ∀ peer pending, manager.partials.lookup peer = some pending →
      pending.storedBytes ≤ pending.bytesStored ∧ pending.bytesStored ≤ cap

theorem Capped.feed {cap : Nat} {manager : L2capReassemblyManager} (h : manager.Capped cap)
    (arrival : Arrival) : (manager.feed arrival).Capped cap := by
  refine ⟨(config_feed manager arrival).2.trans h.1, ?_⟩
  refine forall_partials_feed h.2 fun header _ hcap _ => ⟨?_, h.1 ▸ hcap⟩
  have hbefore : (manager.pendingFor arrival header).storedBytes
      ≤ (manager.pendingFor arrival header).bytesStored :=
    forall_pendingFor (P := fun pending => pending.storedBytes ≤ pending.bytesStored)
      (fun pending hpending => (h.2 _ pending hpending).1) (Nat.le_refl 0)
  -- what the fragment replaces is still counted
  have hinsert := sumValues_insert (manager.pendingFor arrival header).fragments
    header.fragmentIndex (payload arrival.fragment) List.length
  exact Nat.le_trans (Nat.le.intro hinsert) (Nat.add_le_add_right hbefore _)

theorem Capped.storedFor_le {cap : Nat} {manager : L2capReassemblyManager} (h : manager.Capped cap)
    (peer : String) : manager.storedFor peer ≤ cap := by
  unfold storedFor
  cases hpending : manager.partials.lookup peer with
  | none => exact Nat.zero_le _
  | some pending =>
    obtain ⟨hcount, hcap⟩ := h.2 peer pending hpending
    exact Nat.le_trans hcount hcap

/-- **The cap holds whatever comes.** A fragment that comes twice is counted twice, so the count of
a peer can be too high. It is never too low, and no peer's fragments ever take up more than the
cap. -/
theorem capped_run (reassemblyTimeoutSecs : UInt64) (maxPeerMemoryBytes : Nat)
    (arrivals : List Arrival) :
    (run feed (new reassemblyTimeoutSecs maxPeerMemoryBytes) arrivals).Capped maxPeerMemoryBytes ∧
      ∀ peer, (run feed (new reassemblyTimeoutSecs maxPeerMemoryBytes) arrivals).storedFor peer
        ≤ maxPeerMemoryBytes := by
  have hrun : (run feed (new reassemblyTimeoutSecs maxPeerMemoryBytes) arrivals).Capped
      maxPeerMemoryBytes :=
    run_invariant_always (fun _ arrival h => h.feed arrival) arrivals _
      ⟨rfl, fun _ _ h => nomatch h⟩
  exact ⟨hrun, hrun.storedFor_le⟩

end L2capReassemblyManager

end Scm.Transport.Ble
