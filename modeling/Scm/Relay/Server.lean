import Scm.Bytes
import Scm.Collections
import Scm.Runs

/-!
# The relay server's mailboxes — `core/src/relay/server.rs`

A relay server keeps envelopes for peers that are offline: one queue for each peer, with the
time each envelope came in. `store_for_peer` appends as long as there is room,
`get_stored_for` hands out the envelopes from a given time on, and `cleanup_expired` drops the
ones that are past their time to live.

`Ledger` follows a server with the books a peer would keep: every envelope accepted for it and
every envelope handed to it. Envelopes may be equal; they are counted. Storing and cleaning up
keep the books right (`Accounted`). Handing out does when no live envelope is older than the
time asked for: those are not handed out, and the queue is cleared nevertheless.

Connections are left out; they have no part in the queues. Times are `u64` seconds.
-/

namespace Scm.Relay

open List Collections Runs

/-! ## The server -/

/-- `RelayServerConfig`, as far as the queues read it. -/
structure RelayServerConfig where
  maxStoredPerPeer : Nat
  storeTtlSecs : UInt64
  deriving DecidableEq, Repr

structure StoredEnvelope where
  data : Bytes
  storedAt : UInt64
  deriving DecidableEq, Repr

/-- `RelayServerStats`, as far as the queues write it. -/
structure RelayServerStats where
  envelopesStored : Nat
  envelopesDelivered : UInt64
  deriving DecidableEq, Repr

structure RelayServer where
  config : RelayServerConfig
  storage : AList fun _ : String => List StoredEnvelope
  stats : RelayServerStats

open RelayServer

namespace RelayServer

/-- `with_config`. -/
def withConfig (config : RelayServerConfig) : RelayServer := ⟨config, ∅, ⟨0, 0⟩⟩

/-- The envelopes stored for a peer. -/
def queueOf (server : RelayServer) (peerId : String) : List StoredEnvelope :=
  (server.storage.lookup peerId).getD []

/-- The loop of `store_for_peer`: the queue, and how many were accepted and rejected. -/
def storeLoop (maxStored : Nat) (now : UInt64) (queue : List StoredEnvelope)
    (accepted rejected : UInt32) : List Bytes → List StoredEnvelope × UInt32 × UInt32
  | [] => (queue, accepted, rejected)
  | envelope :: envelopes =>
    if queue.length ≥ maxStored then storeLoop maxStored now queue accepted (rejected + 1) envelopes
    else storeLoop maxStored now (queue ++ [⟨envelope, now⟩]) (accepted + 1) rejected envelopes

/-- `store_for_peer`. -/
def storeForPeer (server : RelayServer) (now : UInt64) (targetPeerId : String)
    (envelopes : List Bytes) : (UInt32 × UInt32) × RelayServer :=
  let out :=
    storeLoop server.config.maxStoredPerPeer now (server.queueOf targetPeerId) 0 0 envelopes
  let storage := server.storage.insert targetPeerId out.1
  (out.2, { server with
    storage := storage
    stats := { server.stats with envelopesStored := sumValues storage List.length } })

/-- The envelopes of a queue from a time on. -/
def since (sinceTimestamp : UInt64) (queue : List StoredEnvelope) : List StoredEnvelope :=
  queue.filter fun env => env.storedAt ≥ sinceTimestamp

/-- `get_stored_for`. -/
def getStoredFor (server : RelayServer) (peerId : String) (sinceTimestamp : UInt64) :
    List Bytes × RelayServer :=
  match server.storage.lookup peerId with
  | some queue =>
    let envelopes := (since sinceTimestamp queue).map StoredEnvelope.data
    let storage := server.storage.insert peerId []
    (envelopes, { server with
      storage := storage
      stats :=
        { envelopesStored := sumValues storage List.length
          envelopesDelivered := server.stats.envelopesDelivered + UInt64.ofNat envelopes.length } })
  | none => ([], server)

/-- `cleanup_expired`. -/
def cleanupExpired (server : RelayServer) (now : UInt64) : RelayServer :=
  let storage := mapValues server.storage fun queue =>
    queue.filter fun env => now - env.storedAt < server.config.storeTtlSecs
  let storage := retain storage fun _ queue => !queue.isEmpty
  { server with
    storage := storage
    stats := { server.stats with envelopesStored := sumValues storage List.length } }

/-! ## The queues after a call -/

variable {server : RelayServer} {peerId other : String}

section
variable (maxStored : Nat) (now : UInt64) (envelopes : List Bytes)

/-- The loop takes envelopes from the front while there is room. -/
theorem storeLoop_queue :
    ∀ (queue : List StoredEnvelope) (accepted rejected : UInt32),
      (storeLoop maxStored now queue accepted rejected envelopes).1
        = queue ++ (envelopes.take (maxStored - queue.length)).map fun data => ⟨data, now⟩ := by
  induction envelopes with
  | nil => exact fun queue _ _ => by rw [storeLoop, take_nil, map_nil, append_nil]
  | cons envelope envelopes ih =>
    intro queue accepted rejected
    rw [storeLoop]
    split
    next hfull =>
      rw [ih, Nat.sub_eq_zero_of_le hfull, take_zero, take_zero]
    next hroom =>
      have hstep : maxStored - queue.length = (maxStored - (queue.length + 1)) + 1 := by omega
      rw [ih, length_append, length_singleton, hstep, take_succ_cons, map_cons,
        append_assoc, singleton_append]

/-- What a `store_for_peer` accepts. -/
def newlyStored (server : RelayServer) (now : UInt64) (peerId : String)
    (envelopes : List Bytes) : List StoredEnvelope :=
  (envelopes.take (server.config.maxStoredPerPeer - (server.queueOf peerId).length)).map
    fun data => ⟨data, now⟩

theorem queueOf_storeForPeer (other : String) :
    (server.storeForPeer now peerId envelopes).2.queueOf other
      = if other = peerId then server.queueOf peerId ++ server.newlyStored now peerId envelopes
        else server.queueOf other := by
  show ((server.storage.insert peerId _).lookup other).getD [] = _
  split
  next h =>
    rw [h, AList.lookup_insert, storeLoop_queue]
    rfl
  next h => rw [AList.lookup_insert_ne h]; rfl

/-- The whole queue is gone, with what was stored too early for the answer. -/
theorem queueOf_getStoredFor (sinceTimestamp : UInt64) (other : String) :
    (server.getStoredFor peerId sinceTimestamp).2.queueOf other
      = if other = peerId then [] else server.queueOf other := by
  unfold getStoredFor
  cases hqueue : server.storage.lookup peerId with
  | none =>
    show server.queueOf other = _
    split
    next h => rw [h, queueOf, hqueue, Option.getD_none]
    next => rfl
  | some queue =>
    show ((server.storage.insert peerId []).lookup other).getD [] = _
    split
    next h => rw [h, AList.lookup_insert, Option.getD_some]
    next h => rw [AList.lookup_insert_ne h]; rfl

/-- The answer is what the queue has from that time on. -/
theorem answer_getStoredFor (sinceTimestamp : UInt64) :
    (server.getStoredFor peerId sinceTimestamp).1
      = (since sinceTimestamp (server.queueOf peerId)).map StoredEnvelope.data := by
  unfold getStoredFor queueOf
  cases server.storage.lookup peerId <;> rfl

theorem queueOf_cleanupExpired (peerId : String) :
    (server.cleanupExpired now).queueOf peerId
      = (server.queueOf peerId).filter
          fun env => now - env.storedAt < server.config.storeTtlSecs :=
  getD_lookup_retain_mapValues server.storage filter_nil peerId

end

end RelayServer

/-! ## The books -/

inductive ServerOp where
  | storeForPeer (targetPeerId : String) (envelopes : List Bytes)
  | getStoredFor (peerId : String) (sinceTimestamp : UInt64)
  | cleanupExpired
  deriving DecidableEq, Repr

/-- A call and the time it is made. -/
structure ServerCall where
  now : UInt64
  op : ServerOp
  deriving DecidableEq, Repr

/-- A server, what was accepted for each peer and what was handed to it so far, what the calls of
`get_stored_for` answered, and the time of the last call. -/
structure Ledger where
  server : RelayServer
  accepted : String → List StoredEnvelope
  returned : String → List StoredEnvelope
  answered : String → List Bytes
  clock : UInt64

/-- More lines for a peer. -/
def noted {α : Type} (log : String → List α) (peerId : String) (lines : List α) :
    String → List α :=
  fun other => if other = peerId then log peerId ++ lines else log other

/-- An envelope whose time to live has not passed. -/
def live (ttl now : UInt64) (env : StoredEnvelope) : Bool :=
  now.toNat < env.storedAt.toNat + ttl.toNat

namespace Ledger

/-- The books of a new server. -/
def start (config : RelayServerConfig) : Ledger :=
  ⟨.withConfig config, fun _ => [], fun _ => [], fun _ => [], 0⟩

/-- One call. -/
def step (l : Ledger) (call : ServerCall) : Ledger :=
  match call.op with
  | .storeForPeer peerId envelopes =>
    { server := (l.server.storeForPeer call.now peerId envelopes).2
      accepted := noted l.accepted peerId (l.server.newlyStored call.now peerId envelopes)
      returned := l.returned
      answered := l.answered
      clock := call.now }
  | .getStoredFor peerId sinceTimestamp =>
    { server := (l.server.getStoredFor peerId sinceTimestamp).2
      accepted := l.accepted
      returned := noted l.returned peerId (since sinceTimestamp (l.server.queueOf peerId))
      answered := noted l.answered peerId (l.server.getStoredFor peerId sinceTimestamp).1
      clock := call.now }
  | .cleanupExpired =>
    { l with
      server := l.server.cleanupExpired call.now
      clock := call.now }

/-- Every accepted envelope that is still live is stored or was handed out, no envelope is
stored or handed out more often than it was accepted, and what was handed out is what the calls
answered. -/
structure Accounted (l : Ledger) : Prop where
  kept : ∀ peerId, ((l.accepted peerId).filter (live l.server.config.storeTtlSecs l.clock)).Perm
    ((l.server.queueOf peerId ++ l.returned peerId).filter
      (live l.server.config.storeTtlSecs l.clock))
  once : ∀ peerId, (l.server.queueOf peerId ++ l.returned peerId).Subperm (l.accepted peerId)
  handed : ∀ peerId, l.answered peerId = (l.returned peerId).map StoredEnvelope.data

/-- A `get_stored_for` asks for a time that no live envelope in the queue is older than. -/
def AsksForAll (l : Ledger) (call : ServerCall) : Prop :=
  ∀ peerId sinceTimestamp, call.op = .getStoredFor peerId sinceTimestamp →
    ∀ env ∈ l.server.queueOf peerId, live l.server.config.storeTtlSecs call.now env = true →
      sinceTimestamp ≤ env.storedAt

/-- Nothing was stored after the last call. -/
def Dated (l : Ledger) : Prop :=
  ∀ peerId, ∀ env ∈ l.server.queueOf peerId, env.storedAt.toNat ≤ l.clock.toNat

variable {l : Ledger} {call : ServerCall}

theorem step_storeForPeer {target : String} {envelopes : List Bytes}
    (hop : call.op = .storeForPeer target envelopes) : l.step call =
      { server := (l.server.storeForPeer call.now target envelopes).2
        accepted := noted l.accepted target (l.server.newlyStored call.now target envelopes)
        returned := l.returned
        answered := l.answered
        clock := call.now } := by
  rw [step, hop]

theorem step_getStoredFor {target : String} {sinceTimestamp : UInt64}
    (hop : call.op = .getStoredFor target sinceTimestamp) : l.step call =
      { server := (l.server.getStoredFor target sinceTimestamp).2
        accepted := l.accepted
        returned := noted l.returned target (since sinceTimestamp (l.server.queueOf target))
        answered := noted l.answered target (l.server.getStoredFor target sinceTimestamp).1
        clock := call.now } := by
  rw [step, hop]

theorem step_cleanupExpired (hop : call.op = .cleanupExpired) :
    l.step call = { l with server := l.server.cleanupExpired call.now, clock := call.now } := by
  rw [step, hop]

variable (l : Ledger) (call : ServerCall)

theorem config_step : (l.step call).server.config = l.server.config := by
  unfold step
  cases call.op with
  | storeForPeer peerId envelopes => rfl
  | getStoredFor peerId sinceTimestamp =>
    show (l.server.getStoredFor peerId sinceTimestamp).2.config = _
    unfold getStoredFor
    cases l.server.storage.lookup peerId <;> rfl
  | cleanupExpired => rfl

theorem clock_step : (l.step call).clock = call.now := by
  unfold step
  cases call.op <;> rfl

end Ledger

/-- On envelopes from the past, what a clean-up keeps is what is live. -/
theorem expired_iff {ttl now : UInt64} {env : StoredEnvelope} (h : env.storedAt.toNat ≤ now.toNat) :
    decide (now - env.storedAt < ttl) = live ttl now env := by
  rw [live, decide_eq_decide, UInt64.lt_iff_toNat_lt,
    UInt64.toNat_sub_of_le _ _ (UInt64.le_iff_toNat_le.mpr h)]
  omega

theorem live_earlier {ttl now earlier : UInt64} {env : StoredEnvelope}
    (hclock : earlier.toNat ≤ now.toNat) (h : live ttl now env = true) :
    live ttl earlier env = true := by
  unfold live at h ⊢
  rw [decide_eq_true_eq] at h ⊢
  omega

theorem filter_live_perm {ttl now earlier : UInt64} {xs ys : List StoredEnvelope}
    (hclock : earlier.toNat ≤ now.toNat)
    (h : (xs.filter (live ttl earlier)).Perm (ys.filter (live ttl earlier))) :
    (xs.filter (live ttl now)).Perm (ys.filter (live ttl now)) := by
  have hboth (l : List StoredEnvelope) :
      (l.filter (live ttl earlier)).filter (live ttl now) = l.filter (live ttl now) := by
    rw [filter_filter]
    refine filter_congr fun env _ => ?_
    cases hlive : live ttl now env with
    | true => rw [live_earlier hclock hlive, Bool.and_self]
    | false => rw [Bool.false_and]
  have hnow := h.filter (live ttl now)
  rwa [hboth, hboth] at hnow

namespace Ledger

variable {l : Ledger} {call : ServerCall}

theorem dated_step (hdated : l.Dated) (hclock : l.clock.toNat ≤ call.now.toNat) :
    (l.step call).Dated := by
  intro peerId env henv
  rw [clock_step]
  have hold (h : env ∈ l.server.queueOf peerId) : env.storedAt.toNat ≤ call.now.toNat :=
    (hdated peerId env h).trans hclock
  cases hop : call.op with
  | storeForPeer target envelopes =>
    rw [step_storeForPeer hop, queueOf_storeForPeer] at henv
    split at henv
    next heq =>
      subst heq
      rcases mem_append.mp henv with henv | henv
      · exact hold henv
      · obtain ⟨data, -, rfl⟩ := mem_map.mp henv
        exact le_rfl
    next => exact hold henv
  | getStoredFor target sinceTimestamp =>
    rw [step_getStoredFor hop, queueOf_getStoredFor] at henv
    split at henv
    next => cases henv
    next => exact hold henv
  | cleanupExpired =>
    rw [step_cleanupExpired hop, queueOf_cleanupExpired] at henv
    exact hold (mem_of_mem_filter henv)

theorem perm_append_append_comm {α : Type} (xs ys zs : List α) :
    (xs ++ ys ++ zs).Perm (xs ++ zs ++ ys) := by
  rw [append_assoc, append_assoc]
  exact perm_append_comm.append_left xs

/-- No call makes an envelope be stored or handed out more often than it was accepted. -/
theorem once_step
    (honce : ∀ peerId, (l.server.queueOf peerId ++ l.returned peerId).Subperm (l.accepted peerId))
    (peerId : String) :
    ((l.step call).server.queueOf peerId ++ (l.step call).returned peerId).Subperm
      ((l.step call).accepted peerId) := by
  have hbefore := honce peerId
  cases hop : call.op with
  | storeForPeer target envelopes =>
    rw [step_storeForPeer hop]
    dsimp only [noted]
    rw [queueOf_storeForPeer]
    split
    next heq =>
      subst heq
      have hnew := hbefore.append
        (List.Subperm.refl (l.server.newlyStored call.now peerId envelopes))
      exact (perm_append_append_comm _ _ _).subperm.trans hnew
    next => exact hbefore
  | getStoredFor target sinceTimestamp =>
    rw [step_getStoredFor hop]
    dsimp only [noted]
    rw [queueOf_getStoredFor]
    split
    next heq =>
      subst heq
      rw [nil_append]
      refine perm_append_comm.subperm.trans (List.Subperm.trans ?_ hbefore)
      exact (filter_sublist.append_right _).subperm
    next => exact hbefore
  | cleanupExpired =>
    rw [step_cleanupExpired hop]
    rw [queueOf_cleanupExpired]
    exact (filter_sublist.append_right _).subperm.trans hbefore

/-- What a call notes as handed out is what it answers. -/
theorem handed_step
    (hhanded : ∀ peerId, l.answered peerId = (l.returned peerId).map StoredEnvelope.data)
    (peerId : String) :
    (l.step call).answered peerId = ((l.step call).returned peerId).map StoredEnvelope.data := by
  cases hop : call.op with
  | storeForPeer target envelopes =>
    rw [step_storeForPeer hop]
    exact hhanded peerId
  | getStoredFor target sinceTimestamp =>
    rw [step_getStoredFor hop]
    dsimp only [noted]
    split
    next => rw [hhanded, answer_getStoredFor, map_append]
    next => exact hhanded peerId
  | cleanupExpired =>
    rw [step_cleanupExpired hop]
    exact hhanded peerId

section
variable (h : l.Accounted) (hclock : l.clock.toNat ≤ call.now.toNat)
include h hclock

theorem kept_now (peerId : String) :
    ((l.accepted peerId).filter (live l.server.config.storeTtlSecs call.now)).Perm
      ((l.server.queueOf peerId ++ l.returned peerId).filter
        (live l.server.config.storeTtlSecs call.now)) :=
  filter_live_perm hclock (h.kept peerId)

theorem accounted_store {target : String} {envelopes : List Bytes}
    (hop : call.op = .storeForPeer target envelopes) : (l.step call).Accounted := by
  constructor
  · intro peerId
    rw [config_step, clock_step, step_storeForPeer hop]
    dsimp only [noted]
    rw [queueOf_storeForPeer]
    have hkept := kept_now h hclock peerId
    split
    next heq =>
      subst heq
      have hnew := hkept.append_right ((l.server.newlyStored call.now peerId envelopes).filter
        (live l.server.config.storeTtlSecs call.now))
      rw [← filter_append, ← filter_append] at hnew
      exact hnew.trans ((perm_append_append_comm _ _ _).filter _)
    next => exact hkept
  · exact once_step h.once
  · exact handed_step h.handed

theorem accounted_cleanup (hdated : l.Dated) (hop : call.op = .cleanupExpired) :
    (l.step call).Accounted := by
  have hqueue (peerId : String) : (l.server.cleanupExpired call.now).queueOf peerId
      = (l.server.queueOf peerId).filter (live l.server.config.storeTtlSecs call.now) := by
    rw [queueOf_cleanupExpired]
    exact filter_congr fun env henv => expired_iff ((hdated peerId env henv).trans hclock)
  constructor
  · intro peerId
    rw [config_step, step_cleanupExpired hop]
    have hkept := kept_now h hclock peerId
    rw [hqueue, filter_append, filter_filter]
    rw [filter_append] at hkept
    simpa only [Bool.and_self] using hkept
  · exact once_step h.once
  · exact handed_step h.handed

section
variable {target : String} {sinceTimestamp : UInt64}
  (hop : call.op = .getStoredFor target sinceTimestamp)
include hop

theorem asksForAll_of_accounted (hnext : (l.step call).Accounted) : l.AsksForAll call := by
  intro target' sinceTimestamp' hop' env henv hlive
  cases hop.symm.trans hop'
  have hafter := hnext.kept target
  rw [config_step, step_getStoredFor hop] at hafter
  dsimp only [noted] at hafter
  rw [queueOf_getStoredFor, if_pos rfl, if_pos rfl, nil_append] at hafter
  -- the live envelopes that were handed out are all that were in the queue
  have hsame := (kept_now h hclock target).symm.trans hafter
  rw [filter_append, filter_append] at hsame
  have hqueue := (perm_append_right_iff _).mp (hsame.trans perm_append_comm)
  have hmem : env ∈ (since sinceTimestamp (l.server.queueOf target)).filter
      (live l.server.config.storeTtlSecs call.now) :=
    hqueue.mem_iff.mp (mem_filter.mpr ⟨henv, hlive⟩)
  exact of_decide_eq_true (mem_filter.mp (mem_filter.mp hmem).1).2

theorem accounted_of_asksForAll (hall : l.AsksForAll call) : (l.step call).Accounted := by
  constructor
  · intro peerId
    rw [config_step, step_getStoredFor hop]
    dsimp only [noted]
    rw [queueOf_getStoredFor]
    have hkept := kept_now h hclock peerId
    split
    next heq =>
      subst heq
      have hqueue : (since sinceTimestamp (l.server.queueOf peerId)).filter
          (live l.server.config.storeTtlSecs call.now)
          = (l.server.queueOf peerId).filter (live l.server.config.storeTtlSecs call.now) := by
        rw [since, filter_filter]
        refine filter_congr fun env henv => ?_
        cases hlive : live l.server.config.storeTtlSecs call.now env with
        | false => rw [Bool.false_and]
        | true =>
          have hsince := hall peerId sinceTimestamp hop env henv hlive
          rw [Bool.true_and, decide_eq_true hsince]
      rw [nil_append, filter_append, hqueue]
      rw [filter_append] at hkept
      exact hkept.trans perm_append_comm
    next => exact hkept
  · exact once_step h.once
  · exact handed_step h.handed

end

/-- One call keeps the books right exactly when it passes over no live envelope. -/
theorem accounted_step_iff (hdated : l.Dated) :
    (l.step call).Accounted ↔ l.AsksForAll call := by
  cases hop : call.op with
  | storeForPeer target envelopes =>
    refine ⟨fun _ peerId sinceTimestamp hget => ?_, fun _ => accounted_store h hclock hop⟩
    cases hop.symm.trans hget
  | getStoredFor target sinceTimestamp =>
    exact ⟨asksForAll_of_accounted h hclock hop, accounted_of_asksForAll h hclock hop⟩
  | cleanupExpired =>
    refine ⟨fun _ peerId sinceTimestamp hget => ?_, fun _ => accounted_cleanup h hclock hdated hop⟩
    cases hop.symm.trans hget

end

theorem accounted_start (config : RelayServerConfig) : (start config).Accounted :=
  ⟨fun _ => .refl _, fun _ => .refl _, fun _ => rfl⟩

/-- **When no envelope is lost.** For every configuration and every sequence of calls with a
clock that does not go back: after each call every envelope that was accepted and is still live
is stored for its peer or was handed to it in an answer of `get_stored_for`, and none is handed
out twice, if and only if every `get_stored_for` asks for a time that no live envelope of its
queue is older than. -/
theorem accounted_iff (config : RelayServerConfig) (calls : List ServerCall)
    (hclock : (calls.map fun call => call.now.toNat).Pairwise (· ≤ ·)) :
    (∀ before after, calls = before ++ after → (run step (start config) before).Accounted) ↔
      Along step AsksForAll (start config) calls := by
  have hfits := along_clock (fun l : Ledger => l.clock.toNat)
    (fun call : ServerCall => call.now.toNat) Dated (fun l call => by rw [clock_step])
    (fun l call => dated_step) calls (start config) (fun _ _ h => nomatch h)
    (fun _ _ => Nat.zero_le _) hclock
  exact always_iff_along (fun l call h hfit => accounted_step_iff h hfit.2 hfit.1) calls _
    (accounted_start config) hfits

/-! ## The size of a mailbox -/

/-- No queue is over the limit, and the statistics have the number of envelopes stored. -/
structure Bounded (config : RelayServerConfig) (l : Ledger) : Prop where
  config_eq : l.server.config = config
  queue_le : ∀ peerId, (l.server.queueOf peerId).length ≤ config.maxStoredPerPeer
  stored_eq : l.server.stats.envelopesStored = sumValues l.server.storage List.length

theorem Bounded.step {config : RelayServerConfig} {l : Ledger} (h : l.Bounded config)
    (call : ServerCall) : (l.step call).Bounded config := by
  refine ⟨(config_step l call).trans h.config_eq, fun peerId => ?_, ?_⟩
  · have hqueue := h.queue_le peerId
    cases hop : call.op with
    | storeForPeer target envelopes =>
      rw [step_storeForPeer hop, queueOf_storeForPeer]
      split
      next htarget =>
        subst htarget
        rw [newlyStored, h.config_eq, length_append, length_map, length_take]
        omega
      next => exact hqueue
    | getStoredFor target sinceTimestamp =>
      rw [step_getStoredFor hop, queueOf_getStoredFor]
      split
      next => exact Nat.zero_le _
      next => exact hqueue
    | cleanupExpired =>
      rw [step_cleanupExpired hop, queueOf_cleanupExpired]
      exact Nat.le_trans (length_filter_le _ _) hqueue
  · unfold Ledger.step
    cases call.op with
    | storeForPeer => rfl
    | cleanupExpired => rfl
    | getStoredFor target sinceTimestamp =>
      dsimp only [getStoredFor]
      split
      next => rfl
      next => exact h.stored_eq

/-- **A mailbox never overflows.** In every run of a server, whatever the clock does, each peer
has at most `max_stored_per_peer` envelopes, and `envelopes_stored` is the number of all. -/
theorem bounded_run (config : RelayServerConfig) (calls : List ServerCall) :
    (run step (start config) calls).Bounded config :=
  run_invariant_always (fun _ call h => h.step call) calls _ ⟨rfl, fun _ => Nat.zero_le _, rfl⟩

/-! ## A mailbox asked for its newest envelopes -/

/-- Store at second 10, then ask at second 11 for what came from second 11 on. -/
def demoCalls : List ServerCall :=
  [⟨10, .storeForPeer "bob" [[1]]⟩, ⟨11, .getStoredFor "bob" 11⟩]

def demoConfig : RelayServerConfig := ⟨10000, 86400⟩

/-- The envelope was accepted, is live for a day, is not stored, and was not handed out. -/
theorem stored_envelope_lost :
    (run step (start demoConfig) demoCalls).accepted "bob" = [⟨[1], 10⟩] ∧
      live 86400 11 ⟨[1], 10⟩ = true ∧
      (run step (start demoConfig) demoCalls).server.queueOf "bob" = [] ∧
      (run step (start demoConfig) demoCalls).returned "bob" = [] ∧
      (run step (start demoConfig) demoCalls).answered "bob" = [] := by
  decide +kernel

/-- Asked for everything, it hands the envelope out, and the books are right. -/
theorem accounted_iff_sinceZero :
    (run step (start demoConfig)
      [⟨10, .storeForPeer "bob" [[1]]⟩, ⟨11, .getStoredFor "bob" 0⟩]).Accounted := by
  refine (accounted_iff demoConfig
    [⟨10, .storeForPeer "bob" [[1]]⟩, ⟨11, .getStoredFor "bob" 0⟩] (by decide)).mpr
    ⟨fun peerId sinceTimestamp h => ?_, fun peerId sinceTimestamp h env _ _ => ?_, trivial⟩ _ [] rfl
  · cases h
  · cases h
    exact Nat.zero_le _

end Ledger

end Scm.Relay
