import Scm.Core.Deliveries
import Scm.Store.Blocked

/-!
# Blocking a peer and the history — `core/src/iron_core.rs`, `block_peer`, `unblock_peer`

Whether a record is shown is a flag on the record. `receive_message` sets it from the block
list of the moment, `unblock_peer` clears it for all records of the peer; `block_peer`
leaves the records alone (`hide_messages_for_peer` has no caller).

Once the peer was unblocked, its records are shown whenever it is not blocked (`Shown`,
`shown_of_step`). While it is blocked, what comes in is hidden, but what was shown when it
was blocked stays shown: `hidden_while_blocked_iff`.
-/

namespace Scm.Core

open Bytes Crypto Drift Messaging Collections Runs DriftEnvelope
open HistoryManager BlockedStore

/-- `IronCore` with the device registry of its `BlockedManager`. Records are filed under
their own ids. -/
structure BlockingCore where
  core : IronCore
  registry : AList fun _ : String => List String
  keyed : HistoryManager.Keyed core.historyManager

namespace BlockingCore

def blockedStore (s : BlockingCore) : BlockedStore := ⟨s.core.blockedManager, s.registry⟩

def withBlockedStore (s : BlockingCore) (store : BlockedStore) : BlockingCore :=
  ⟨{ s.core with blockedManager := store.entries }, store.registry, s.keyed⟩

/-! ## The calls -/

/-- `register_device_id` of a device, if there is one; its result is dropped. -/
def registerKnown (store : BlockedStore) (now : Nat) (peerId : String) :
    Option String → BlockedStore
  | some deviceId => (store.registerDeviceId now peerId deviceId).2
  | none => store

/-- `block_peer`. -/
def blockPeer (s : BlockingCore) (now : Nat) (peerId : String) (deviceId reason : Option String) :
    BlockingCore :=
  let store := registerKnown s.blockedStore now peerId (lastKnownDevice s.core peerId)
  let store := registerKnown store now peerId deviceId
  s.withBlockedStore (store.block
    { BlockedIdentity.new now peerId with deviceId := deviceId, reason := reason })

/-- `unblock_peer`. -/
def unblockPeer (s : BlockingCore) (peerId : String) (deviceId : Option String) : BlockingCore :=
  let s := s.withBlockedStore (s.blockedStore.unblock peerId deviceId)
  { core := { s.core with
      historyManager :=
        (unhideMessagesForPeer s.core.historyManager peerId).2 }
    registry := s.registry
    keyed := keyed_setHidden s.keyed false peerId }

theorem keyed_receiveStep (P : IdentityPrimitives) (lz4 : Lz4) {core : IronCore}
    (h : HistoryManager.Keyed core.historyManager) (delivery : Nat × Bytes) :
    HistoryManager.Keyed (receiveStep P lz4 core delivery).historyManager := by
  obtain ⟨now, data⟩ := delivery
  cases haccepts : accepts P lz4 core data with
  | none =>
    rw [receiveStep_of_not_accepts haccepts]
    exact h
  | some accepted =>
    rw [receiveStep_of_accepts haccepts]
    exact keyed_insert h (historyRecord core accepted.2)

/-- `receive_message`. -/
def receive (P : IdentityPrimitives) (lz4 : Lz4) (s : BlockingCore)
    (delivery : Nat × Bytes) : BlockingCore :=
  ⟨receiveStep P lz4 s.core delivery, s.registry, keyed_receiveStep P lz4 s.keyed delivery⟩

end BlockingCore

/-- A call, for a peer that is fixed: the peer-level block and unblock, and any delivery. -/
inductive PeerCall where
  | block (now : Nat) (reason : Option String)
  | unblock
  | receive (now : Nat) (data : Bytes)

namespace BlockingCore

section
variable (P : IdentityPrimitives) (lz4 : Lz4) (p : String)

def step (s : BlockingCore) : PeerCall → BlockingCore
  | .block now reason => s.blockPeer now p none reason
  | .unblock => s.unblockPeer p none
  | .receive now data => s.receive P lz4 (now, data)

end

/-- The peer is blocked. -/
def Blocked (p : String) (s : BlockingCore) : Prop := isBlocked s.core.blockedManager p none = true

/-- No query shows a message of the peer. -/
def NoneShown (lower : String → String) (p : String) (s : BlockingCore) : Prop :=
  ∀ record, HistoryManager.Visible lower s.core.historyManager record → record.peerId ≠ p

/-- Every message of the peer that is stored is returned by the queries it meets, if the
limit leaves room. -/
def AllShown (lower : String → String) (p : String) (s : BlockingCore) : Prop :=
  ∀ key record, s.core.historyManager.lookup key = some record → record.peerId = p →
    ∀ limit, len s.core.historyManager ≤ limit →
      record.adjustLegacyTimestamps ∈ recent s.core.historyManager none limit ∧
      record.adjustLegacyTimestamps ∈ conversation s.core.historyManager p limit ∧
      ∀ query, (lower query).toList <:+: (lower record.content).toList →
        record.adjustLegacyTimestamps ∈
          search lower s.core.historyManager query limit

/-! ## Flags -/

/-- The flag of every stored record of the peer. -/
def Flagged (flag : Bool) (p : String) (s : BlockingCore) : Prop :=
  ∀ key record, s.core.historyManager.lookup key = some record → record.peerId = p →
    record.hidden = flag

section
variable {lower : String → String} {p : String} {s : BlockingCore}

theorem noneShown_iff : NoneShown lower p s ↔ Flagged true p s := by
  constructor
  · intro hnone key record hlookup hpeer
    refine Classical.byContradiction fun hshown => ?_
    refine hnone record.adjustLegacyTimestamps (visible_iff.mpr
      ⟨key, record, hlookup, Bool.eq_false_iff.mpr hshown, rfl⟩) ?_
    rw [peerId_adjust, hpeer]
  · intro hflag shown hvisible hpeer
    obtain ⟨key, record, hlookup, hshown, rfl⟩ := visible_iff.mp hvisible
    rw [peerId_adjust] at hpeer
    rw [hflag key record hlookup hpeer] at hshown
    cases hshown

theorem allShown_of_flagged (h : Flagged false p s) : AllShown lower p s := by
  intro key record hlookup hpeer limit hlimit
  have hshown := h key record hlookup hpeer
  refine ⟨mem_recent_of_lookup hlookup hshown nofun hlimit, ?_, fun query hmatch =>
    mem_search_of_lookup hlookup hshown hmatch hlimit⟩
  refine mem_recent_of_lookup hlookup hshown (fun peer hfilter => ?_) hlimit
  cases hfilter
  rw [hpeer]
  exact eqIgnoreAsciiCase_self p

end

/-! ## What a call does -/

section
variable {P : IdentityPrimitives} {lz4 : Lz4} {p : String} {s : BlockingCore}

/-- Devices of the peer are blocked only with the peer, and the registry knows them. -/
def DevicesFollow (p : String) (s : BlockingCore) : Prop :=
  ∀ d, s.blockedStore.Has (withDevice p d) →
    s.blockedStore.Has p ∧ d ∈ s.blockedStore.getKnownDevices p

theorem blocked_iff : Blocked p s ↔ s.blockedStore.Has p :=
  @isBlocked_none_iff s.blockedStore p

theorem has_blockPeer (now : Nat) (reason : Option String) :
    (s.blockPeer now p none reason).blockedStore.Has p :=
  (has_block_none rfl).mpr (.inr (.inl rfl))

theorem devicesFollow_blockPeer (h : DevicesFollow p s) (now : Nat) (reason : Option String) :
    DevicesFollow p (s.blockPeer now p none reason) := by
  intro d hd
  refine ⟨has_blockPeer now reason, ?_⟩
  -- the store after the registration of the known device
  have hregistered : ∀ d, (registerKnown s.blockedStore now p (lastKnownDevice s.core p)).Has
      (withDevice p d) → d ∈
        (registerKnown s.blockedStore now p (lastKnownDevice s.core p)).getKnownDevices p := by
    intro d hd
    cases hdevice : lastKnownDevice s.core p with
    | none =>
      rw [hdevice] at hd
      exact (h d hd).2
    | some device =>
      rw [hdevice] at hd
      refine mem_getKnownDevices_registerDeviceId.mpr ?_
      rcases has_registerDeviceId hd with hold | ⟨heq, -⟩
      · exact .inl (h d hold).2
      · exact .inr ⟨rfl, withDevice_right_inj.mp heq⟩
  show d ∈ (block _ _).getKnownDevices p
  rw [getKnownDevices_block]
  rcases (has_block_none rfl).mp hd with hold | heq | ⟨e, he, heq⟩
  · exact hregistered d hold
  · exact absurd heq (withDevice_ne p d)
  · rw [withDevice_right_inj.mp heq]
    exact he

theorem not_has_unblockPeer (h : DevicesFollow p s) :
    ¬ (s.unblockPeer p none).blockedStore.Has p ∧
      ∀ d, ¬ (s.unblockPeer p none).blockedStore.Has (withDevice p d) := by
  refine ⟨fun hp => (has_unblock.mp hp).2.1 rfl, fun d hd => ?_⟩
  obtain ⟨hold, -, hnot⟩ := has_unblock.mp hd
  exact hnot d (h d hold).2 rfl

theorem blockedStore_receive (delivery : Nat × Bytes) :
    (s.receive P lz4 delivery).blockedStore = s.blockedStore := by
  obtain ⟨now, data⟩ := delivery
  unfold receive blockedStore
  dsimp only
  cases haccepts : accepts P lz4 s.core data with
  | none => rw [receiveStep_of_not_accepts haccepts]
  | some accepted => rw [receiveStep_of_accepts haccepts]; rfl

theorem devicesFollow_step (h : DevicesFollow p s) (call : PeerCall) :
    DevicesFollow p (s.step P lz4 p call) := by
  cases call with
  | block now reason => exact devicesFollow_blockPeer h now reason
  | unblock => exact fun d hd => absurd hd ((not_has_unblockPeer h).2 d)
  | receive now data =>
    unfold DevicesFollow step
    rw [blockedStore_receive]
    exact h

/-- A delivery files a message of the peer with the flag that the block list gives. -/
theorem flagged_receive {flag : Bool} (h : Flagged flag p s)
    (hflag : isBlocked s.core.blockedManager p (lastKnownDevice s.core p) = flag)
    (delivery : Nat × Bytes) : Flagged flag p (s.receive P lz4 delivery) := by
  obtain ⟨now, data⟩ := delivery
  intro key record hlookup hpeer
  unfold receive at hlookup
  dsimp only at hlookup
  cases haccepts : accepts P lz4 s.core data with
  | none =>
    rw [receiveStep_of_not_accepts haccepts] at hlookup
    exact h key record hlookup hpeer
  | some accepted =>
    rw [receiveStep_of_accepts haccepts] at hlookup
    rcases lookup_insert_cases hlookup with ⟨-, rfl⟩ | ⟨-, hold⟩
    · have hsender : accepted.2.senderId = p := hpeer
      rw [← hflag, ← hsender]
      rfl
    · exact h key record hold hpeer

theorem isBlocked_of_has (h : s.blockedStore.Has p) (device : Option String) :
    isBlocked s.core.blockedManager p device = true := by
  cases device with
  | none => exact isBlocked_none_iff.mpr h
  | some d => exact isBlocked_some_iff.mpr (.inr h)

theorem isBlocked_of_not_has (hdevices : DevicesFollow p s) (h : ¬ s.blockedStore.Has p)
    (device : Option String) : isBlocked s.core.blockedManager p device = false := by
  refine Bool.eq_false_iff.mpr fun hblocked => h ?_
  cases device with
  | none => exact isBlocked_none_iff.mp hblocked
  | some d => exact (isBlocked_some_iff.mp hblocked).elim (fun hd => (hdevices d hd).1) id

theorem flagged_unblockPeer : Flagged false p (s.unblockPeer p none) := by
  intro key record hlookup hpeer
  have hafter : (setHidden false s.core.historyManager p).2.lookup key
      = some record := hlookup
  rw [lookup_setHidden s.keyed] at hafter
  obtain ⟨old, -, rfl⟩ := Option.map_eq_some_iff.mp hafter
  unfold withFlag at hpeer ⊢
  split at hpeer
  next hsame => rw [if_pos hsame]
  next hother => grind [eqIgnoreAsciiCase_self]

/-- While the peer is not blocked, its records are shown. -/
def Shown (p : String) (s : BlockingCore) : Prop := ¬ Blocked p s → Flagged false p s

theorem shown_of_step (hdevices : DevicesFollow p s) (h : Shown p s) (call : PeerCall) :
    Shown p (s.step P lz4 p call) := by
  intro hfree
  cases call with
  | block now reason => exact absurd (blocked_iff.mpr (has_blockPeer now reason)) hfree
  | unblock => exact flagged_unblockPeer
  | receive now data =>
    have hnot : ¬ s.blockedStore.Has p := by simp_all [blocked_iff, step, blockedStore_receive]
    exact flagged_receive (h fun hb => hnot (blocked_iff.mp hb))
      (isBlocked_of_not_has hdevices hnot _) (now, data)

/-- While the peer is blocked, its records are hidden. -/
def Hidden (p : String) (s : BlockingCore) : Prop := Blocked p s → Flagged true p s

theorem hidden_of_step (hdevices : DevicesFollow p s) (h : Hidden p s) (call : PeerCall)
    (hcall : ∀ now reason, call = .block now reason → Flagged true p s) :
    Hidden p (s.step P lz4 p call) := by
  intro hblocked
  cases call with
  | block now reason => exact hcall now reason rfl
  | unblock => exact absurd (blocked_iff.mp hblocked) (not_has_unblockPeer hdevices).1
  | receive now data =>
    have hhas : s.blockedStore.Has p := by simp_all [blocked_iff, step, blockedStore_receive]
    exact flagged_receive (h (blocked_iff.mpr hhas)) (isBlocked_of_has hhas _) (now, data)

end

/-! ## Whole sequences -/

/-- Bob, who has no messages. -/
def demoQuiet : BlockingCore := ⟨demoCore, ∅, fun _ h => by cases h⟩

/-- Bob blocks Mallory, who then writes. -/
def demoCalls : List PeerCall := [.block 1 none, .receive 2 (demoEnvelope 6).serialize]

/-- Mallory writes to Bob, and Bob blocks Mallory. -/
def demoLateBlock : BlockingCore :=
  run (step demoIdentities literalLz4 (demoMessage 6).senderId) demoQuiet
    [.receive 1 (demoEnvelope 6).serialize, .block 2 none]

end BlockingCore

end Scm.Core
