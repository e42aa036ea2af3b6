import Scm.Core.Receive
import Scm.Runs

/-!
# The block list and its devices — `core/src/store/blocked.rs`

A block entry is filed under `blocked:peer`, or under `blocked:peer:device` for one device
of a peer. A second family of keys, the registry, lists the devices known for a peer:
blocking a peer blocks those too, registering a device of a blocked peer blocks it at
once, and unblocking a peer removes the entries of the devices in the registry.

Peer ids are any strings, so the entry of device `d` of peer `p` is also the entry of the
peer `p:d` (`blockedKey_some`). What the block list says is then one set of strings
(`BlockedStore.Has`).

The store is the one of `Scm.Core.Receive` with the registry added. Backends do not fail.
-/

namespace Scm.Core

open List AList Collections Runs

/-! ## The manager -/

/-- The two families of keys of a `BlockedManager`; the registry is by peer id. -/
structure BlockedStore where
  entries : BlockedManager
  registry : AList fun _ : String => List String

/-- `BlockedIdentity::new`. -/
def BlockedIdentity.new (now : Nat) (peerId : String) : BlockedIdentity where
  peerId := peerId
  deviceId := none
  blockedAt := now
  reason := none
  notes := none
  isDeleted := false

/-- `BlockedIdentity::storage_key`. -/
def BlockedIdentity.storageKey (blocked : BlockedIdentity) : String :=
  blockedKey blocked.peerId blocked.deviceId

namespace BlockedStore

def new : BlockedStore := ⟨∅, ∅⟩

/-- `get_known_devices`. -/
def getKnownDevices (s : BlockedStore) (peerId : String) : List String :=
  (s.registry.lookup peerId).getD []

/-- `put` of an entry under its key. -/
def put (s : BlockedStore) (blocked : BlockedIdentity) : BlockedStore :=
  { s with entries := s.entries.insert blocked.storageKey blocked }

/-- `BlockedManager::block`. -/
def block (s : BlockedStore) (blocked : BlockedIdentity) : BlockedStore :=
  match blocked.deviceId with
  | some _ => s.put blocked
  | none =>
    (s.getKnownDevices blocked.peerId).foldl
      (fun s deviceId => s.put { blocked with deviceId := some deviceId }) (s.put blocked)

/-- `BlockedManager::block_and_delete`. -/
def blockAndDelete (s : BlockedStore) (now : Nat) (peerId : String) (reason : Option String) :
    BlockedStore :=
  s.block { BlockedIdentity.new now peerId with isDeleted := true, reason := reason }

/-- `unregister_device_from_registry`. -/
def unregisterDeviceFromRegistry (s : BlockedStore) (peerId deviceId : String) : BlockedStore :=
  let devices := (s.getKnownDevices peerId).filter (· ≠ deviceId)
  if devices.isEmpty then { s with registry := s.registry.erase peerId }
  else { s with registry := s.registry.insert peerId devices }

/-- `remove` of the entry under a key. -/
def removeKey (s : BlockedStore) (key : String) : BlockedStore :=
  { s with entries := s.entries.erase key }

/-- `BlockedManager::unblock`. -/
def unblock (s : BlockedStore) (peerId : String) : Option String → BlockedStore
  | some deviceId =>
    (s.removeKey (blockedKey peerId (some deviceId))).unregisterDeviceFromRegistry peerId deviceId
  | none =>
    let s := (s.getKnownDevices peerId).foldl
      (fun s deviceId => s.removeKey (blockedKey peerId (some deviceId)))
      (s.removeKey (blockedKey peerId none))
    { s with registry := s.registry.erase peerId }

/-- `register_device_id`. -/
def registerDeviceId (s : BlockedStore) (now : Nat) (peerId deviceId : String) :
    Bool × BlockedStore :=
  let devices := s.getKnownDevices peerId
  if deviceId ∈ devices then (false, s)
  else
    let s := { s with registry := s.registry.insert peerId (devices ++ [deviceId]) }
    if isBlocked s.entries peerId none then
      let peerBlock := s.entries.lookup (blockedKey peerId none)
      (true, s.put
        { peerId := peerId
          deviceId := some deviceId
          blockedAt := (peerBlock.map BlockedIdentity.blockedAt).getD now
          reason := peerBlock.bind BlockedIdentity.reason
          notes := none
          isDeleted := (peerBlock.map BlockedIdentity.isDeleted).getD false })
    else (true, s)

end BlockedStore

/-- A call on the manager. -/
inductive BlockedCall where
  | block (blocked : BlockedIdentity)
  | blockAndDelete (now : Nat) (peerId : String) (reason : Option String)
  | registerDeviceId (now : Nat) (peerId deviceId : String)
  | unblock (peerId : String) (deviceId : Option String)

def BlockedStore.step (s : BlockedStore) : BlockedCall → BlockedStore
  | .block blocked => s.block blocked
  | .blockAndDelete now peerId reason => s.blockAndDelete now peerId reason
  | .registerDeviceId now peerId deviceId => (s.registerDeviceId now peerId deviceId).2
  | .unblock peerId deviceId => s.unblock peerId deviceId

/-! ## One set of strings -/

/-- The peer whose key is the key of device `d` of `p`. -/
def withDevice (p d : String) : String := p ++ ":" ++ d

theorem blockedKey_some (p d : String) :
    blockedKey p (some d) = blockedKey (withDevice p d) none := by
  simp [blockedKey, withDevice, String.append_assoc]

theorem blockedKey_none_inj {p q : String} : blockedKey p none = blockedKey q none ↔ p = q := by
  show "blocked:" ++ p = "blocked:" ++ q ↔ p = q
  exact String.append_right_inj _

theorem withDevice_ne (p d : String) : withDevice p d ≠ p := by
  intro h
  have hlength := congrArg String.length h
  simp only [withDevice, String.length_append] at hlength
  have : ":".length = 1 := rfl
  omega

theorem withDevice_right_inj {p d d' : String} : withDevice p d = withDevice p d' ↔ d = d' := by
  unfold withDevice
  exact String.append_right_inj _

namespace BlockedStore

variable {s : BlockedStore} {p q d : String}

/-- There is an entry under the peer's key. -/
def Has (s : BlockedStore) (p : String) : Prop := blockedKey p none ∈ s.entries

theorem isBlocked_none_iff : isBlocked s.entries p none = true ↔ s.Has p := by
  unfold isBlocked Has
  rw [Bool.false_or]
  exact lookup_isSome

theorem isBlocked_some_iff :
    isBlocked s.entries p (some d) = true ↔ s.Has (withDevice p d) ∨ s.Has p := by
  unfold isBlocked Has
  dsimp only
  rw [Bool.or_eq_true, blockedKey_some]
  exact or_congr lookup_isSome lookup_isSome

theorem has_removeKey {x : String} :
    (s.removeKey (blockedKey x none)).Has q ↔ q ≠ x ∧ s.Has q := by
  unfold removeKey Has
  rw [mem_erase, Ne, blockedKey_none_inj]

theorem has_unblock : (s.unblock p none).Has q ↔
    s.Has q ∧ q ≠ p ∧ ∀ d ∈ s.getKnownDevices p, q ≠ withDevice p d := by
  have hloop : ∀ (devices : List String) (s : BlockedStore),
      (devices.foldl (fun s deviceId => s.removeKey (blockedKey p (some deviceId))) s).Has q ↔
        s.Has q ∧ ∀ d ∈ devices, q ≠ withDevice p d := by
    intro devices
    induction devices with
    | nil => exact fun s => ⟨fun h => ⟨h, nofun⟩, fun h => h.1⟩
    | cons device devices ih =>
      intro s
      rw [foldl_cons, ih, blockedKey_some, has_removeKey, forall_mem_cons]
      exact ⟨fun ⟨⟨hne, hs⟩, hrest⟩ => ⟨hs, hne, hrest⟩, fun ⟨hs, hne, hrest⟩ => ⟨⟨hne, hs⟩, hrest⟩⟩
  unfold unblock
  refine (hloop _ _).trans ?_
  rw [has_removeKey]
  exact ⟨fun ⟨⟨hne, hs⟩, hrest⟩ => ⟨hs, hne, hrest⟩, fun ⟨hs, hne, hrest⟩ => ⟨⟨hne, hs⟩, hrest⟩⟩

/-- The peer is free when the registry knew all its blocked devices. -/
theorem unblocked_iff :
    (∀ d, isBlocked (s.unblock p none).entries p d = false) ↔
      ∀ d, s.Has (withDevice p d) → d ∈ s.getKnownDevices p := by
  have hpeer : ¬ (s.unblock p none).Has p := fun h => (has_unblock.mp h).2.1 rfl
  constructor
  · intro hfree d hd
    refine Classical.byContradiction fun hunknown => ?_
    have hleft : (s.unblock p none).Has (withDevice p d) := by
      grind [has_unblock, withDevice_ne, withDevice_right_inj]
    exact Bool.false_ne_true ((hfree (some d)).symm.trans (isBlocked_some_iff.mpr (.inl hleft)))
  · intro hknown d
    refine Bool.eq_false_iff.mpr fun hblocked => ?_
    cases d with
    | none => exact hpeer (isBlocked_none_iff.mp hblocked)
    | some d =>
      rcases isBlocked_some_iff.mp hblocked with hdevice | hself
      · grind [has_unblock]
      · exact hpeer hself

/-- The other strings are left alone when no registered device of the peer was blocked, and
the peer's own entry was not what made a device of another peer blocked. -/
theorem others_unchanged_iff :
    (∀ q, q ≠ p → ∀ d, isBlocked (s.unblock p none).entries q d = isBlocked s.entries q d) ↔
      (∀ d ∈ s.getKnownDevices p, ¬ s.Has (withDevice p d)) ∧
        ∀ q d, withDevice q d = p → s.Has p → s.Has q := by
  constructor
  · intro hsame
    refine ⟨fun d hd hhas => ?_, fun q d hp hhas => ?_⟩
    · -- as a peer of its own, the device was blocked and is not any more
      have hbefore := isBlocked_none_iff.mpr hhas
      rw [← hsame _ (withDevice_ne p d) none] at hbefore
      exact (has_unblock.mp (isBlocked_none_iff.mp hbefore)).2.2 d hd rfl
    · have hne : q ≠ p := fun heq => withDevice_ne q d (hp.trans heq.symm)
      have hbefore : isBlocked s.entries q (some d) = true :=
        isBlocked_some_iff.mpr (.inl (hp ▸ hhas))
      rw [← hsame q hne] at hbefore
      rcases isBlocked_some_iff.mp hbefore with hdevice | hpeer
      · exact absurd hp (has_unblock.mp hdevice).2.1
      · exact (has_unblock.mp hpeer).1
  · rintro ⟨hdevices, howner⟩ q hne d
    -- a string other than `p` that had an entry keeps it
    have hkeep : ∀ x, x ≠ p → s.Has x → (s.unblock p none).Has x := fun x hx hhas =>
      has_unblock.mpr ⟨hhas, hx, fun d' hd' heq => hdevices d' hd' (heq ▸ hhas)⟩
    rw [Bool.eq_iff_iff]
    cases d with
    | none => grind [isBlocked_none_iff, has_unblock]
    | some d => grind [isBlocked_some_iff, has_unblock]

/-- **What unblocking a peer does**, after any sequence of calls. The peer is blocked on no
device exactly when every blocked device of it was registered; the other strings are as
they were exactly when no registered device of it was blocked, and the peer's entry was not
the entry of another peer's device. -/
theorem unblock_iff (calls : List BlockedCall) (p : String) :
    ((∀ d, isBlocked ((run step new calls).unblock p none).entries p d = false) ↔
      ∀ d, (run step new calls).Has (withDevice p d) →
        d ∈ (run step new calls).getKnownDevices p) ∧
    ((∀ q, q ≠ p → ∀ d, isBlocked ((run step new calls).unblock p none).entries q d
        = isBlocked (run step new calls).entries q d) ↔
      (∀ d ∈ (run step new calls).getKnownDevices p,
        ¬ (run step new calls).Has (withDevice p d)) ∧
      ∀ q d, withDevice q d = p → (run step new calls).Has p → (run step new calls).Has q) :=
  ⟨unblocked_iff, others_unchanged_iff⟩

/-- Device `d` of `p` is blocked by name, and `p` is then unblocked: the device stays
blocked. -/
theorem device_stays_blocked :
    isBlocked ((run step new
      [.block { BlockedIdentity.new 1 "p" with deviceId := some "d" }]).unblock "p" none).entries
        "p" (some "d") = true := by
  decide +kernel

/-! ## What the other calls change -/

theorem has_put {blocked : BlockedIdentity} {x y : String}
    (hkey : blocked.storageKey = blockedKey y none) : (s.put blocked).Has x ↔ x = y ∨ s.Has x := by
  unfold put Has
  rw [hkey, mem_insert, blockedKey_none_inj]

theorem has_block_none {blocked : BlockedIdentity} (hnone : blocked.deviceId = none) {x : String} :
    (s.block blocked).Has x ↔ s.Has x ∨ x = blocked.peerId ∨
      ∃ d ∈ s.getKnownDevices blocked.peerId, x = withDevice blocked.peerId d := by
  have hloop : ∀ (devices : List String) (s : BlockedStore),
      (devices.foldl (fun s d => s.put { blocked with deviceId := some d }) s).Has x ↔
        s.Has x ∨ ∃ d ∈ devices, x = withDevice blocked.peerId d := by
    intro devices
    induction devices with
    | nil => exact fun s => ⟨.inl, fun h => h.resolve_right nofun⟩
    | cons device devices ih =>
      intro s
      have hkey : ({ blocked with deviceId := some device } : BlockedIdentity).storageKey
          = blockedKey (withDevice blocked.peerId device) none := blockedKey_some _ _
      rw [foldl_cons, ih, has_put hkey, exists_mem_cons_iff]
      tauto
  unfold block
  rw [hnone]
  refine (hloop _ _).trans ?_
  rw [has_put (y := blocked.peerId) (congrArg (blockedKey blocked.peerId) hnone)]
  tauto

section
variable (s : BlockedStore) (blocked : BlockedIdentity)

theorem registry_block : (s.block blocked).registry = s.registry := by
  have hloop : ∀ (devices : List String) (s : BlockedStore),
      (devices.foldl (fun s d => s.put { blocked with deviceId := some d }) s).registry
        = s.registry := by
    intro devices
    induction devices with
    | nil => exact fun _ => rfl
    | cons device devices ih => exact fun s => ih _
  unfold block
  cases blocked.deviceId with
  | none => exact hloop _ _
  | some d => rfl

theorem getKnownDevices_block (q : String) :
    (s.block blocked).getKnownDevices q = s.getKnownDevices q := by
  unfold getKnownDevices
  rw [registry_block]

end

/-- Registering a device blocks it if the peer is blocked, and blocks nothing else. -/
theorem has_registerDeviceId {now : Nat} {x : String}
    (h : (s.registerDeviceId now p d).2.Has x) : s.Has x ∨ x = withDevice p d ∧ s.Has p := by
  unfold registerDeviceId at h
  dsimp only at h
  split at h
  next => exact .inl h
  split at h
  next hblocked =>
    rcases (has_put (by exact blockedKey_some p d)).mp h with rfl | hold
    · exact .inr ⟨rfl, isBlocked_none_iff.mp hblocked⟩
    · exact .inl hold
  next => exact .inl h

theorem mem_getKnownDevices_registerDeviceId {now : Nat} {e : String} :
    e ∈ (s.registerDeviceId now p d).2.getKnownDevices q ↔
      e ∈ s.getKnownDevices q ∨ q = p ∧ e = d := by
  have hgrown : e ∈ ((s.registry.insert p (s.getKnownDevices p ++ [d])).lookup q).getD [] ↔
      e ∈ s.getKnownDevices q ∨ q = p ∧ e = d := by
    by_cases heq : q = p
    · rw [heq, lookup_insert, Option.getD_some, mem_append, mem_singleton,
        and_iff_right rfl]
    · rw [lookup_insert_ne heq]
      exact ⟨.inl, fun h => h.resolve_right fun hq => heq hq.1⟩
  unfold registerDeviceId
  dsimp only
  split
  next hold => exact ⟨.inl, fun h => h.elim id fun ⟨hq, he⟩ => hq ▸ he ▸ hold⟩
  split
  next => exact hgrown
  next => exact hgrown

end BlockedStore

end Scm.Core
