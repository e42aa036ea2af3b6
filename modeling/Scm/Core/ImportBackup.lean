import Scm.Core.Contacts
import Scm.Core.Identity
import Scm.Crypto.SessionManager

/-!
# Importing a backup — `core/src/iron_core.rs`, `import_identity_backup`

The payload of a backup is the identity key, the ratchet sessions and two lists of contacts,
or, in old backups, the key alone. It is read to the end before anything is written: what
could fail while writing has failed before. Two of these checks are not made where the
writing is. The sessions are restored once on trial, into an empty manager, and then into
the live one, which passes over the peers it has; and the device metadata is read after the
new key is saved. Neither can fail any more (`exists_restoreSessions`,
`IdentityManager.importKeyBytes_error`), so an import that returns an error has changed
nothing.

An import that returns `Ok` has not always restored the backup (`importIdentityBackup_iff`).

`serde_json` is a parameter, and backends do not fail.
-/

namespace Scm.Core

open Bytes Crypto Store RatchetSessionManager SerializableRatchetSession IdentityManager

/-! ## The function -/

structure IdentityBackupPayload where
  version : UInt32
  identityKeyHex : String
  ratchetSessionsJson : Option String
  contacts : List ContactRecord
  bridgeContactsJson : Option String
  deriving DecidableEq, Repr

/-- The crates an import uses. -/
structure ImportPrimitives extends BackupPrimitives, IdentityPrimitives

/-- What `serde_json` reads, type by type, and the text of a `FromHexError`. -/
structure BackupReaders where
  payload : String → Option IdentityBackupPayload
  sessions : String → Except String SessionMap
  bridgeContacts : String → Option (List BridgeContact)
  hexError : String → String

/-- What is handed from the checks to the writing. -/
structure Validated where
  keyBytes : Bytes
  ratchetSessionsJson : Option String
  contacts : List ContactRecord
  bridgeContacts : List BridgeContact

/-- The parts of `IronCore` that backups touch. `bridgeContacts` is the `contacts.db` at
`storage_path`, when there is one; `auditLog` lists the identities of the `BackupImported`
events. -/
structure IdentityCore (D : DeviceCrates) where
  identity : IdentityManager D
  ratchetSessions : RatchetSessionManager
  contactManager : ContactManager
  bridgeContacts : Option BridgeContacts
  auditLog : List (Option String)

section
variable (R : BackupReaders)

/-- The sessions, restored into a manager. -/
def restoreSessions (m : RatchetSessionManager) :
    Option String → Except String Unit × RatchetSessionManager
  | none => (.ok (), m)
  | some json => m.deserializeSessionsStrict R.sessions R.hexError json

/-- The trial: into an empty manager, which is then dropped. -/
def probeSessions (json : Option String) : Except IronCoreError Unit :=
  match (restoreSessions R .new json).1 with
  | .ok () => .ok ()
  | .error _ => .error .corruptionDetected

def readBridgeContacts : Option String → Except IronCoreError (List BridgeContact)
  | none => .ok []
  | some json =>
    match R.bridgeContacts json with
    | some contacts => .ok contacts
    | none => .error .corruptionDetected

/-- The checks of `import_identity_backup`, on the decrypted payload. -/
def validate (text : String) : Except IronCoreError Validated :=
  match R.payload text with
  | some parsed =>
    match hexDecode parsed.identityKeyHex.toList with
    | none => .error .cryptoError
    | some keyBytes => do
      probeSessions R parsed.ratchetSessionsJson
      let bridgeContacts ← readBridgeContacts R parsed.bridgeContactsJson
      return {
        keyBytes
        ratchetSessionsJson := parsed.ratchetSessionsJson
        contacts := parsed.contacts
        bridgeContacts }
  | none =>
    -- a backup from before there was a structured payload
    match hexDecode text.toList with
    | none => .error .cryptoError
    | some keyBytes =>
      .ok { keyBytes, ratchetSessionsJson := none, contacts := [], bridgeContacts := [] }

variable (P : ImportPrimitives) {D : DeviceCrates} (generated : GeneratedMetadata D)

namespace IdentityCore

/-- The writing of `import_identity_backup`. -/
def commit (core : IdentityCore D) (v : Validated) : Except IronCoreError Unit × IdentityCore D :=
  match core.identity.importKeyBytes generated v.keyBytes with
  | (.error _, identity) => (.error .cryptoError, { core with identity })
  | (.ok (), identity) =>
    match restoreSessions R core.ratchetSessions v.ratchetSessionsJson with
    | (.error _, ratchetSessions) =>
      (.error .corruptionDetected, { core with identity, ratchetSessions })
    | (.ok (), ratchetSessions) =>
      (.ok (), {
        identity
        ratchetSessions
        contactManager := v.contacts.foldl ContactManager.add core.contactManager
        bridgeContacts := core.bridgeContacts.map fun bridge =>
          v.bridgeContacts.foldl BridgeContacts.add bridge
        auditLog := core.auditLog ++ [identity.identityId P.toIdentityPrimitives] })

/-- `import_identity_backup`. -/
def importIdentityBackup (core : IdentityCore D) (backup passphrase : String) :
    Except IronCoreError Unit × IdentityCore D :=
  match decryptBackup P.toBackupPrimitives backup passphrase with
  | .error _ => (.error .cryptoError, core)
  | .ok text =>
    match validate R text with
    | .error e => (.error e, core)
    | .ok v => core.commit R P generated v

end IdentityCore

end

/-! ## The checks cover the writing -/

section
variable {R : BackupReaders}

/-- When the trial goes well: the empty manager passes over nobody. -/
theorem probeSessions_eq_ok_iff {json : String} {map : SessionMap}
    (hparse : R.sessions json = .ok map) :
    probeSessions R (some json) = .ok () ↔ ∀ entry ∈ map.entries, entry.2.KeysDecode := by
  have hstrict : (∃ trial, RatchetSessionManager.new.deserializeSessionsStrict R.sessions
      R.hexError json = (.ok (), trial)) ↔ _ := exists_strict_iff hparse
  have hnobody : ∀ entry ∈ map.entries,
      (entry.1 ∉ RatchetSessionManager.new.sessions → entry.2.KeysDecode) ↔ entry.2.KeysDecode :=
    fun entry _ => imp_iff_right (AList.notMem_empty entry.1)
  rw [← forall₂_congr hnobody, ← hstrict]
  unfold probeSessions restoreSessions
  dsimp only
  cases RatchetSessionManager.new.deserializeSessionsStrict R.sessions R.hexError json with
  | mk result trial =>
    cases result with
    | error e => exact ⟨nofun, fun ⟨_, h⟩ => by cases h⟩
    | ok => exact ⟨fun _ => ⟨trial, rfl⟩, fun _ => rfl⟩

theorem exists_restoreSessions {json : Option String} (h : probeSessions R json = .ok ())
    (m : RatchetSessionManager) : ∃ m', restoreSessions R m json = (.ok (), m') := by
  cases json with
  | none => exact ⟨m, rfl⟩
  | some json =>
    cases hparse : R.sessions json with
    | error e =>
      unfold probeSessions restoreSessions deserializeSessionsStrict at h
      dsimp only at h
      rw [hparse] at h
      cases h
    | ok map =>
      have hkeys := (probeSessions_eq_ok_iff hparse).mp h
      exact (exists_strict_iff hparse).mpr fun entry hentry _ =>
        hkeys entry hentry

theorem validate_probed {text : String} {v : Validated} (h : validate R text = .ok v) :
    probeSessions R v.ratchetSessionsJson = .ok () := by
  unfold validate at h
  split at h
  next parsed _ =>
    split at h
    next => cases h
    next keyBytes _ =>
      obtain ⟨_, hprobe, h⟩ := bind_eq_ok h
      obtain ⟨bridgeContacts, -, h⟩ := bind_eq_ok h
      cases h
      exact hprobe
  split at h
  next => cases h
  cases h
  rfl

/-- When a structured payload passes, and what is handed over then. -/
theorem validate_eq_ok_iff {text : String} {payload : IdentityBackupPayload} {v : Validated}
    (hpayload : R.payload text = some payload) :
    validate R text = .ok v ↔
      hexDecode payload.identityKeyHex.toList = some v.keyBytes ∧
      probeSessions R payload.ratchetSessionsJson = .ok () ∧
      readBridgeContacts R payload.bridgeContactsJson = .ok v.bridgeContacts ∧
      v.ratchetSessionsJson = payload.ratchetSessionsJson ∧ v.contacts = payload.contacts := by
  unfold validate
  rw [hpayload]
  dsimp only
  cases hexDecode payload.identityKeyHex.toList with
  | none => exact ⟨nofun, nofun⟩
  | some keyBytes =>
    constructor
    · intro h
      obtain ⟨_, hprobe, h⟩ := bind_eq_ok h
      obtain ⟨bridgeContacts, hbridge, h⟩ := bind_eq_ok h
      cases h
      exact ⟨rfl, hprobe, hbridge, rfl, rfl⟩
    · rintro ⟨hkey, hprobe, hbridge, hjson, hcontacts⟩
      cases v
      cases hkey
      cases hjson
      cases hcontacts
      rw [hprobe, hbridge]
      rfl

end

namespace IdentityCore

section
variable {R : BackupReaders} {P : ImportPrimitives} {D : DeviceCrates}
  {generated : GeneratedMetadata D} {core after : IdentityCore D} {v : Validated}

theorem importIdentityBackup_of_valid {backup passphrase text : String}
    (hdecrypt : decryptBackup P.toBackupPrimitives backup passphrase = .ok text)
    (hvalid : validate R text = .ok v) :
    core.importIdentityBackup R P generated backup passphrase = core.commit R P generated v := by
  unfold importIdentityBackup
  rw [hdecrypt]
  dsimp only
  rw [hvalid]

theorem commit_error {e : IronCoreError} (hprobe : probeSessions R v.ratchetSessionsJson = .ok ())
    (h : core.commit R P generated v = (.error e, after)) : after = core := by
  unfold commit at h
  cases himport : core.identity.importKeyBytes generated v.keyBytes with
  | mk result identity =>
    rw [himport] at h
    cases result with
    | error keyError =>
      cases h
      rw [importKeyBytes_error himport]
    | ok =>
      obtain ⟨sessions, hsessions⟩ := exists_restoreSessions hprobe core.ratchetSessions
      rw [hsessions] at h
      cases h

/-- What has been written when the writing is done. -/
structure Committed (R : BackupReaders) (v : Validated) (core after : IdentityCore D) : Prop where
  identity : ∃ key : Key, key.toList = v.keyBytes ∧ after.identity.keys = some key ∧
    after.identity.store.HoldsKey key
  sessions : restoreSessions R core.ratchetSessions v.ratchetSessionsJson
    = (.ok (), after.ratchetSessions)
  contacts : after.contactManager = v.contacts.foldl ContactManager.add core.contactManager
  bridge : after.bridgeContacts
    = core.bridgeContacts.map fun bridge => v.bridgeContacts.foldl BridgeContacts.add bridge

theorem commit_ok (h : core.commit R P generated v = (.ok (), after)) :
    Committed R v core after := by
  unfold commit at h
  cases himport : core.identity.importKeyBytes generated v.keyBytes with
  | mk result identity =>
    rw [himport] at h
    cases result with
    | error keyError => cases h
    | ok =>
      cases hrestore : restoreSessions R core.ratchetSessions v.ratchetSessionsJson with
      | mk result sessions =>
        rw [hrestore] at h
        cases result with
        | error e => cases h
        | ok =>
          cases h
          exact ⟨importKeyBytes_ok himport, hrestore, rfl, rfl⟩

end

/-! ## What is restored -/

section
variable {D : DeviceCrates} (R : BackupReaders) (payload : IdentityBackupPayload)

/-- The core is as the backup says: its identity, every session, every contact. -/
structure Restored (core : IdentityCore D) : Prop where
  identity : ∃ key, IsHexOf payload.identityKeyHex key ∧ core.identity.keys = some key ∧
    core.identity.store.HoldsKey key
  sessions : ∀ json ∈ payload.ratchetSessionsJson, ∀ map, R.sessions json = .ok map →
    ∀ peerId snapshot, map.lookup peerId = some snapshot →
      ∃ session, core.ratchetSessions.sessions.lookup peerId = some session ∧
        snapshot.IsFormOf session
  contacts : ∀ contact ∈ payload.contacts,
    core.contactManager.get contact.peerId = some contact
  bridge : ∀ json ∈ payload.bridgeContactsJson, ∀ contacts, R.bridgeContacts json = some contacts →
    ∀ contact ∈ contacts, ∃ bridge, core.bridgeContacts = some bridge ∧
      bridge.get contact.peerId = some contact

/-- What the core and the payload have to be like for that. -/
structure Restorable (core : IdentityCore D) : Prop where
  /-- A peer that has a session has the backup's, and the others' chain keys are hex. -/
  sessions : ∀ json ∈ payload.ratchetSessionsJson, ∀ map, R.sessions json = .ok map →
    ∀ peerId snapshot, map.lookup peerId = some snapshot →
      (∀ live, core.ratchetSessions.sessions.lookup peerId = some live → snapshot.IsFormOf live) ∧
      (peerId ∉ core.ratchetSessions.sessions → snapshot.ChainKeysDecode)
  contacts : ∀ a ∈ payload.contacts, ∀ b ∈ payload.contacts, a.peerId = b.peerId → a = b
  bridge : ∀ json ∈ payload.bridgeContactsJson, ∀ contacts, R.bridgeContacts json = some contacts →
    (contacts = [] ∨ core.bridgeContacts.isSome = true) ∧
      ∀ a ∈ contacts, ∀ b ∈ contacts, a.peerId = b.peerId → a = b

end

section
variable {R : BackupReaders} {D : DeviceCrates} {core after : IdentityCore D} {v : Validated}

theorem restored_session_iff {m m' : RatchetSessionManager} {json : String} {map : SessionMap}
    (hparse : R.sessions json = .ok map) (h : restoreSessions R m (some json) = (.ok (), m'))
    {peerId : String} {snapshot : SerializableRatchetSession}
    (hsnapshot : map.lookup peerId = some snapshot) :
    (∃ session, m'.sessions.lookup peerId = some session ∧ snapshot.IsFormOf session) ↔
      (∀ live, m.sessions.lookup peerId = some live → snapshot.IsFormOf live) ∧
      (peerId ∉ m.sessions → snapshot.ChainKeysDecode) := by
  obtain ⟨hkept, hnew⟩ : (peerId ∈ m.sessions → _) ∧ _ :=
    lookup_of_strict_ok hparse h
  by_cases hmem : peerId ∈ m.sessions
  · obtain ⟨live, hlive⟩ := Option.isSome_iff_exists.mp (AList.lookup_isSome.mpr hmem)
    rw [hkept hmem, hlive]
    constructor
    · grind
    · exact fun h => ⟨live, rfl, h.1 live rfl⟩
  · obtain ⟨session, hinto, hsession⟩ := hnew hmem snapshot hsnapshot
    have hform := isFormOf_iff_of_ok hinto
    rw [hsession, AList.lookup_eq_none.mpr hmem]
    constructor
    · grind
    · exact fun h => ⟨session, rfl, hform.mpr (h.2 hmem)⟩

theorem restored_bridge_iff {bridge : Option BridgeContacts} {contacts : List BridgeContact} :
    (∀ contact ∈ contacts, ∃ bridge',
        (bridge.map fun db => contacts.foldl BridgeContacts.add db) = some bridge' ∧
        bridge'.get contact.peerId = some contact) ↔
      (contacts = [] ∨ bridge.isSome = true) ∧
        ∀ a ∈ contacts, ∀ b ∈ contacts, a.peerId = b.peerId → a = b := by
  cases bridge with
  | none => simp_all [List.eq_nil_iff_forall_not_mem]
  | some db =>
    rw [← BridgeContacts.stored_addAll_iff db]
    constructor
    · simp
    · exact fun h contact hcontact => ⟨_, rfl, h.2 contact hcontact⟩

theorem restored_iff_of_committed {text : String} {payload : IdentityBackupPayload}
    (hpayload : R.payload text = some payload) (hvalid : validate R text = .ok v)
    (h : Committed R v core after) : Restored R payload after ↔ Restorable R payload core := by
  obtain ⟨hkey, -, hbridge, hjson, hcontacts⟩ := (validate_eq_ok_iff hpayload).mp hvalid
  have hsessions := h.sessions
  rw [hjson] at hsessions
  constructor
  · intro hrestored
    refine ⟨fun json hmem map hparse peerId snapshot hsnapshot => ?_, ?_,
      fun json hmem contacts hparse => ?_⟩
    · rw [hmem] at hsessions
      exact (restored_session_iff hparse hsessions hsnapshot).mp
        (hrestored.sessions json hmem map hparse peerId snapshot hsnapshot)
    · refine (ContactManager.stored_addAll_iff core.contactManager _).mp ?_
      rw [← hcontacts, ← h.contacts, hcontacts]
      exact hrestored.contacts
    · rw [hmem, readBridgeContacts, hparse] at hbridge
      cases hbridge
      refine restored_bridge_iff.mp ?_
      rw [← h.bridge]
      exact hrestored.bridge json hmem _ hparse
  · intro hcan
    obtain ⟨key, hbytes, hkeys, hstore⟩ := h.identity
    refine ⟨⟨key, ?_, hkeys, hstore⟩, fun json hmem map hparse peerId snapshot hsnapshot => ?_, ?_,
      fun json hmem contacts hparse => ?_⟩
    · rw [IsHexOf, hkey, hbytes]
    · rw [hmem] at hsessions
      exact (restored_session_iff hparse hsessions hsnapshot).mpr
        (hcan.sessions json hmem map hparse peerId snapshot hsnapshot)
    · rw [h.contacts, hcontacts]
      exact (ContactManager.stored_addAll_iff core.contactManager _).mpr hcan.contacts
    · rw [hmem, readBridgeContacts, hparse] at hbridge
      cases hbridge
      rw [h.bridge]
      exact restored_bridge_iff.mpr (hcan.bridge json hmem _ hparse)

end

/-- **What an import does.** For every core, backup and passphrase: an import that returns an
error has changed nothing; and one of a structured payload that returns `Ok` has restored
the whole of it exactly when the peers that had a session had the backup's, the chain keys
of the others are hex, no two different contacts share a peer id, and there is a bridge for
the bridge's contacts. -/
theorem importIdentityBackup_iff (R : BackupReaders) (P : ImportPrimitives) (D : DeviceCrates)
    (generated : GeneratedMetadata D) (core : IdentityCore D) (backup passphrase : String) :
    (∀ e after, core.importIdentityBackup R P generated backup passphrase = (.error e, after) →
      after = core) ∧
    ∀ text payload after, decryptBackup P.toBackupPrimitives backup passphrase = .ok text →
      R.payload text = some payload →
      core.importIdentityBackup R P generated backup passphrase = (.ok (), after) →
      (Restored R payload after ↔ Restorable R payload core) := by
  constructor
  · intro e after h
    unfold importIdentityBackup at h
    split at h
    next =>
      cases h
      rfl
    next text _ =>
      split at h
      next =>
        cases h
        rfl
      next v hvalid => exact commit_error (validate_probed hvalid) h
  · intro text payload after hdecrypt hpayload h
    cases hvalid : validate R text with
    | error e =>
      unfold importIdentityBackup at h
      rw [hdecrypt] at h
      dsimp only at h
      rw [hvalid] at h
      cases h
    | ok v =>
      rw [importIdentityBackup_of_valid hdecrypt hvalid] at h
      exact restored_iff_of_committed hpayload hvalid (commit_ok h)

/-- A backup of an identity that has a session with `bob`, imported where another identity
has one, twelve steps on. -/
def demoPayload : IdentityBackupPayload where
  version := 2
  identityKeyHex := toHex (List.replicate 32 1)
  ratchetSessionsJson := some "sessions"
  contacts := []
  bridgeContactsJson := none

def demoReaders : BackupReaders where
  payload _ := some demoPayload
  sessions _ := .ok (AList.singleton "bob"
    (fromSession demoSession))
  bridgeContacts _ := some []
  hexError := id

def demoImport : ImportPrimitives where
  toBackupPrimitives := demoBackup
  verifyingKey := id
  ed25519PublicToX25519 := some

def demoDevice : DeviceCrates where
  uuidVersion _ := .ok 4
  parseU64 text := .ok (UInt64.ofNat (Nat.ofDigitChars 10 text.toList 0))
  utf8Error _ := "invalid utf-8"
  parseU64_toString n := by simp

def demoMetadata : GeneratedMetadata demoDevice := ⟨⟨"device", 0⟩, rfl⟩

/-- A manager on an empty backend takes a key, and the next start has it. -/
theorem imported_key_kept :
    ∃ db restarted, withBackend demoMetadata db = .ok restarted ∧
      restarted.keys = some (.replicate 32 2) := by
  let m : IdentityManager demoDevice :=
    ⟨.persistent ⟨none, none, none, none⟩, none, none, none, ⟨⟨none, rfl⟩, ⟨none, rfl⟩⟩⟩
  have himport : m.importKeyBytes demoMetadata (List.replicate 32 2) = (.ok (), _) := rfl
  obtain ⟨restarted, _, hstart, hkeys, _⟩ :=
    withBackend_of_importKeyBytes himport rfl demoMetadata
  exact ⟨_, restarted, hstart, hkeys⟩

def demoCore : IdentityCore demoDevice where
  identity := (IdentityManager.new.importKeyBytes demoMetadata (List.replicate 32 2)).2
  ratchetSessions := ⟨AList.singleton "bob"
    { demoSession with dhStepCount := 12 }⟩
  contactManager := ∅
  bridgeContacts := none
  auditLog := []

def demoBlob : String :=
  toHex (formatTagArgon2id :: (demoSalt 7).toList ++ (demoIv 8).toList ++
    demoSeal (demoDerived 1 (demoSalt 7).toList) (textBytes "hi"))

def demoImported : Except IronCoreError Unit × IdentityCore demoDevice :=
  demoCore.importIdentityBackup demoReaders demoImport demoMetadata demoBlob "pw"

theorem demoBlob_opens : decryptBackup demoBackup demoBlob "pw" = .ok "hi" := by
  have hkey : BackupLayout.tagged.key demoBackup "pw" (demoSalt 7).toList
      = some (demoDerived 1 (demoSalt 7).toList) := rfl
  have hmade : (demoDerived 1 (demoSalt 7).toList, (demoIv 8).toList, textBytes "hi") ∈ demoMade :=
    List.mem_cons_self
  have hsealed : demoBackup.aeadEncrypt (demoDerived 1 (demoSalt 7).toList) (demoIv 8).toList []
      (textBytes "hi") = some (demoSeal (demoDerived 1 (demoSalt 7).toList) (textBytes "hi")) := rfl
  refine decryptBackup_of_written demoBackup_ideal hkey hmade hsealed ?_
  rw [demoBlob, hexDecode_toHex, List.append_assoc]
  rfl

theorem demoPayload_probed :
    probeSessions demoReaders demoPayload.ratchetSessionsJson = .ok () := by
  have hparse : demoReaders.sessions "sessions" = .ok (AList.singleton "bob"
    (fromSession demoSession)) := rfl
  refine (probeSessions_eq_ok_iff hparse).mpr fun entry hentry => ?_
  rw [List.mem_singleton.mp hentry]
  exact exists_intoSession_iff.mp
    ⟨_, intoSession_fromSession id demoSession⟩

def demoValidated : Validated where
  keyBytes := List.replicate 32 1
  ratchetSessionsJson := some "sessions"
  contacts := []
  bridgeContacts := []

theorem demoImported_eq :
    demoImported = demoCore.commit demoReaders demoImport demoMetadata demoValidated := by
  have hpayload : demoReaders.payload "hi" = some demoPayload := rfl
  have hvalid : validate demoReaders "hi" = .ok demoValidated :=
    (validate_eq_ok_iff hpayload).mpr ⟨hexDecode_toHex _, demoPayload_probed, rfl, rfl, rfl⟩
  exact importIdentityBackup_of_valid demoBlob_opens hvalid

/-- The import succeeds; the identity is the backup's and the session is not. -/
theorem live_session_kept :
    decryptBackup demoImport.toBackupPrimitives demoBlob "pw" = .ok "hi" ∧
      demoImported.1 = .ok () ∧
      demoImported.2.identity.keys = some (.replicate 32 1) ∧
      (demoImported.2.ratchetSessions.sessions.lookup "bob").map RatchetSession.dhStepCount
        = some 12 ∧
      ¬ Restored demoReaders demoPayload demoImported.2 := by
  have himported : demoImported.1 = .ok () ∧
      demoImported.2.identity.keys = some (.replicate 32 1) ∧
      (demoImported.2.ratchetSessions.sessions.lookup "bob").map RatchetSession.dhStepCount
        = some 12 := by
    rw [demoImported_eq]
    decide +kernel
  obtain ⟨hok, hkeys, hlive⟩ := himported
  refine ⟨demoBlob_opens, hok, hkeys, hlive, fun hrestored => ?_⟩
  obtain ⟨session, hsession, hform⟩ := hrestored.sessions "sessions" rfl _ rfl "bob"
    (SerializableRatchetSession.fromSession RatchetSessionManager.demoSession) rfl
  rw [hsession] at hlive
  have hsteps := hform.dhStepCount
  rw [Option.some.inj hlive] at hsteps
  exact absurd hsteps (by decide)

end IdentityCore

end Scm.Core
