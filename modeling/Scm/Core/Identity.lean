import Scm.Crypto.Backup

/-!
# The identity manager — `core/src/identity/mod.rs` and `core/src/identity/store.rs`

The manager holds the signing key, the nickname and the metadata of this device, over a
store that is nothing at all or four records of a backend. A key is imported in three moves:
save it, hold it, make sure that there is device metadata. The last one reads the store, and
a record that does not parse is an error, by then with the new key in place.

It cannot come to that. `with_backend` reads the records once and refuses to make a manager
when they do not parse (the core then takes one in memory), and everything the manager
writes parses again. So `loads` is a field: an import of 32 bytes succeeds
(`importKeyBytes_of_key`), one of any other length changes nothing.

The backend does not fail. The `uuid` crate and `str::parse` are parameters; generated
metadata is an argument. Left out: `initialize`, signing, zeroising, logging.
-/

namespace Scm.Core

open Bytes Crypto

/-- The parsers that read the records of a device back, with their error texts. -/
structure DeviceCrates where
  /-- `Uuid::parse_str` and then `get_version_num`. -/
  uuidVersion : String → Except String Nat
  /-- `str::parse::<u64>`. -/
  parseU64 : String → Except String UInt64
  /-- The text of a `FromUtf8Error`. -/
  utf8Error : Bytes → String
  /-- `u64::to_string` writes what `parse` reads. -/
  parseU64_toString : ∀ n : UInt64, parseU64 (toString n.toNat) = .ok n

structure DeviceMetadata where
  deviceId : String
  seniorityTimestamp : UInt64
  deriving DecidableEq, Repr

/-- `DeviceMetadata::generate`: the id is a `Uuid::new_v4`. -/
structure GeneratedMetadata (D : DeviceCrates) extends DeviceMetadata where
  isV4 : D.uuidVersion deviceId = .ok 4

theorem size_toArray {bytes : Bytes} (h : bytes.length = 32) : bytes.toArray.size = 32 := by
  rw [List.size_toArray, h]

/-- `IdentityKeys::from_bytes`. -/
def identityKeysFromBytes (bytes : Bytes) : Except String Key :=
  if h : bytes.length = 32 then .ok ⟨bytes.toArray, size_toArray h⟩
  else .error "Invalid key bytes"

theorem identityKeysFromBytes_toList (key : Key) : identityKeysFromBytes key.toList = .ok key := by
  unfold identityKeysFromBytes
  simp [Vector.toList]

theorem toList_of_identityKeysFromBytes {bytes : Bytes} {key : Key}
    (h : identityKeysFromBytes bytes = .ok key) : key.toList = bytes := by
  unfold identityKeysFromBytes at h
  split at h
  next =>
    cases h
    simp [Vector.toList]
  next => cases h

/-! ## The store -/

/-- The records of the four keys. -/
structure IdentityRecords where
  identityKeys : Option Bytes
  identityNickname : Option Bytes
  identityDeviceId : Option Bytes
  identitySeniorityTimestamp : Option Bytes
  deriving DecidableEq, Repr

inductive IdentityStore where
  | memory
  | persistent (db : IdentityRecords)
  deriving DecidableEq, Repr

namespace IdentityStore

variable (D : DeviceCrates)

def saveKeys (key : Key) : IdentityStore → IdentityStore
  | memory => memory
  | persistent db => persistent { db with identityKeys := some key.toList }

def saveDeviceMetadata (metadata : DeviceMetadata) : IdentityStore → IdentityStore
  | memory => memory
  | persistent db => persistent { db with
      identityDeviceId := some (textBytes metadata.deviceId)
      identitySeniorityTimestamp := some (textBytes (toString metadata.seniorityTimestamp.toNat)) }

def loadKeys : IdentityStore → Except String (Option Key)
  | memory => .ok none
  | persistent db =>
    match db.identityKeys with
    | none => .ok none
    | some bytes => (identityKeysFromBytes bytes).map some

/-- `String::from_utf8` on a record that may be there. -/
def readText : Option Bytes → Except String (Option String)
  | none => .ok none
  | some bytes =>
    match String.fromUTF8? ⟨bytes.toArray⟩ with
    | some text => .ok (some text)
    | none => .error (D.utf8Error bytes)

def loadNickname : IdentityStore → Except String (Option String)
  | memory => .ok none
  | persistent db => readText D db.identityNickname

def loadDeviceId : IdentityStore → Except String (Option String)
  | memory => .ok none
  | persistent db => readText D db.identityDeviceId

def loadSeniorityTimestamp : IdentityStore → Except String (Option UInt64)
  | memory => .ok none
  | persistent db =>
    match readText D db.identitySeniorityTimestamp with
    | .error e => .error e
    | .ok none => .ok none
    | .ok (some text) =>
      match D.parseU64 text with
      | .error e => .error ("invalid stored seniority_timestamp: " ++ e)
      | .ok n => .ok (some n)

def loadDeviceMetadata (store : IdentityStore) : Except String (Option DeviceMetadata) :=
  match store.loadDeviceId D with
  | .error e => .error e
  | .ok deviceId =>
    match store.loadSeniorityTimestamp D with
    | .error e => .error e
    | .ok seniority =>
      match deviceId, seniority with
      | some deviceId, some seniorityTimestamp =>
        match D.uuidVersion deviceId with
        | .error e => .error ("invalid stored device_id: " ++ e)
        | .ok version =>
          if version ≠ 4 then .error "invalid stored device_id version: expected UUIDv4"
          else .ok (some { deviceId, seniorityTimestamp })
      -- none, or one of the two, which is as good as none
      | _, _ => .ok none

/-- `load_or_create_device_metadata`. -/
def loadOrCreateDeviceMetadata (generated : GeneratedMetadata D) (store : IdentityStore) :
    Except String (DeviceMetadata × IdentityStore) :=
  match store.loadDeviceMetadata D with
  | .error e => .error e
  | .ok (some metadata) => .ok (metadata, store)
  | .ok none =>
    .ok (generated.toDeviceMetadata, store.saveDeviceMetadata generated.toDeviceMetadata)

/-- The nickname and the device metadata parse. -/
structure Loads (store : IdentityStore) : Prop where
  nickname : ∃ nickname, store.loadNickname D = .ok nickname
  deviceMetadata : ∃ metadata, store.loadDeviceMetadata D = .ok metadata

/-- The key is in the store, if there is one. -/
def HoldsKey (key : Key) : IdentityStore → Prop
  | memory => True
  | persistent db => db.identityKeys = some key.toList

variable {D} {store : IdentityStore} {key : Key}

theorem readText_textBytes (text : String) :
    readText D (some (textBytes text)) = .ok (some text) := by
  unfold readText
  dsimp only
  rw [fromUTF8_textBytes]

theorem loads_memory : memory.Loads D := ⟨⟨none, rfl⟩, ⟨none, rfl⟩⟩

theorem Loads.saveKeys (h : store.Loads D) (key : Key) : (store.saveKeys key).Loads D := by
  cases store with
  | memory => exact h
  | persistent db => exact ⟨h.nickname, h.deviceMetadata⟩

theorem loadDeviceMetadata_save (generated : GeneratedMetadata D) (db : IdentityRecords) :
    ((persistent db).saveDeviceMetadata generated.toDeviceMetadata).loadDeviceMetadata D
      = .ok (some generated.toDeviceMetadata) := by
  unfold loadDeviceMetadata loadDeviceId loadSeniorityTimestamp saveDeviceMetadata
  dsimp only
  rw [readText_textBytes, readText_textBytes]
  dsimp only
  rw [D.parseU64_toString]
  dsimp only
  rw [generated.isV4]
  rfl

theorem Loads.saveDeviceMetadata (h : store.Loads D) (generated : GeneratedMetadata D) :
    (store.saveDeviceMetadata generated.toDeviceMetadata).Loads D := by
  cases store with
  | memory => exact h
  | persistent db => exact ⟨h.nickname, _, loadDeviceMetadata_save generated db⟩

theorem Loads.loadOrCreate (h : store.Loads D) (generated : GeneratedMetadata D) :
    ∃ metadata store', store.loadOrCreateDeviceMetadata D generated = .ok (metadata, store') ∧
      store'.Loads D ∧ ∀ key, store.HoldsKey key → store'.HoldsKey key := by
  obtain ⟨stored, hstored⟩ := h.deviceMetadata
  unfold loadOrCreateDeviceMetadata
  rw [hstored]
  cases stored with
  | some metadata => exact ⟨metadata, store, rfl, h, fun _ hkey => hkey⟩
  | none =>
    refine ⟨_, _, rfl, h.saveDeviceMetadata generated, fun key hkey => ?_⟩
    cases store with
    | memory => exact trivial
    | persistent db => exact hkey

theorem holdsKey_saveKeys (store : IdentityStore) (key : Key) :
    (store.saveKeys key).HoldsKey key := by
  cases store with
  | memory => exact trivial
  | persistent db => exact rfl

end IdentityStore

/-! ## The manager -/

/-- `IdentityManager`, over a store that can be read. -/
structure IdentityManager (D : DeviceCrates) where
  store : IdentityStore
  keys : Option Key
  nickname : Option String
  deviceMetadata : Option DeviceMetadata
  loads : store.Loads D

namespace IdentityManager

variable {D : DeviceCrates} (generated : GeneratedMetadata D)

/-- `IdentityManager::new`. -/
def new : IdentityManager D := ⟨.memory, none, none, none, IdentityStore.loads_memory⟩

/-- `ensure_device_metadata`. -/
def ensureDeviceMetadata (m : IdentityManager D) : Except String Unit × IdentityManager D :=
  if m.keys.isSome && m.deviceMetadata.isNone then
    match hcreate : m.store.loadOrCreateDeviceMetadata D generated with
    | .error e => (.error e, m)
    | .ok (metadata, store) =>
      (.ok (), { m with
        store
        deviceMetadata := some metadata
        loads := by
          obtain ⟨metadata', store', hload, hloads, -⟩ := m.loads.loadOrCreate generated
          rw [hload] at hcreate
          cases hcreate
          exact hloads })
  else (.ok (), m)

/-- `with_backend`, which is `hydrate_from_store` on an empty manager. -/
def withBackend (db : IdentityRecords) : Except String (IdentityManager D) :=
  match hnickname : (IdentityStore.persistent db).loadNickname D with
  | .error e => .error e
  | .ok nickname =>
    match (IdentityStore.persistent db).loadKeys with
    | .error e => .error e
    | .ok keys =>
      match hmetadata : (IdentityStore.persistent db).loadDeviceMetadata D with
      | .error e => .error e
      | .ok deviceMetadata =>
        let m : IdentityManager D :=
          { store := .persistent db, keys, nickname, deviceMetadata
            loads := ⟨⟨nickname, hnickname⟩, ⟨deviceMetadata, hmetadata⟩⟩ }
        match m.ensureDeviceMetadata generated with
        | (.error e, _) => .error e
        | (.ok (), m) => .ok m

/-- `import_key_bytes`. -/
def importKeyBytes (m : IdentityManager D) (bytes : Bytes) :
    Except String Unit × IdentityManager D :=
  match identityKeysFromBytes bytes with
  | .error e => (.error e, m)
  | .ok key =>
    ensureDeviceMetadata generated
      { m with store := m.store.saveKeys key, keys := some key, loads := m.loads.saveKeys key }

/-- `IdentityManager::identity_id`. -/
def identityId (P : IdentityPrimitives) (m : IdentityManager D) : Option String :=
  m.keys.map P.identityId

/-- `IdentityManager::public_key_hex`. -/
def publicKeyHex (P : IdentityPrimitives) (m : IdentityManager D) : Option String :=
  m.keys.map fun key => toHex (P.verifyingKey key).toList

/-- The metadata is always to be had, and getting it leaves the keys alone. -/
theorem exists_ensureDeviceMetadata (m : IdentityManager D) :
    ∃ m', m.ensureDeviceMetadata generated = (.ok (), m') ∧ m'.keys = m.keys ∧
      m'.nickname = m.nickname ∧ ∀ key, m.store.HoldsKey key → m'.store.HoldsKey key := by
  unfold ensureDeviceMetadata
  split
  next =>
    obtain ⟨metadata, store, hload, -, hkey⟩ := m.loads.loadOrCreate generated
    split
    next e herror =>
      rw [hload] at herror
      cases herror
    next metadata' store' hok => simp_all
  next => exact ⟨m, rfl, rfl, rfl, fun _ hkey => hkey⟩

variable {generated}

/-- The bytes of a key can be imported, and are then held and stored. -/
theorem importKeyBytes_of_key (m : IdentityManager D) (key : Key) :
    ∃ m', m.importKeyBytes generated key.toList = (.ok (), m') ∧ m'.keys = some key ∧
      m'.store.HoldsKey key := by
  unfold importKeyBytes
  rw [identityKeysFromBytes_toList]
  obtain ⟨m', hm', hkeys, -, hstore⟩ := exists_ensureDeviceMetadata generated
    { m with store := m.store.saveKeys key, keys := some key, loads := m.loads.saveKeys key }
  exact ⟨m', hm', hkeys, hstore key (IdentityStore.holdsKey_saveKeys m.store key)⟩

section
variable {m m' : IdentityManager D} {bytes : Bytes} {e : String}

theorem importKeyBytes_error (h : m.importKeyBytes generated bytes = (.error e, m')) : m' = m := by
  cases hkey : identityKeysFromBytes bytes with
  | error keyError => simp_all [importKeyBytes]
  | ok key =>
    obtain ⟨after, hafter, -⟩ :
      ∃ after, m.importKeyBytes generated key.toList = (.ok (), after) ∧ _ :=
      importKeyBytes_of_key m key
    rw [toList_of_identityKeysFromBytes hkey, h] at hafter
    cases hafter

/-- An import that succeeds was of the bytes of a key, which the manager and its store now
hold. -/
theorem importKeyBytes_ok (h : m.importKeyBytes generated bytes = (.ok (), m')) :
    ∃ key : Key, key.toList = bytes ∧ m'.keys = some key ∧ m'.store.HoldsKey key := by
  cases hkey : identityKeysFromBytes bytes with
  | error e =>
    unfold importKeyBytes at h
    rw [hkey] at h
    cases h
  | ok key =>
    have hbytes := toList_of_identityKeysFromBytes hkey
    obtain ⟨after, hafter, hheld⟩ :
      ∃ after, m.importKeyBytes generated key.toList = (.ok (), after) ∧ _ :=
      importKeyBytes_of_key m key
    rw [hbytes, h] at hafter
    cases hafter
    exact ⟨key, hbytes, hheld⟩

/-- **An imported identity survives a restart.** The manager that the next start makes of
the records has the key whose bytes were imported. -/
theorem withBackend_of_importKeyBytes {db : IdentityRecords}
    (h : m.importKeyBytes generated bytes = (.ok (), m')) (hstore : m'.store = .persistent db)
    (generated' : GeneratedMetadata D) :
    ∃ restarted key, withBackend generated' db = .ok restarted ∧ restarted.keys = m'.keys ∧
      restarted.keys = some key ∧ key.toList = bytes := by
  obtain ⟨key, hbytes, hkeys, hholds⟩ := importKeyBytes_ok h
  have hloads := m'.loads
  rw [hstore] at hholds hloads
  obtain ⟨nickname, hnickname⟩ := hloads.nickname
  obtain ⟨metadata, hmetadata⟩ := hloads.deviceMetadata
  have hload : (IdentityStore.persistent db).loadKeys = .ok (some key) := by
    have hrecord : db.identityKeys = some key.toList := hholds
    rw [IdentityStore.loadKeys, hrecord]
    dsimp only
    rw [identityKeysFromBytes_toList]
    rfl
  obtain ⟨restarted, hensure, hrestarted, -⟩ :=
    exists_ensureDeviceMetadata generated'
      (⟨.persistent db, some key, nickname, metadata,
        ⟨nickname, hnickname⟩, ⟨metadata, hmetadata⟩⟩ : IdentityManager D)
  refine ⟨restarted, key, ?_, hrestarted.trans hkeys.symm, hrestarted, hbytes⟩
  unfold withBackend
  split
  next e herror => grind
  next nickname' hok => grind

end

end IdentityManager

end Scm.Core
