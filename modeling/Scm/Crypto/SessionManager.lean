import Scm.Crypto.SessionSnapshot

/-!
# All sessions read back — `core/src/crypto/session_manager.rs`, `RatchetSessionManager`

The manager keeps one session per peer. Its sessions come back from a JSON map of
snapshots in two ways: `deserialize_sessions` at start-up, which drops what it cannot
decode, and `deserialize_sessions_strict` for a backup, which is there to fail instead.
Both leave a peer alone that already has a session.

The strict one decodes every entry before it inserts the first, so an error leaves the
manager as it was. But `into_session` is not strict all the way down: the two chain keys
are decoded with the result thrown away, and a text that is not hex becomes zeros.
`strict_restores_iff` says for which maps a success means what it says.

`serde_json` is a parameter: `fromStr` gives the entries in the iteration order of the
`HashMap`, which is any. The backend under `save` and `load` is left out.
-/

namespace Scm.Crypto

open AList List Bytes Collections Store SerializableRatchetSession

/-! ## The manager -/

/-- A `HashMap<String, SerializableRatchetSession>` as `serde_json` reads it. -/
abbrev SessionMap := AList fun _ : String => SerializableRatchetSession

structure RatchetSessionManager where
  sessions : AList fun _ : String => RatchetSession

namespace RatchetSessionManager

def new : RatchetSessionManager := ⟨∅⟩

section
variable (fromStr : String → Except String SessionMap) (hexError : String → String)

/-- The loop of `deserialize_sessions`. -/
def restoreEach (m : RatchetSessionManager) (map : SessionMap) : RatchetSessionManager :=
  map.entries.foldl
    (fun m entry =>
      if entry.1 ∈ m.sessions then m
      else
        match entry.2.intoSession hexError with
        | .ok session => ⟨m.sessions.insert entry.1 session⟩
        | .error _ => m)
    m

/-- `deserialize_sessions`. -/
def deserializeSessions (m : RatchetSessionManager) (json : String) :
    Except String Unit × RatchetSessionManager :=
  match fromStr json with
  | .error e => (.error ("Failed to deserialize ratchet sessions: " ++ e), m)
  | .ok map => (.ok (), m.restoreEach hexError map)

/-- The first loop of `deserialize_sessions_strict`: the list `decoded`. -/
def decodeEntries (existing : AList fun _ : String => RatchetSession) :
    List (Sigma fun _ : String => SerializableRatchetSession) →
      Except String (List (Sigma fun _ : String => RatchetSession))
  | [] => .ok []
  | entry :: rest =>
    if entry.1 ∈ existing then decodeEntries existing rest
    else
      match entry.2.intoSession hexError with
      | .error e => .error e
      | .ok session =>
        match decodeEntries existing rest with
        | .error e => .error e
        | .ok decoded => .ok (⟨entry.1, session⟩ :: decoded)

/-- `deserialize_sessions_strict`. -/
def deserializeSessionsStrict (m : RatchetSessionManager) (json : String) :
    Except String Unit × RatchetSessionManager :=
  match fromStr json with
  | .error e => (.error ("Failed to deserialize ratchet sessions: " ++ e), m)
  | .ok map =>
    match decodeEntries hexError m.sessions map.entries with
    | .error e => (.error e, m)
    | .ok decoded =>
      (.ok (), ⟨decoded.foldl (fun sessions entry => sessions.insert entry.1 entry.2) m.sessions⟩)

end

end RatchetSessionManager

/-! ## One snapshot -/

/-- The text is the hex form of the key. -/
def IsHexOf (value : String) (key : Key) : Prop := hexDecode value.toList = some key.toList

/-- The text is the hex form of some 32 bytes. -/
def IsKeyHex (value : String) : Prop := ∃ key, IsHexOf value key

theorem decodeKey_eq_ok_iff {hexError : String → String} {field value : String} {key : Key} :
    decodeKey hexError field value = .ok key ↔ IsHexOf value key := by
  unfold decodeKey IsHexOf
  cases hexDecode value.toList with
  | none => exact ⟨nofun, nofun⟩
  | some bytes =>
    dsimp only
    rw [Option.some.injEq]
    constructor
    · intro h
      split at h
      next => cases h
      next hlength =>
        have hbytes : (⟨bytes.toArray, by simpa using hlength⟩ : Key).toList = bytes := by
          simp [Vector.toList]
        rw [← Except.ok.inj h, ← hbytes, arrayAt_toList]
    · simp_all

theorem mapM_decodeKey_eq_ok_iff {hexError : String → String} {field : String}
    {value : Option String} {key : Option Key} :
    value.mapM (decodeKey hexError field) = .ok key ↔ Option.Rel IsHexOf value key := by
  cases value with
  | none =>
    constructor
    · intro h
      cases h
      exact .none
    · intro h
      cases h
      rfl
  | some value =>
    rw [Option.mapM_some]
    constructor
    · intro h
      cases hdecode : decodeKey hexError field value with
      | error e =>
        rw [hdecode] at h
        cases h
      | ok decoded =>
        rw [hdecode] at h
        cases h
        exact .some (decodeKey_eq_ok_iff.mp hdecode)
    · intro h
      cases h with
      | some hkey =>
        rw [decodeKey_eq_ok_iff.mpr hkey]
        rfl

/-- The chain is the one that was written: its key from the hex form, its position. -/
def ChainState.IsFormOf (state : ChainState) (chain : Chain) : Prop :=
  IsHexOf state.chainKeyHex chain.chainKey ∧ state.index = chain.index

namespace SerializableRatchetSession

/-- Every key field of the snapshot is the hex form of the session's key, and the counters
are the session's. -/
structure IsFormOf (snapshot : SerializableRatchetSession) (session : RatchetSession) : Prop where
  ourDhSecret : IsHexOf snapshot.ourDhSecretHex session.ourDhSecret
  ourDhPublic : IsHexOf snapshot.ourDhPublicHex session.ourDhPublic
  theirDhPublic : Option.Rel IsHexOf snapshot.theirDhPublicHex session.theirDhPublic
  rootKey : IsHexOf snapshot.rootKeyHex session.rootKey
  sendingChain : Option.Rel ChainState.IsFormOf snapshot.sendingChain session.sendingChain
  receivingChain : Option.Rel ChainState.IsFormOf snapshot.receivingChain session.receivingChain
  identitySecret : Option.Rel IsHexOf snapshot.identitySecretHex session.ourIdentitySecret
  dhStepCount : snapshot.dhStepCount = session.dhStepCount
  initialized : snapshot.initialized = session.initialized

/-- The key fields whose errors `into_session` returns are well formed. -/
structure KeysDecode (snapshot : SerializableRatchetSession) : Prop where
  ourDhSecret : IsKeyHex snapshot.ourDhSecretHex
  ourDhPublic : IsKeyHex snapshot.ourDhPublicHex
  theirDhPublic : ∀ value ∈ snapshot.theirDhPublicHex, IsKeyHex value
  rootKey : IsKeyHex snapshot.rootKeyHex
  identitySecret : ∀ value ∈ snapshot.identitySecretHex, IsKeyHex value

/-- The key fields whose errors it drops are well formed. -/
def ChainKeysDecode (snapshot : SerializableRatchetSession) : Prop :=
  (∀ state ∈ snapshot.sendingChain, IsKeyHex state.chainKeyHex) ∧
    ∀ state ∈ snapshot.receivingChain, IsKeyHex state.chainKeyHex

end SerializableRatchetSession

theorem bind_eq_ok {ε α β : Type} {x : Except ε α} {f : α → Except ε β} {b : β}
    (h : x >>= f = .ok b) : ∃ a, x = .ok a ∧ f a = .ok b := by
  cases x with
  | error e => cases h
  | ok a => exact ⟨a, rfl, h⟩

theorem exists_rel_iff {value : Option String} :
    (∃ key, Option.Rel IsHexOf value key) ↔ ∀ v ∈ value, IsKeyHex v := by
  constructor
  · rintro ⟨key, hkey⟩ v hv
    cases hkey with
    | none => cases hv
    | some h =>
      cases hv
      exact ⟨_, h⟩
  · intro h
    cases value with
    | none => exact ⟨none, .none⟩
    | some v =>
      obtain ⟨key, hkey⟩ := h v rfl
      exact ⟨some key, .some hkey⟩

/-- A chain is restored faithfully exactly when its key field is well formed. -/
theorem isFormOf_toChain_iff {state : Option ChainState} :
    Option.Rel ChainState.IsFormOf state (state.map ChainState.toChain) ↔
      ∀ s ∈ state, IsKeyHex s.chainKeyHex := by
  constructor
  · intro h s hs
    cases hs
    cases h with
    | some hform => exact ⟨_, hform.1⟩
  · intro h
    cases state with
    | none => exact .none
    | some s =>
      obtain ⟨key, hkey⟩ := h s rfl
      refine .some ⟨?_, rfl⟩
      show IsHexOf s.chainKeyHex (decodeToSlice s.chainKeyHex)
      rw [decodeToSlice_of_hexDecode hkey]
      exact hkey

namespace SerializableRatchetSession

variable {hexError : String → String} {snapshot : SerializableRatchetSession}
  {session : RatchetSession}

/-- What `into_session` returns: five fields decoded, the chains taken as they come. -/
theorem intoSession_eq_ok_iff :
    snapshot.intoSession hexError = .ok session ↔
      ∃ ourDhSecret ourDhPublic theirDhPublic rootKey ourIdentitySecret,
        IsHexOf snapshot.ourDhSecretHex ourDhSecret ∧
        IsHexOf snapshot.ourDhPublicHex ourDhPublic ∧
        Option.Rel IsHexOf snapshot.theirDhPublicHex theirDhPublic ∧
        IsHexOf snapshot.rootKeyHex rootKey ∧
        Option.Rel IsHexOf snapshot.identitySecretHex ourIdentitySecret ∧
        session = {
          ourDhSecret, ourDhPublic, theirDhPublic, rootKey, ourIdentitySecret
          sendingChain := snapshot.sendingChain.map ChainState.toChain
          receivingChain := snapshot.receivingChain.map ChainState.toChain
          dhStepCount := snapshot.dhStepCount
          skippedKeys := ∅
          initialized := snapshot.initialized } := by
  unfold intoSession
  constructor
  · intro h
    obtain ⟨ourDhSecret, h₁, h⟩ := bind_eq_ok h
    obtain ⟨ourDhPublic, h₂, h⟩ := bind_eq_ok h
    obtain ⟨theirDhPublic, h₃, h⟩ := bind_eq_ok h
    obtain ⟨rootKey, h₄, h⟩ := bind_eq_ok h
    obtain ⟨ourIdentitySecret, h₅, h⟩ := bind_eq_ok h
    exact ⟨ourDhSecret, ourDhPublic, theirDhPublic, rootKey, ourIdentitySecret,
      decodeKey_eq_ok_iff.mp h₁, decodeKey_eq_ok_iff.mp h₂, mapM_decodeKey_eq_ok_iff.mp h₃,
      decodeKey_eq_ok_iff.mp h₄, mapM_decodeKey_eq_ok_iff.mp h₅, (Except.ok.inj h).symm⟩
  · rintro ⟨ourDhSecret, ourDhPublic, theirDhPublic, rootKey, ourIdentitySecret, h₁, h₂, h₃, h₄,
      h₅, rfl⟩
    rw [decodeKey_eq_ok_iff.mpr h₁, decodeKey_eq_ok_iff.mpr h₂, mapM_decodeKey_eq_ok_iff.mpr h₃,
      decodeKey_eq_ok_iff.mpr h₄, mapM_decodeKey_eq_ok_iff.mpr h₅]
    rfl

theorem exists_intoSession_iff :
    (∃ session, snapshot.intoSession hexError = .ok session) ↔ snapshot.KeysDecode := by
  constructor
  · rintro ⟨session, hsession⟩
    obtain ⟨_, _, _, _, _, h₁, h₂, h₃, h₄, h₅, -⟩ := intoSession_eq_ok_iff.mp hsession
    exact ⟨⟨_, h₁⟩, ⟨_, h₂⟩, exists_rel_iff.mp ⟨_, h₃⟩, ⟨_, h₄⟩, exists_rel_iff.mp ⟨_, h₅⟩⟩
  · intro h
    obtain ⟨_, h₁⟩ := h.ourDhSecret
    obtain ⟨_, h₂⟩ := h.ourDhPublic
    obtain ⟨_, h₃⟩ := exists_rel_iff.mpr h.theirDhPublic
    obtain ⟨_, h₄⟩ := h.rootKey
    obtain ⟨_, h₅⟩ := exists_rel_iff.mpr h.identitySecret
    exact ⟨_, intoSession_eq_ok_iff.mpr ⟨_, _, _, _, _, h₁, h₂, h₃, h₄, h₅, rfl⟩⟩

/-- A session that comes back is the one that was written exactly when the chain keys were
well formed. -/
theorem isFormOf_iff_of_ok (h : snapshot.intoSession hexError = .ok session) :
    snapshot.IsFormOf session ↔ snapshot.ChainKeysDecode := by
  obtain ⟨_, _, _, _, _, h₁, h₂, h₃, h₄, h₅, rfl⟩ := intoSession_eq_ok_iff.mp h
  constructor
  · intro hform
    exact ⟨isFormOf_toChain_iff.mp hform.sendingChain, isFormOf_toChain_iff.mp hform.receivingChain⟩
  · rintro ⟨hsending, hreceiving⟩
    exact {
      ourDhSecret := h₁
      ourDhPublic := h₂
      theirDhPublic := h₃
      rootKey := h₄
      sendingChain := isFormOf_toChain_iff.mpr hsending
      receivingChain := isFormOf_toChain_iff.mpr hreceiving
      identitySecret := h₅
      dhStepCount := rfl
      initialized := rfl }

end SerializableRatchetSession

/-! ## The whole map -/

namespace RatchetSessionManager

variable {hexError : String → String} {existing : AList fun _ : String => RatchetSession}

variable {decoded : List (Sigma fun _ : String => RatchetSession)}
  {entries : List (Sigma fun _ : String => SerializableRatchetSession)}

section
variable (h : decodeEntries hexError existing entries = .ok decoded)
include h

theorem decodeEntries_keys_sublist : decoded.keys.Sublist entries.keys := by
  induction entries generalizing decoded with
  | nil =>
    cases h
    exact List.Sublist.refl _
  | cons entry rest ih =>
    unfold decodeEntries at h
    split at h
    next => exact (ih h).cons entry.1
    split at h
    next => cases h
    next session _ =>
      split at h
      next => cases h
      next tail htail => grind

/-- What the first loop collects: every entry it does not skip, decoded. -/
theorem mem_decodeEntries_iff {peerId : String} {session : RatchetSession} :
    ⟨peerId, session⟩ ∈ decoded ↔ peerId ∉ existing ∧
      ∃ snapshot, ⟨peerId, snapshot⟩ ∈ entries ∧ snapshot.intoSession hexError = .ok session := by
  induction entries generalizing decoded with
  | nil =>
    cases h
    exact ⟨nofun, fun ⟨_, _, hmem, _⟩ => by cases hmem⟩
  | cons entry rest ih =>
    unfold decodeEntries at h
    split at h
    next hskip =>
      rw [ih h]
      refine and_congr_right fun hnew => exists_congr fun snapshot => and_congr_left fun _ => ?_
      -- the entry that was skipped is not the peer's
      refine ⟨mem_cons_of_mem _, fun hmem => (mem_cons.mp hmem).resolve_left ?_⟩
      rintro rfl
      exact hnew hskip
    next hnew =>
      split at h
      next => cases h
      next first hfirst =>
        split at h
        next => cases h
        next tail htail => grind

end

/-- The first loop succeeds exactly when every entry it does not skip decodes. -/
theorem exists_decodeEntries_iff :
    (∃ decoded, decodeEntries hexError existing entries = .ok decoded) ↔
      ∀ entry ∈ entries, entry.1 ∉ existing → entry.2.KeysDecode := by
  induction entries with
  | nil => exact ⟨fun _ => nofun, fun _ => ⟨[], rfl⟩⟩
  | cons entry rest ih =>
    rw [forall_mem_cons]
    unfold decodeEntries
    rw [← ih]
    by_cases hskip : entry.1 ∈ existing
    · grind
    · rw [if_neg hskip]
      cases hfirst : entry.2.intoSession hexError with
      | error e =>
        refine ⟨nofun, fun h => ?_⟩
        obtain ⟨session, hsession⟩ : ∃ session, entry.2.intoSession hexError = .ok session :=
          exists_intoSession_iff.mpr (h.1 hskip)
        rw [hfirst] at hsession
        cases hsession
      | ok session =>
        have hkeys : entry.2.KeysDecode :=
          exists_intoSession_iff.mp ⟨session, hfirst⟩
        cases decodeEntries hexError existing rest with
        | error e => exact ⟨nofun, fun ⟨_, _, h⟩ => by cases h⟩
        | ok tail => exact ⟨fun _ => ⟨fun _ => hkeys, tail, rfl⟩, fun _ => ⟨_, rfl⟩⟩

section
variable (fromStr : String → Except String SessionMap) {m m' : RatchetSessionManager}
  {json : String}

/-- A strict restore fails and changes nothing, or decodes every entry and inserts them all. -/
theorem deserializeSessionsStrict_cases (m : RatchetSessionManager) (json : String) :
    (∃ e, m.deserializeSessionsStrict fromStr hexError json = (.error e, m)) ∨
    ∃ map decoded, fromStr json = .ok map ∧
      decodeEntries hexError m.sessions map.entries = .ok decoded ∧
      m.deserializeSessionsStrict fromStr hexError json
        = (.ok (), ⟨decoded.foldl (fun sessions entry => sessions.insert entry.1 entry.2)
            m.sessions⟩) := by
  unfold deserializeSessionsStrict
  cases hparse : fromStr json with
  | error parseError => exact .inl ⟨_, rfl⟩
  | ok map =>
    dsimp only
    cases hdecode : decodeEntries hexError m.sessions map.entries with
    | error entryError => exact .inl ⟨_, rfl⟩
    | ok decoded => exact .inr ⟨map, decoded, rfl, hdecode, rfl⟩

theorem deserializeSessionsStrict_error {e : String}
    (h : m.deserializeSessionsStrict fromStr hexError json = (.error e, m')) : m' = m := by
  rcases deserializeSessionsStrict_cases fromStr m json with ⟨_, hout⟩ | ⟨_, _, _, _, hout⟩
  · cases h.symm.trans hout
    rfl
  · cases h.symm.trans hout

variable {fromStr} {map : SessionMap}

theorem exists_strict_iff (hparse : fromStr json = .ok map) :
    (∃ m', m.deserializeSessionsStrict fromStr hexError json = (.ok (), m')) ↔
      ∀ entry ∈ map.entries, entry.1 ∉ m.sessions → entry.2.KeysDecode := by
  have hdecodes := @exists_decodeEntries_iff hexError m.sessions map.entries
  rw [← hdecodes]
  unfold deserializeSessionsStrict
  rw [hparse]
  dsimp only
  cases decodeEntries hexError m.sessions map.entries with
  | error e => exact ⟨fun ⟨_, h⟩ => (by cases h), nofun⟩
  | ok decoded => exact ⟨fun _ => ⟨decoded, rfl⟩, fun _ => ⟨_, rfl⟩⟩

/-- What it leaves: the peers that had a session keep it, the others of the map have the
session their entry decodes to. -/
theorem lookup_of_strict_ok (hparse : fromStr json = .ok map)
    (h : m.deserializeSessionsStrict fromStr hexError json = (.ok (), m')) {peerId : String} :
    (peerId ∈ m.sessions → m'.sessions.lookup peerId = m.sessions.lookup peerId) ∧
    (peerId ∉ m.sessions → ∀ snapshot, map.lookup peerId = some snapshot →
      ∃ session, snapshot.intoSession hexError = .ok session ∧
        m'.sessions.lookup peerId = some session) := by
  rcases deserializeSessionsStrict_cases fromStr m json with
    ⟨_, hout⟩ | ⟨_, decoded, hmap, hdecode, hout⟩
  · cases h.symm.trans hout
  · cases hparse.symm.trans hmap
    cases h.symm.trans hout
    have hkeys : decoded.NodupKeys :=
      List.Nodup.sublist (decodeEntries_keys_sublist hdecode) map.nodupKeys
    dsimp only
    rw [lookup_foldl_insert hkeys]
    constructor
    · intro hold
      have hnone : decoded.dlookup peerId = none := by
        grind [mem_decodeEntries_iff, dlookup_eq_none]
      rw [hnone]
      rfl
    · intro hnew snapshot hsnapshot
      have hentry := mem_lookup_iff.mp hsnapshot
      obtain ⟨session, hsession⟩ : ∃ session, snapshot.intoSession hexError = .ok session :=
        exists_intoSession_iff.mpr
          (exists_decodeEntries_iff.mp ⟨decoded, hdecode⟩ _ hentry hnew)
      have hmem := (mem_decodeEntries_iff hdecode).mpr ⟨hnew, snapshot, hentry, hsession⟩
      refine ⟨session, hsession, ?_⟩
      rw [(mem_dlookup_iff hkeys).mpr hmem]
      rfl

end

/-- **What a strict restore promises.** An error leaves the manager unchanged. A success
means that every key field of every entry that is not skipped is the hex form of the 32
bytes it is restored to exactly when, for a map whose other key fields are all well formed,
the chain keys are well formed too. -/
theorem strict_restores_iff (fromStr : String → Except String SessionMap)
    (hexError : String → String) (m : RatchetSessionManager) (json : String) :
    (∀ e m', m.deserializeSessionsStrict fromStr hexError json = (.error e, m') → m' = m) ∧
    ((∀ m', m.deserializeSessionsStrict fromStr hexError json = (.ok (), m') →
      ∀ map, fromStr json = .ok map → ∀ peerId snapshot, map.lookup peerId = some snapshot →
        peerId ∉ m.sessions →
        ∃ session, m'.sessions.lookup peerId = some session ∧ snapshot.IsFormOf session) ↔
    ∀ map, fromStr json = .ok map →
      (∀ entry ∈ map.entries, entry.1 ∉ m.sessions → entry.2.KeysDecode) →
      ∀ entry ∈ map.entries, entry.1 ∉ m.sessions → entry.2.ChainKeysDecode) := by
  refine ⟨fun e m' => deserializeSessionsStrict_error fromStr, ?_⟩
  constructor
  · intro hall map hparse hkeys entry hentry hnew
    obtain ⟨m', hok⟩ : ∃ m', m.deserializeSessionsStrict fromStr hexError json = (.ok (), m') :=
      (exists_strict_iff hparse).mpr hkeys
    have hlookup : map.lookup entry.1 = some entry.2 := mem_lookup_iff.mpr hentry
    obtain ⟨session, hsession, hform⟩ := hall m' hok map hparse entry.1 entry.2 hlookup hnew
    obtain ⟨session', hinto, hsession'⟩ := (lookup_of_strict_ok hparse hok).2 hnew _ hlookup
    cases hsession.symm.trans hsession'
    exact (SerializableRatchetSession.isFormOf_iff_of_ok hinto).mp hform
  · intro hchains m' hok map hparse peerId snapshot hlookup hnew
    obtain ⟨session, hinto, hsession⟩ := (lookup_of_strict_ok hparse hok).2 hnew _ hlookup
    have hkeys := (exists_strict_iff hparse).mp ⟨m', hok⟩
    exact ⟨session, hsession, (SerializableRatchetSession.isFormOf_iff_of_ok hinto).mpr
      (hchains map hparse hkeys ⟨peerId, snapshot⟩ (mem_lookup_iff.mp hlookup) hnew)⟩

theorem lookup_restoreEach (hexError : String → String) (m : RatchetSessionManager)
    (map : SessionMap) (peerId : String) :
    (m.restoreEach hexError map).sessions.lookup peerId
      = (m.sessions.lookup peerId).or
          ((map.lookup peerId).bind fun snapshot => (snapshot.intoSession hexError).toOption) := by
  obtain ⟨entries, hkeys⟩ := map
  unfold restoreEach
  induction entries generalizing m with
  | nil => exact Option.or_none.symm
  | cons entry rest ih =>
    obtain ⟨hnew, hrest⟩ := nodupKeys_cons.mp hkeys
    refine (ih _ hrest).trans ?_
    by_cases hpeer : peerId = entry.1
    · -- no other entry is for the peer
      subst hpeer
      have hnone : AList.lookup entry.1 ⟨rest, hrest⟩ = none := lookup_eq_none.mpr hnew
      have hfirst : AList.lookup entry.1 ⟨entry :: rest, hkeys⟩ = some entry.2 :=
        dlookup_cons_eq _ _ _
      rw [hnone, hfirst]
      cases hinto : entry.2.intoSession hexError <;> cases hm : m.sessions.lookup entry.1 <;>
        simp_all [Except.toOption, ← lookup_isSome]
    · have htail : AList.lookup peerId ⟨entry :: rest, hkeys⟩ = AList.lookup peerId ⟨rest, hrest⟩ :=
        dlookup_cons_ne _ _ hpeer
      rw [htail]
      congr 1
      grind [lookup_insert_ne]

/-- **What start-up restores.** For every manager and every text: a text that is no map is
refused. Otherwise a peer with a session keeps it, and any other peer of the map gets the session
its entry decodes to; an entry that does not decode costs no other peer anything. -/
theorem lookup_deserializeSessions (fromStr : String → Except String SessionMap)
    (hexError : String → String) (m : RatchetSessionManager) (json peerId : String) :
    let out := m.deserializeSessions fromStr hexError json
    (out.1 = .ok () ↔ ∃ map, fromStr json = .ok map) ∧
      out.2.sessions.lookup peerId = (m.sessions.lookup peerId).or
        (((fromStr json).toOption.bind fun map => map.lookup peerId).bind fun snapshot =>
          (snapshot.intoSession hexError).toOption) := by
  unfold deserializeSessions
  cases fromStr json with
  | error e => exact ⟨⟨nofun, nofun⟩, Option.or_none.symm⟩
  | ok map => exact ⟨⟨fun _ => ⟨map, rfl⟩, fun _ => rfl⟩, lookup_restoreEach hexError m map peerId⟩

/-- A session that has not sent or received yet. -/
def demoSession : RatchetSession where
  ourDhSecret := .replicate 32 1
  ourDhPublic := .replicate 32 2
  theirDhPublic := none
  rootKey := .replicate 32 3
  sendingChain := none
  receivingChain := none
  ourIdentitySecret := none
  dhStepCount := 0
  skippedKeys := ∅
  initialized := true

/-- A snapshot whose sending chain's key is no hex. -/
def demoSnapshot : SerializableRatchetSession :=
  { fromSession demoSession with sendingChain := some ⟨"zz", 3⟩ }

def demoRestore : Except String Unit × RatchetSessionManager :=
  new.deserializeSessionsStrict (fun _ => .ok (AList.singleton "bob" demoSnapshot)) id ""

/-- The strict restore takes it, and the chain goes on from a key of zeros. -/
theorem bad_chain_key_accepted :
    demoRestore.1 = .ok () ∧
      (demoRestore.2.sessions.lookup "bob").bind RatchetSession.sendingChain
        = some ⟨.replicate 32 0, 3⟩ ∧
      ¬ IsKeyHex "zz" := by
  refine ⟨by decide +kernel, by decide +kernel, ?_⟩
  rintro ⟨key, hkey⟩
  have hdecode : hexDecode "zz".toList = none := by decide +kernel
  cases hdecode.symm.trans hkey

end RatchetSessionManager

end Scm.Crypto
