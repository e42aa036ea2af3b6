import Scm.Store.RegistryRuns

/-!
# Spellings of a device id

A device is a UUID, and a UUID has many texts: capitals or not, hyphens or not, white
space around it. `normalize_uuid_v4` parses the text to see that it is a UUID of version
4, and then keeps the trimmed text. So the registry compares spellings
(`interchangeable_iff`); a device that registers again with capitals is refused as another
device (`capitals_refused`).

`uuid` is `Uuid::parse_str`, of which the platform's `uuidVersion` is the version.
-/

namespace Scm.Store

/-! ## Up to the spelling of devices -/

section Alike

variable (uuid : String → Option Bytes)

/-- The same text, or two texts of one UUID. -/
def SameDevice (d d' : String) : Prop :=
  d = d' ∨ ∃ value, uuid d = some value ∧ uuid d' = some value

inductive StateAlike : RegistrationState → RegistrationState → Prop
  | active {d d' : String} (seniorityTimestamp : Nat) : SameDevice uuid d d' →
      StateAlike (.active d seniorityTimestamp) (.active d' seniorityTimestamp)
  | handover {f f' t t' : String} (initiatedAt : Nat) :
    SameDevice uuid f f' → SameDevice uuid t t' →
      StateAlike (.handover f t initiatedAt) (.handover f' t' initiatedAt)
  | abandoned {d d' : String} (abandonedAt : Nat) : SameDevice uuid d d' →
      StateAlike (.abandoned d abandonedAt) (.abandoned d' abandonedAt)

inductive EffectAlike : RegistrySideEffect → RegistrySideEffect → Prop
  | none : EffectAlike .none .none
  | migrate {f f' t t' : String} (identityId : String) : SameDevice uuid f f' →
      SameDevice uuid t t' → EffectAlike (.migrate identityId f t) (.migrate identityId f' t')
  | purge {d d' : Option String} (identityId : String) : Option.Rel (SameDevice uuid) d d' →
      EffectAlike (.purge identityId d) (.purge identityId d')

inductive ReplyAlike : RegistryReply → RegistryReply → Prop
  | failed (e : String) : ReplyAlike (.update (.error e)) (.update (.error e))
  | updated {s s' : RegistrationState} {e e' : RegistrySideEffect} : StateAlike uuid s s' →
      EffectAlike uuid e e' → ReplyAlike (.update (.ok ⟨s, e⟩)) (.update (.ok ⟨s', e'⟩))
  | state {s s' : Option RegistrationState} : Option.Rel (StateAlike uuid) s s' →
      ReplyAlike (.state s) (.state s')
  | refused (e : CustodyError) : ReplyAlike (.custody (.error e)) (.custody (.error e))
  | active {d d' : String} (identityId : String) : SameDevice uuid d d' →
      ReplyAlike (.custody (.ok (.active identityId d))) (.custody (.ok (.active identityId d')))
  | redirected {f f' t t' : String} (identityId : String) : SameDevice uuid f f' →
      SameDevice uuid t t' → ReplyAlike (.custody (.ok (.redirected identityId f t)))
        (.custody (.ok (.redirected identityId f' t')))

structure RecordAlike (record record' : RegistrationRecord) : Prop where
  identityId : record.identityId = record'.identityId
  state : StateAlike uuid record.state record'.state
  updatedAtMs : record.updatedAtMs = record'.updatedAtMs

structure TransitionAlike (t t' : RegistrationTransition) : Prop where
  identityId : t.identityId = t'.identityId
  fromState : Option.Rel (StateAlike uuid) t.fromState t'.fromState
  toState : StateAlike uuid t.toState t'.toState
  reason : t.reason = t'.reason
  atMs : t.atMs = t'.atMs
  sequence : t.sequence = t'.sequence

structure RegistryAlike (r r' : RelayRegistry) : Prop where
  records : ∀ key, Option.Rel (RecordAlike uuid) (r.records.lookup key) (r'.records.lookup key)
  transitions : ∀ key,
    Option.Rel (TransitionAlike uuid) (r.transitions.lookup key) (r'.transitions.lookup key)
  sequence : r.sequence = r'.sequence

theorem optionRel_refl {α : Type} {R : α → α → Prop} (h : ∀ a, R a a) (o : Option α) :
    Option.Rel R o o := by
  cases o with
  | none => exact .none
  | some a => exact .some (h a)

theorem SameDevice.refl (d : String) : SameDevice uuid d d := .inl rfl

theorem StateAlike.refl (s : RegistrationState) : StateAlike uuid s s := by
  cases s with
  | active d t => exact .active t (.refl uuid d)
  | handover f t start => exact .handover start (.refl uuid f) (.refl uuid t)
  | abandoned d since => exact .abandoned since (.refl uuid d)

theorem EffectAlike.refl (e : RegistrySideEffect) : EffectAlike uuid e e := by
  cases e with
  | none => exact .none
  | migrate i f t => exact .migrate i (.refl uuid f) (.refl uuid t)
  | purge i d => exact .purge i (optionRel_refl (SameDevice.refl uuid) d)

theorem ReplyAlike.refl (reply : RegistryReply) : ReplyAlike uuid reply reply := by
  cases reply with
  | update result =>
    cases result with
    | error e => exact .failed e
    | ok outcome => exact .updated (.refl uuid outcome.state) (.refl uuid outcome.sideEffect)
  | state s => exact .state (optionRel_refl (StateAlike.refl uuid) s)
  | custody result =>
    cases result with
    | error e => exact .refused e
    | ok enforcement =>
      cases enforcement with
      | active i d => exact .active i (.refl uuid d)
      | redirected i f t => exact .redirected i (.refl uuid f) (.refl uuid t)

theorem RegistryAlike.refl (r : RelayRegistry) : RegistryAlike uuid r r where
  records _ := optionRel_refl (fun record => ⟨rfl, .refl uuid record.state, rfl⟩) _
  transitions _ := optionRel_refl
    (fun t => ⟨rfl, optionRel_refl (StateAlike.refl uuid) _, .refl uuid t.toState, rfl, rfl, rfl⟩) _
  sequence := rfl

end Alike

/-! ## Respelled runs -/

/-- The text is kept, or it is the first spelling and the second one is put for it. -/
def Respelled (a b d d' : String) : Prop := d = d' ∨ d = a ∧ d' = b

/-- The same call, with some device ids respelled. -/
inductive CallRespelled (a b : String) : RegistryCall → RegistryCall → Prop
  | register (now : Nat) (identityId : String) {d d' : String} (seniorityTimestamp : Nat) :
      Respelled a b d d' → CallRespelled a b (.register now identityId d seniorityTimestamp)
        (.register now identityId d' seniorityTimestamp)
  | deregister (now : Nat) (identityId : String) {f f' : String} {t t' : Option String} :
      Respelled a b f f' → Option.Rel (Respelled a b) t t' →
      CallRespelled a b (.deregister now identityId f t) (.deregister now identityId f' t')
  | getState (now : Nat) (identityId : String) :
      CallRespelled a b (.getState now identityId) (.getState now identityId)
  | enforceCustody (now : Nat) (identityId : String) {d d' : String} : Respelled a b d d' →
      CallRespelled a b (.enforceCustody now identityId d) (.enforceCustody now identityId d')

namespace RelayRegistry

/-- What the calls of a run answer. -/
def replies (P : Platform) : RelayRegistry → List RegistryCall → List RegistryReply
  | _, [] => []
  | r, call :: calls => (r.answer P call).1 :: replies P (r.answer P call).2 calls

/-- In no run can the two spellings be told apart, but for the spelling of what is
answered and stored. -/
def Interchangeable (P : Platform) (uuid : String → Option Bytes) (a b : String) : Prop :=
  ∀ (r : RelayRegistry) (calls calls' : List RegistryCall),
    List.Forall₂ (CallRespelled a b) calls calls' →
    List.Forall₂ (ReplyAlike uuid) (r.replies P calls) (r.replies P calls') ∧
      RegistryAlike uuid (r.after P calls) (r.after P calls')

variable {P : Platform} {a b : String}

theorem normalizeUuidV4_congr {d d' : String} (h : P.trim d = P.trim d') (error : String) :
    normalizeUuidV4 P d error = normalizeUuidV4 P d' error := by
  unfold normalizeUuidV4
  rw [h]

section
variable (h : P.trim a = P.trim b)
include h

theorem Respelled.trim_eq {d d' : String} (hd : Respelled a b d d') : P.trim d = P.trim d' := by
  rcases hd with rfl | ⟨rfl, rfl⟩
  · rfl
  · exact h

theorem answer_eq (r : RelayRegistry) {call call' : RegistryCall}
    (hcall : CallRespelled a b call call') : r.answer P call = r.answer P call' := by
  cases hcall with
  | register now identityId seniorityTimestamp hd =>
    have hdevice := normalizeUuidV4_congr (Respelled.trim_eq h hd) "registration_device_id_invalid"
    simp only [answer, register, hdevice]
  | deregister now identityId hf ht =>
    have hfrom := normalizeUuidV4_congr (Respelled.trim_eq h hf)
      "deregistration_from_device_id_invalid"
    cases ht with
    | none => simp only [answer, deregister, hfrom]
    | some ht =>
      have htarget := normalizeUuidV4_congr (Respelled.trim_eq h ht)
        "deregistration_target_device_id_invalid"
      simp only [answer, deregister, hfrom, Option.mapM_some, htarget]
  | getState now identityId => rfl
  | enforceCustody now identityId hd =>
    have hdevice := normalizeUuidV4_congr (Respelled.trim_eq h hd) "registration_device_id_invalid"
    simp only [answer, enforceCustody, hdevice]

theorem replies_eq {calls calls' : List RegistryCall}
    (hcalls : List.Forall₂ (CallRespelled a b) calls calls') :
    ∀ r : RelayRegistry, r.replies P calls = r.replies P calls' ∧
      r.after P calls = r.after P calls' := by
  induction hcalls with
  | nil => exact fun r => ⟨rfl, rfl⟩
  | cons hcall _ ih =>
    intro r
    unfold replies after
    rw [Runs.run_cons, Runs.run_cons, answer_eq h r hcall, (ih _).1]
    exact ⟨rfl, (ih _).2⟩

end

/-! ## Registering twice -/

theorem normalizeUuidV4_of_value {uuid : String → Option Bytes}
    (hversion : ∀ text, P.uuidVersion text = (uuid text).map uuidVersionNum) {d : String}
    {value : Bytes} (hd : uuid (P.trim d) = some value) (hfour : uuidVersionNum value = 4)
    (error : String) : normalizeUuidV4 P d error = .ok (P.trim d) := by
  unfold normalizeUuidV4
  rw [hversion, hd, Option.map_some, hfour]
  rfl

/-- The second registration of an identity within fifteen days is a refresh only if the
text is the same. -/
theorem replies_register_twice {identityId i : String}
    (hid : normalizeIdentityId P identityId = .ok i) {x y : String}
    (ha : ∀ error, normalizeUuidV4 P a error = .ok x)
    (hb : ∀ error, normalizeUuidV4 P b error = .ok y) :
    noRegistrations.replies P [.register 1 identityId a 1, .register 1 identityId b 1]
      = [.update (.ok ⟨.active x 1, .none⟩),
        .update (if x = y then .ok ⟨.active y 1, .none⟩
          else .error "registration_active_conflict")] := by
  have hfirst : noRegistrations.register P 1 identityId a 1
      = (.ok ⟨.active x 1, .none⟩, noRegistrations.persistState i none (.active x 1)
          "registration_activated" 1) := by
    unfold register
    rw [hid, ha]
    rfl
  have hsecond := recordOf_persistState noRegistrations i none (.active x 1)
    "registration_activated" 1
  unfold replies replies replies answer
  dsimp only
  rw [hfirst]
  generalize noRegistrations.persistState i none (.active x 1) "registration_activated" 1 = r
    at hsecond ⊢
  have hread : r.getRecordByIdentityId 1 i = (some ⟨i, .active x 1, 1⟩, r) :=
    getRecord_of_settled hsecond nofun
  unfold register
  rw [hid, hb]
  dsimp only
  rw [hread, if_neg Nat.one_ne_zero]
  dsimp only [registerDecision]
  split_ifs with hsame hstale
  · rfl
  · exact absurd hstale (by decide)
  · rfl

/-- **Two accepted spellings of one device are interchangeable if and only if they are the
same text up to surrounding white space.** -/
theorem interchangeable_iff {uuid : String → Option Bytes}
    (hversion : ∀ text, P.uuidVersion text = (uuid text).map uuidVersionNum) {value : Bytes}
    (ha : uuid (P.trim a) = some value) (hb : uuid (P.trim b) = some value)
    (hfour : uuidVersionNum value = 4) {identityId i : String}
    (hid : normalizeIdentityId P identityId = .ok i) :
    Interchangeable P uuid a b ↔ P.trim a = P.trim b := by
  constructor
  · intro h
    by_contra hne
    have hcalls : List.Forall₂ (CallRespelled a b)
        [.register 1 identityId a 1, .register 1 identityId a 1]
        [.register 1 identityId a 1, .register 1 identityId b 1] :=
      .cons (.register 1 identityId 1 (.inl rfl))
        (.cons (.register 1 identityId 1 (.inr ⟨rfl, rfl⟩)) .nil)
    have hanswers := (h noRegistrations _ _ hcalls).1
    have hfirst := normalizeUuidV4_of_value hversion ha hfour
    rw [replies_register_twice hid hfirst hfirst, if_pos rfl,
      replies_register_twice hid hfirst (normalizeUuidV4_of_value hversion hb hfour),
      if_neg hne] at hanswers
    -- a refresh is not like a refusal
    cases hanswers with
    | cons _ hrest =>
      cases hrest with
      | cons hsecond _ => cases hsecond
  · intro h r calls calls' hcalls
    obtain ⟨hreplies, hafter⟩ := replies_eq h hcalls r
    rw [hreplies, hafter]
    exact ⟨List.forall₂_same.mpr fun reply _ => .refl uuid reply, .refl uuid _⟩

def laptop : String := "aaaaaaaa-aaaa-4aaa-8aaa-aaaaaaaaaaaa"

def laptopSpaced : String := " aaaaaaaa-aaaa-4aaa-8aaa-aaaaaaaaaaaa "

def laptopCapitals : String := "AAAAAAAA-AAAA-4AAA-8AAA-AAAAAAAAAAAA"

def laptopValue : Bytes :=
  [170, 170, 170, 170, 170, 170, 74, 170, 138, 170, 170, 170, 170, 170, 170, 170]

theorem interchangeable_iff_laptop :
    parseUuid (asciiPlatform.trim laptop) = some laptopValue ∧
      parseUuid (asciiPlatform.trim laptopSpaced) = some laptopValue ∧
      asciiPlatform.trim laptop = asciiPlatform.trim laptopSpaced ∧
      Interchangeable asciiPlatform parseUuid laptop laptopSpaced := by
  have hfirst : parseUuid (asciiPlatform.trim laptop) = some laptopValue := by decide +kernel
  have hsecond : parseUuid (asciiPlatform.trim laptopSpaced) = some laptopValue := by decide +kernel
  have htrim : asciiPlatform.trim laptop = asciiPlatform.trim laptopSpaced := by decide +kernel
  exact ⟨hfirst, hsecond, htrim,
    (interchangeable_iff (fun _ => rfl) hfirst hsecond rfl normalizeIdentityId_someIdentity).mpr
      htrim⟩

/-- The laptop registers and refreshes; with capitals it is refused. -/
theorem capitals_refused :
    parseUuid laptop = some laptopValue ∧ parseUuid laptopCapitals = some laptopValue ∧
    noRegistrations.replies asciiPlatform
        [.register 1 someIdentity laptop 1, .register 1 someIdentity laptop 1]
      = [.update (.ok ⟨.active laptop 1, .none⟩), .update (.ok ⟨.active laptop 1, .none⟩)] ∧
    noRegistrations.replies asciiPlatform
        [.register 1 someIdentity laptop 1, .register 1 someIdentity laptopCapitals 1]
      = [.update (.ok ⟨.active laptop 1, .none⟩),
        .update (.error "registration_active_conflict")] := by
  have hvalue : parseUuid laptop = some laptopValue := by decide +kernel
  have hcapitals : parseUuid laptopCapitals = some laptopValue := by decide +kernel
  have htrim : asciiPlatform.trim laptop = laptop := by decide +kernel
  have htrimCapitals : asciiPlatform.trim laptopCapitals = laptopCapitals := by decide +kernel
  have hne : laptop ≠ laptopCapitals := by decide
  have hfirst := normalizeUuidV4_of_value (P := asciiPlatform) (fun _ => rfl)
    ((congrArg parseUuid htrim).trans hvalue) rfl
  have hsecond := normalizeUuidV4_of_value (P := asciiPlatform) (fun _ => rfl)
    ((congrArg parseUuid htrimCapitals).trans hcapitals) rfl
  refine ⟨hvalue, hcapitals, ?_, ?_⟩
  · rw [replies_register_twice normalizeIdentityId_someIdentity hfirst hfirst, if_pos rfl, htrim]
  · simp_all [replies_register_twice, normalizeIdentityId_someIdentity]

end RelayRegistry

end Scm.Store
