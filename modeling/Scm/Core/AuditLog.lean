import Scm.HashChain
import Scm.Runs

/-!
# The audit log — `core/src/observability.rs`

Security-relevant events are kept in a hash chain: each one holds the hash of the one before, the
first one that of the genesis. `prune_before` drops a front of the log and keeps the hash of the
last dropped event, from which the chain then starts.

`Trail` follows a log with the event that was appended last. `Trail.Intact` is what the calls
keep: the events are linked from the head of the log, and `last_hash` is where they end.
`validate_chain` tests the first of the two only (`validateChain_eq_ok_iff`). What replaces the
events of a valid log is therefore noticed unless it is a chain from the same head, and
`tamperEvident_iff` says what those are: the log up to some point and then, in the place of what
followed, any other events linked to it, or none.

`chain_hash`, the Blake3 hash of the JSON text in hexadecimal, is a parameter.
-/

namespace Scm.Core

open List HashChain Runs

inductive AuditEventType where
  | identityCreated
  | identityDeleted
  | messageSent
  | messageReceived
  | relayEnabled
  | relayDisabled
  | contactAdded
  | contactBlocked
  | contactRemoved
  | backupExported
  | backupImported
  | consentGranted
  | storageCompacted
  deriving DecidableEq, Repr

structure AuditEvent where
  eventId : String
  eventType : AuditEventType
  timestampUnixSecs : UInt64
  identityId : Option String
  peerId : Option String
  details : Option String
  prevHash : String
  deriving DecidableEq, Repr

/-- `AuditLogError`, without the errors of the storage. -/
inductive AuditLogError where
  | chainBroken (eventIndex : Nat) (expected found : String)
  | emptyLog
  deriving DecidableEq, Repr

def genesisHash : String := "0000000000000000000000000000000000000000000000000000000000000000"

structure AuditLog where
  events : List AuditEvent
  lastHash : String
  prunedHeadHash : Option String
  deriving DecidableEq, Repr

namespace AuditLog

variable (chainHash : AuditEvent → String)

/-- `AuditLog::new`. -/
def new : AuditLog := ⟨[], genesisHash, none⟩

/-- What the first event has to name. -/
def head (log : AuditLog) : String := log.prunedHeadHash.getD genesisHash

/-- `append`, with the identifier and the clock reading of `AuditEvent::new`. -/
def append (log : AuditLog) (eventId : String) (now : UInt64) (eventType : AuditEventType)
    (identityId peerId details : Option String) : AuditEvent × AuditLog :=
  let event : AuditEvent :=
    ⟨eventId, eventType, now, identityId, peerId, details, log.lastHash⟩
  (event, { log with events := log.events ++ [event], lastHash := chainHash event })

/-- The events that `prune_before` drops and what it returns. -/
def pruneEvents (log : AuditLog) (beforeTimestamp : UInt64) : UInt32 × AuditLog :=
  match log.events.findIdx? fun e => e.timestampUnixSecs ≥ beforeTimestamp with
  | some 0 => (0, log)
  | some (i + 1) =>
    (UInt32.ofNat (i + 1), { log with
      prunedHeadHash := log.events[i]?.map chainHash
      events := log.events.drop (i + 1) })
  | none =>
    match log.events.getLast? with
    | some last =>
      (UInt32.ofNat log.events.length, { log with
        prunedHeadHash := some (chainHash last)
        events := [] })
    | none => (0, log)

/-- `prune_before`: an emptied log goes on from its head. -/
def pruneBefore (log : AuditLog) (beforeTimestamp : UInt64) : UInt32 × AuditLog :=
  let pruned := log.pruneEvents chainHash beforeTimestamp
  (pruned.1,
    if pruned.2.events.isEmpty then { pruned.2 with lastHash := pruned.2.head } else pruned.2)

/-- The tests of `validate_chain`, from the event with the given index on: the first event has to
name the head of the log, and each of the others the hash of the one before. -/
def validateFrom : Nat → String → List AuditEvent → Except AuditLogError Unit
  | _, _, [] => .ok ()
  | i, expected, event :: events =>
    if event.prevHash ≠ expected then .error (.chainBroken i expected event.prevHash)
    else validateFrom (i + 1) (chainHash event) events

/-- `validate_chain`. -/
def validateChain (log : AuditLog) : Except AuditLogError Unit :=
  if log.events.isEmpty then .error .emptyLog else validateFrom chainHash 0 log.head log.events

/-! ## What is validated -/

variable {chainHash : AuditEvent → String}

theorem validateFrom_eq_ok_iff (events : List AuditEvent) : ∀ (i : Nat) (expected : String),
    validateFrom chainHash i expected events = .ok () ↔
      Linked chainHash AuditEvent.prevHash expected events := by
  induction events with
  | nil => exact fun _ _ => ⟨fun _ => trivial, fun _ => rfl⟩
  | cons event events ih => grind [validateFrom, Linked]

/-- A log is valid when it is not empty and its events are linked from its head; where they end
does not matter. -/
theorem validateChain_eq_ok_iff {log : AuditLog} :
    log.validateChain chainHash = .ok () ↔
      log.events ≠ [] ∧ Linked chainHash AuditEvent.prevHash log.head log.events := by
  rw [validateChain]
  split
  next hempty =>
    exact ⟨fun h => (nomatch h), fun h => absurd (List.isEmpty_iff.mp hempty) h.1⟩
  next hempty =>
    rw [validateFrom_eq_ok_iff, and_iff_right fun h => hempty (List.isEmpty_iff.mpr h)]

/-! ## What the calls keep -/

/-- The events that go are a front of the log, and the head moves to their end. -/
theorem exists_pruned (chainHash : AuditEvent → String) (log : AuditLog)
    (beforeTimestamp : UInt64) :
    ∃ pruned kept, log.events = pruned ++ kept ∧
      (log.pruneEvents chainHash beforeTimestamp).2.events = kept ∧
      (log.pruneEvents chainHash beforeTimestamp).2.head = endHash chainHash log.head pruned ∧
      (log.pruneEvents chainHash beforeTimestamp).2.lastHash = log.lastHash := by
  unfold pruneEvents
  split
  next => exact ⟨[], log.events, rfl, rfl, rfl, rfl⟩
  next i hfind =>
    have hi : i < log.events.length := by
      have := (List.findIdx?_eq_some_iff_getElem.mp hfind).1
      omega
    refine ⟨log.events.take (i + 1), log.events.drop (i + 1), ?_, rfl, ?_, rfl⟩
    · rw [take_append_drop]
    · rw [take_succ_eq_append_getElem hi, endHash_concat]
      show (log.events[i]?.map chainHash).getD genesisHash = _
      rw [List.getElem?_eq_getElem hi]
      rfl
  split
  next last hlast =>
    obtain ⟨front, hfront⟩ := List.getLast?_eq_some_iff.mp hlast
    refine ⟨log.events, [], by rw [append_nil], rfl, ?_, rfl⟩
    rw [hfront, endHash_concat]
    rfl
  next => exact ⟨[], log.events, rfl, rfl, rfl, rfl⟩

end AuditLog

/-- The calls that change a log; `append` has the identifier and the clock reading it meets. -/
inductive AuditCall where
  | append (eventId : String) (now : UInt64) (eventType : AuditEventType)
    (identityId peerId details : Option String)
  | pruneBefore (beforeTimestamp : UInt64)
  deriving DecidableEq, Repr

/-- A log and the event appended last. -/
structure Trail where
  log : AuditLog
  latest : Option AuditEvent
  deriving DecidableEq, Repr

namespace Trail

variable (chainHash : AuditEvent → String)

def new : Trail := ⟨.new, none⟩

def step (trail : Trail) : AuditCall → Trail
  | .append eventId now eventType identityId peerId details =>
    let out := trail.log.append chainHash eventId now eventType identityId peerId details
    ⟨out.2, some out.1⟩
  | .pruneBefore beforeTimestamp =>
    { trail with log := (trail.log.pruneBefore chainHash beforeTimestamp).2 }

/-- The hash of the event appended last. -/
def latestHash (trail : Trail) : String := (trail.latest.map chainHash).getD genesisHash

/-- The events are linked from the head, and end where the next one has to begin. -/
structure Intact (trail : Trail) : Prop where
  linked : Linked chainHash AuditEvent.prevHash trail.log.head trail.log.events
  ends : endHash chainHash trail.log.head trail.log.events = trail.log.lastHash
  latest : trail.log.lastHash = trail.latestHash chainHash

variable {chainHash : AuditEvent → String} {trail : Trail}

theorem intact_new : Intact chainHash new := ⟨trivial, rfl, rfl⟩

section
variable (h : Intact chainHash trail) (eventId : String) (now : UInt64)
include h

theorem Intact.append (eventType : AuditEventType) (identityId peerId details : Option String) :
    Intact chainHash
      (trail.step chainHash (.append eventId now eventType identityId peerId details)) where
  linked := (linked_concat chainHash _).mpr ⟨h.linked, h.ends.symm⟩
  ends := endHash_concat chainHash _ _ _
  latest := rfl

theorem Intact.pruneBefore (beforeTimestamp : UInt64) :
    Intact chainHash (trail.step chainHash (.pruneBefore beforeTimestamp)) := by
  obtain ⟨pruned, kept, hevents, hkept, hhead, hlast⟩ :=
    AuditLog.exists_pruned chainHash trail.log beforeTimestamp
  have hlinked := h.linked
  rw [hevents, linked_append, ← hhead, ← hkept] at hlinked
  have hends := h.ends
  rw [hevents, endHash_append, ← hhead, ← hkept, ← hlast] at hends
  have hlatest := h.latest
  rw [← hlast] at hlatest
  unfold step AuditLog.pruneBefore
  dsimp only
  split
  next hempty =>
    rw [List.isEmpty_iff.mp hempty] at hends
    exact ⟨hlinked.2, by rw [List.isEmpty_iff.mp hempty]; rfl, hends.trans hlatest⟩
  next => exact ⟨hlinked.2, hends, hlatest⟩

theorem Intact.step (call : AuditCall) : Intact chainHash (trail.step chainHash call) := by
  cases call with
  | append eventId now eventType identityId peerId details =>
    exact h.append eventId now eventType identityId peerId details
  | pruneBefore beforeTimestamp => exact h.pruneBefore beforeTimestamp

end

/-- After any calls from an empty log, the log is valid unless it is empty, and `last_hash` is the
hash of the event appended last. -/
theorem valid_of_calls (chainHash : AuditEvent → String) (calls : List AuditCall) :
    let trail := run (step chainHash) new calls
    (trail.log.events ≠ [] → trail.log.validateChain chainHash = .ok ()) ∧
      trail.log.lastHash = trail.latestHash chainHash := by
  have hintact : Intact chainHash (run (step chainHash) new calls) :=
    run_invariant_always (fun _ call h => h.step call) calls new intact_new
  exact ⟨fun hne => AuditLog.validateChain_eq_ok_iff.mpr ⟨hne, hintact.linked⟩, hintact.latest⟩

end Trail

/-! ## Events put in the place of others -/

namespace AuditLog

variable (chainHash : AuditEvent → String)

/-- Other events in the place of the log's do not pass. -/
def TamperEvident (log : AuditLog) (other : List AuditEvent) : Prop :=
  other ≠ log.events → ({ log with events := other } : AuditLog).validateChain chainHash ≠ .ok ()

/-- The log is kept up to some point; from there on other events are linked to it, or none, and not
one of the log's stands in its place. -/
def Relinked (log : AuditLog) (other : List AuditEvent) : Prop :=
  ∃ kept cut added, log.events = kept ++ cut ∧ other = kept ++ added ∧ other ≠ [] ∧ cut ≠ added ∧
    Linked chainHash AuditEvent.prevHash (endHash chainHash log.head kept) added ∧
    ∀ (i : Nat) (event : AuditEvent), cut[i]? = some event → added[i]? ≠ some event

variable {chainHash : AuditEvent → String}

/-- Whatever the hash, events linked to a front of a valid log pass. -/
theorem Relinked.not_tamperEvident {log : AuditLog} {other : List AuditEvent}
    (hrelinked : log.Relinked chainHash other) (hvalid : log.validateChain chainHash = .ok ()) :
    ¬ log.TamperEvident chainHash other := by
  obtain ⟨kept, cut, added, hevents, rfl, hne, hchange, hadded, _⟩ := hrelinked
  have hlinked := (validateChain_eq_ok_iff.mp hvalid).2
  rw [hevents] at hlinked
  intro hevident
  refine hevident (fun hsame => hchange ?_) (validateChain_eq_ok_iff.mpr ⟨hne, ?_⟩)
  · exact (append_cancel_left (hsame.trans hevents)).symm
  · exact (linked_append chainHash _).mpr ⟨((linked_append chainHash _).mp hlinked).1, hadded⟩

theorem tamperEvident_iff {log : AuditLog} {other : List AuditEvent}
    (hinj : ∀ event ∈ log.events, ∀ event' ∈ other,
      chainHash event = chainHash event' → event = event')
    (hvalid : log.validateChain chainHash = .ok ()) :
    log.TamperEvident chainHash other ↔ ¬ log.Relinked chainHash other := by
  constructor
  · exact fun hevident hrelinked => hrelinked.not_tamperEvident hvalid hevident
  · intro hrelinked hother hpasses
    have hlinked := (validateChain_eq_ok_iff.mp hvalid).2
    obtain ⟨hne, hpasses⟩ := validateChain_eq_ok_iff.mp hpasses
    obtain ⟨kept, cut, added, hevents, hadded, happart⟩ :=
      exists_parting chainHash AuditEvent.prevHash hinj hlinked hpasses
    refine hrelinked ⟨kept, cut, added, hevents, hadded, hne, ?_, ?_, happart⟩
    · grind
    · rw [hadded] at hpasses
      exact ((linked_append chainHash _).mp hpasses).2

/-- Two events in the other order are noticed. -/
theorem tamperEvident_iff_swapped :
    let chainHash := AuditEvent.eventId
    let first := new.append chainHash "1" 0 .identityCreated none none none
    let second := first.2.append chainHash "2" 1 .contactAdded none (some "peer") none
    second.2.TamperEvident chainHash [second.1, first.1] := by
  refine (tamperEvident_iff (by decide) (by decide)).mpr ?_
  rintro ⟨kept, cut, added, hevents, hother, _, _, hadded, _⟩
  cases kept with
  | nil =>
    rw [nil_append] at hother
    rw [← hother] at hadded
    exact absurd hadded.1 (by decide)
  | cons event kept =>
    have hfirst := (List.cons.inj hevents).1.trans (List.cons.inj hother).1.symm
    exact absurd hfirst (by decide)

/-! A hash without collisions: the event itself, written so that each field shows its end. -/

/-- A stop before each character and a semicolon after the last. -/
def written : List Char → List Char
  | [] => [';']
  | c :: field => '.' :: c :: written field

def tally (n : Nat) : List Char := List.replicate n '.'

def optional (text : Option String) : List Char := text.elim [] fun t => '.' :: t.toList

def fieldsOf (event : AuditEvent) : List (List Char) :=
  [event.eventId.toList, tally event.eventType.ctorIdx, tally event.timestampUnixSecs.toNat,
    optional event.identityId, optional event.peerId, optional event.details,
    event.prevHash.toList]

def plainHash (event : AuditEvent) : String := String.ofList ((fieldsOf event).flatMap written)

theorem written_append_inj : ∀ {field field' x y : List Char},
    written field ++ x = written field' ++ y → field = field' ∧ x = y
  | [], [], _, _, h => ⟨rfl, (List.cons.inj h).2⟩
  | [], _ :: _, _, _, h => absurd (List.cons.inj h).1 (by decide)
  | _ :: _, [], _, _, h => absurd (List.cons.inj h).1 (by decide)
  | _ :: _, _ :: _, _, _, h => by
    obtain ⟨rfl, hrest⟩ := List.cons.inj (List.cons.inj h).2
    obtain ⟨rfl, hxy⟩ := written_append_inj hrest
    exact ⟨rfl, hxy⟩

theorem flatMap_written_inj : ∀ {fields fields' : List (List Char)},
    fields.length = fields'.length → fields.flatMap written = fields'.flatMap written →
      fields = fields'
  | [], [], _, _ => rfl
  | _ :: _, _ :: _, hlen, h => by
    obtain ⟨rfl, hrest⟩ := written_append_inj h
    rw [flatMap_written_inj (Nat.succ.inj hlen) hrest]

theorem tally_injective : Function.Injective tally := fun n m h => by
  have hlen := congrArg List.length h
  rwa [tally, tally, List.length_replicate, List.length_replicate] at hlen

theorem optional_injective : Function.Injective optional
  | none, none, _ => rfl
  | some _, some _, h => congrArg some (String.toList_inj.mp (List.cons.inj h).2)

theorem fieldsOf_injective : Function.Injective fieldsOf := by
  rintro ⟨id, type, time, identity, peer, details, prev⟩
    ⟨id', type', time', identity', peer', details', prev'⟩ h
  simp only [fieldsOf, List.cons.injEq, and_true] at h
  obtain ⟨hid, htype, htime, hidentity, hpeer, hdetails, hprev⟩ := h
  have htype : type = type' := by
    rw [← AuditEventType.ofNat_ctorIdx type, tally_injective htype, AuditEventType.ofNat_ctorIdx]
  rw [String.toList_inj.mp hid, htype, UInt64.toNat_inj.mp (tally_injective htime),
    optional_injective hidentity, optional_injective hpeer, optional_injective hdetails,
    String.toList_inj.mp hprev]

theorem plainHash_injective : Function.Injective plainHash := fun _ _ h =>
  fieldsOf_injective (flatMap_written_inj rfl (String.ofList_injective h))

/-- With such a hash, the last event can still be taken away or be changed. -/
theorem tail_not_tamperEvident :
    let first := new.append plainHash "1" 0 .identityCreated none none none
    let second := first.2.append plainHash "2" 1 .contactAdded none (some "peer") none
    Function.Injective plainHash ∧ second.2.validateChain plainHash = .ok () ∧
      ¬ second.2.TamperEvident plainHash [first.1] ∧
      ¬ second.2.TamperEvident plainHash [first.1, { second.1 with peerId := none }] := by
  intro first second
  have hvalid : second.2.validateChain plainHash = .ok () :=
    validateChain_eq_ok_iff.mpr ⟨cons_ne_nil _ _, rfl, rfl, trivial⟩
  refine ⟨plainHash_injective, hvalid, ?_, ?_⟩
  · refine Relinked.not_tamperEvident ⟨[first.1], [second.1], [], rfl, rfl, ?_⟩ hvalid
    exact ⟨cons_ne_nil _ _, cons_ne_nil _ _, trivial, fun _ _ _ h => nomatch h⟩
  · have hchange : second.1 ≠ { second.1 with peerId := none } :=
      fun h => nomatch congrArg AuditEvent.peerId h
    refine Relinked.not_tamperEvident ⟨[first.1], [second.1], _, rfl, rfl, ?_⟩ hvalid
    refine ⟨cons_ne_nil _ _, fun h => hchange (List.cons.inj h).1, ⟨rfl, trivial⟩, ?_⟩
    rintro (_ | i) event hcut hadded
    · exact hchange (Option.some.inj (hcut.trans hadded.symm))
    · nomatch hcut

end AuditLog

end Scm.Core
