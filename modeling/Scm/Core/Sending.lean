import Scm.Core.Prepare

/-!
# What `Ok` from `prepare_message` promises

A message that was prepared should wait somewhere until `mark_message_sent` takes it
away: in the recipient's queue of the outbox or, when the routing engine says
store-and-carry, in the drift store. Both can turn it away. The outbox refuses when it
is full, and `prepare_message` drops the refusal (`let _ = …enqueue(…)`); the drift
store evicts the lowest-scoring envelope when it is full, and that may be the new one.

`heldForSending_iff` says exactly when the promise is kept. `full_queue_drops_message` is
the other case: after a thousand messages to one recipient the next one is lost.
-/

namespace Scm.Core

open Bytes Crypto Drift Messaging Store MeshStore DriftEnvelope

section Sending

variable (S : SenderPrimitives) (lz4 : Lz4)

/-- `drift_contains`. -/
def driftContains (core : SendingCore) (messageId : String) : Bool :=
  match S.parseUuid messageId with
  | some uuid => (core.driftStore.get uuid).isSome
  | none => false

/-- The message waits in the recipient's queue or in the drift store. -/
def HeldForSending (core : SendingCore) (recipientId messageId : String) : Prop :=
  (∃ msg ∈ core.outbox.peekForPeer recipientId, msg.messageId = messageId) ∨
    driftContains S core messageId = true

/-- The message is in no queue and not in the drift store. -/
def Gone (core : SendingCore) (messageId : String) : Prop :=
  core.outbox.occurrences messageId = 0 ∧ driftContains S core messageId = false

/-- The message is held, is then found by `mark_message_sent`, and is gone after it. -/
def KeptUntilSent (core : SendingCore) (recipientId messageId : String) : Prop :=
  HeldForSending S core recipientId messageId ∧ (markMessageSent S core messageId).1 = true ∧
    Gone S (markMessageSent S core messageId).2 messageId

variable {S}

theorem driftContains_uuidText (hS : S.Correct) (core : SendingCore) (uuid : MessageId) :
    driftContains S core (S.uuidText uuid) = (core.driftStore.get uuid).isSome := by
  unfold driftContains
  rw [hS.parses]

/-- `mark_message_sent` says whether either place had the message, takes one copy out of
the outbox and any out of the drift store. -/
theorem markMessageSent_spec (hS : S.Correct) (core : SendingCore) (uuid : MessageId) :
    let out := markMessageSent S core (S.uuidText uuid)
    (out.1 = true ↔ 0 < core.outbox.occurrences (S.uuidText uuid) ∨
      (core.driftStore.get uuid).isSome = true) ∧
    out.2.outbox.occurrences (S.uuidText uuid) = core.outbox.occurrences (S.uuidText uuid) - 1 ∧
    driftContains S out.2 (S.uuidText uuid) = false := by
  intro out
  have hout : out = ((core.outbox.remove (S.uuidText uuid)).1 || (core.driftStore.get uuid).isSome,
      { core with
        outbox := (core.outbox.remove (S.uuidText uuid)).2
        driftStore := core.driftStore.erase uuid }) := by
    show markMessageSent S core (S.uuidText uuid) = _
    unfold markMessageSent
    rw [hS.parses]
    rfl
  rw [hout]
  refine ⟨?_, core.outbox.occurrences_remove _, ?_⟩
  · rw [Bool.or_eq_true, core.outbox.remove_fst]
  · rw [driftContains_uuidText hS]
    show ((core.driftStore.messages.erase uuid).lookup uuid).isSome = false
    rw [AList.lookup_erase]
    rfl

variable {draws : Draws} {core : SendingCore} {recipientId : String} {surroundings : Surroundings}

/-- A message with one copy in its recipient's queue, or none there and one in the drift
store, is kept until it is sent. -/
theorem keptUntilSent_of_queued (hS : S.Correct) {uuid : MessageId} (msg : QueuedMessage)
    (hmem : msg ∈ core.outbox.peekForPeer recipientId) (hid : msg.messageId = S.uuidText uuid)
    (hone : core.outbox.occurrences (S.uuidText uuid) = 1) :
    KeptUntilSent S core recipientId (S.uuidText uuid) := by
  obtain ⟨hfound, houtbox, hdrift⟩ := markMessageSent_spec hS core uuid
  refine ⟨.inl ⟨msg, hmem, hid⟩, hfound.mpr (.inl (by omega)), ?_, hdrift⟩
  rw [houtbox, hone]

theorem keptUntilSent_of_stored (hS : S.Correct) (recipientId : String) {uuid : MessageId}
    (hstored : (core.driftStore.get uuid).isSome = true)
    (hnone : core.outbox.occurrences (S.uuidText uuid) = 0) :
    KeptUntilSent S core recipientId (S.uuidText uuid) := by
  obtain ⟨hfound, houtbox, hdrift⟩ := markMessageSent_spec hS core uuid
  refine ⟨.inr ?_, hfound.mpr (.inr hstored), ?_, hdrift⟩
  · rw [driftContains_uuidText hS, hstored]
  · rw [houtbox, hnone]

theorem not_heldForSending_of_gone {messageId : String} (h : Gone S core messageId) :
    ¬ HeldForSending S core recipientId messageId := by
  rintro (⟨msg, hmem, rfl⟩ | hdrift)
  · have hpos := Outbox.occurrences_pos_of_mem_peek hmem
    rw [h.1] at hpos
    omega
  · rw [h.2] at hdrift
    cases hdrift

/-! ## Room for a new message -/

variable {δ : Type} [Preorder δ] [DecidableLT δ]

/-- `priority_score` at the clock of the call, as a function of the fields it reads. -/
def priorityScore (score : UInt8 → UInt8 → UInt32 → UInt32 → δ) (e : StoredEnvelope) : δ :=
  score e.priority e.hopCount e.createdAt e.ttlExpiry

variable (S) in
/-- The place the message goes to can take it. -/
def HasRoom (score : UInt8 → UInt8 → UInt32 → UInt32 → δ) (surroundings : Surroundings)
    (draws : Draws) (core : SendingCore) (recipientId : String) : Prop :=
  if handoffToDrift S surroundings draws recipientId then
    core.driftStore.len < core.driftStore.maxMessages ∨
      ∃ entry ∈ core.driftStore.messages.entries, priorityScore score entry.2
        < score 128 0 (UInt32.ofNat (seconds draws.sealedAt))
          (UInt32.ofNat (seconds draws.sealedAt) + 604800)
  else
    core.outbox.total < maxTotalQueued ∧
      (core.outbox.peekForPeer recipientId).length < maxQueuePerPeer

variable (S) in
/-- The message is new: its UUID was just drawn. -/
structure NewMessage (core : SendingCore) (uuid : MessageId) : Prop where
  outbox : core.outbox.occurrences (S.uuidText uuid) = 0
  driftStore : core.driftStore.get uuid = none

/-- The same surroundings with another order of the drift store's map and the scores as
its comparator. -/
def Surroundings.ordered (surroundings : Surroundings) (order : MeshStore → MeshStore)
    (score : UInt8 → UInt8 → UInt32 → UInt32 → δ) : Surroundings :=
  { surroundings with order, cmp := byScore (priorityScore score) }

omit [Preorder δ] [DecidableLT δ] in
/-- The fields of a sealed envelope that the drift store looks at. -/
theorem stored_of_sealMessage (hS : S.Correct) {lz4 : Lz4} {signingKey : Key} {text : String}
    {messageType : MessageType} {e : DriftEnvelope} {data : Bytes}
    (h : sealMessage S lz4 draws signingKey recipientId text messageType = .ok (e, data))
    (envelopeData : Bytes) (score : UInt8 → UInt8 → UInt32 → UInt32 → δ) :
    (storedEnvelope draws e envelopeData).messageId = draws.uuid ∧
      priorityScore score (storedEnvelope draws e envelopeData)
        = score 128 0 (UInt32.ofNat (seconds draws.sealedAt))
          (UInt32.ofNat (seconds draws.sealedAt) + 604800) := by
  obtain ⟨recipientPk, plaintext, envelope, _, _, hencrypt, hconvert, _⟩ := sealMessage_eq_ok h
  refine ⟨(toLegacyEnvelope_of_convert hS hencrypt hconvert).2.2.2, ?_⟩
  obtain ⟨ms, hms⟩ := ok_of_fromLegacyEnvelope hconvert
  rw [hms] at hconvert ⊢
  unfold fromLegacyEnvelope at hconvert
  rw [hS.parses] at hconvert
  dsimp only at hconvert
  repeat' split at hconvert
  all_goals cases hconvert
  rfl

theorem prepareMessage_eq_ok {lz4 : Lz4} {text : String} {messageType : MessageType}
    {prepared : PreparedMessage}
    (h : (prepareMessage S lz4 surroundings draws core recipientId text messageType).1
      = .ok prepared) :
    ∃ signingKey e data, sealMessage S lz4 draws signingKey recipientId text messageType
        = .ok (e, data) ∧ prepared.messageId = S.uuidText draws.uuid ∧
      ∀ order cmp, (prepareMessage S lz4 { surroundings with order, cmp } draws core recipientId
          text messageType).2
        = handOver S { surroundings with order, cmp } draws core recipientId e
          prepared.envelopeData := by
  unfold prepareMessage at h ⊢
  cases hkey : core.signingKey with
  | none =>
    rw [hkey] at h
    cases h
  | some signingKey =>
    rw [hkey] at h
    dsimp only at h ⊢
    cases hseal : sealMessage S lz4 draws signingKey recipientId text messageType with
    | error e =>
      rw [hseal] at h
      cases h
    | ok sealed =>
      rw [hseal] at h
      cases h
      exact ⟨signingKey, sealed.1, sealed.2, hseal, rfl, fun _ _ => rfl⟩

theorem handOver_drift (h : handoffToDrift S surroundings draws recipientId = true)
    (core : SendingCore) (e : DriftEnvelope) (envelopeData : Bytes) :
    let after := handOver S surroundings draws core recipientId e envelopeData
    after.driftStore = (core.driftStore.insertIn surroundings.order surroundings.cmp
        (storedEnvelope draws e envelopeData)).2 ∧ after.outbox = core.outbox := by
  unfold handOver
  rw [h]
  exact ⟨rfl, rfl⟩

theorem handOver_outbox (h : handoffToDrift S surroundings draws recipientId = false)
    (core : SendingCore) (e : DriftEnvelope) (envelopeData : Bytes) :
    let after := handOver S surroundings draws core recipientId e envelopeData
    after.outbox = (core.outbox.enqueue (queuedMessage S draws recipientId envelopeData)).2 ∧
      after.driftStore = core.driftStore := by
  unfold handOver
  rw [h]
  exact ⟨rfl, rfl⟩

/-- With the outbox out of the way, the message is kept exactly when the drift store
has it. -/
theorem keptUntilSent_drift_iff (hS : S.Correct)
    (hdrift : handoffToDrift S surroundings draws recipientId = true)
    (hnew : NewMessage S core draws.uuid) (e : DriftEnvelope) (envelopeData : Bytes) :
    KeptUntilSent S (handOver S surroundings draws core recipientId e envelopeData) recipientId
        (S.uuidText draws.uuid) ↔
      ((core.driftStore.insertIn surroundings.order surroundings.cmp
        (storedEnvelope draws e envelopeData)).2.get draws.uuid).isSome = true := by
  obtain ⟨hstore, houtbox⟩ := handOver_drift hdrift core e envelopeData
  generalize handOver S surroundings draws core recipientId e envelopeData
    = after at hstore houtbox ⊢
  have hnone : after.outbox.occurrences (S.uuidText draws.uuid) = 0 := by
    rw [houtbox]
    exact hnew.outbox
  rw [← hstore]
  constructor
  · intro hkept
    have hfound := (markMessageSent_spec hS after draws.uuid).1.mp hkept.2.1
    rw [hnone] at hfound
    exact hfound.resolve_left (Nat.lt_irrefl 0)
  · simp_all [keptUntilSent_of_stored]

/-- With the drift store out of the way, the message is kept exactly when the outbox
takes it. -/
theorem keptUntilSent_outbox_iff (hS : S.Correct)
    (hdrift : handoffToDrift S surroundings draws recipientId = false)
    (hnew : NewMessage S core draws.uuid) (e : DriftEnvelope) (envelopeData : Bytes) :
    KeptUntilSent S (handOver S surroundings draws core recipientId e envelopeData) recipientId
        (S.uuidText draws.uuid) ↔
      core.outbox.total < maxTotalQueued ∧
        (core.outbox.peekForPeer recipientId).length < maxQueuePerPeer := by
  obtain ⟨houtbox, hstore⟩ := handOver_outbox hdrift core e envelopeData
  refine Iff.trans ?_ (core.outbox.enqueue_ok_iff (queuedMessage S draws recipientId envelopeData))
  rcases core.outbox.enqueue_cases (queuedMessage S draws recipientId envelopeData) with
    ⟨hok, hpush⟩ | ⟨hrefused, hsame⟩
  · refine ⟨fun _ => hok, fun _ => ?_⟩
    rw [hpush] at houtbox
    refine keptUntilSent_of_queued hS (queuedMessage S draws recipientId envelopeData) ?_ rfl ?_
    · rw [houtbox]
      exact Outbox.mem_peekForPeer_push _ _
    · rw [houtbox]
      exact (Outbox.occurrences_push core.outbox _).trans (congrArg (· + 1) hnew.outbox)
  · refine ⟨fun hkept => ?_, fun hok => absurd hok hrefused⟩
    refine absurd hkept.1 (not_heldForSending_of_gone ⟨?_, ?_⟩)
    · rw [houtbox, hsame]
      exact hnew.outbox
    · rw [driftContains_uuidText hS, hstore, hnew.driftStore]
      rfl

/-- **What `Ok` promises, exactly.** For a drift store within its capacity and a fresh
message id, a message that was prepared is kept until it is sent, in whatever order the
drift store's map iterates, if and only if there was room for it. -/
theorem heldForSending_iff (hS : S.Correct) (lz4 : Lz4)
    (score : UInt8 → UInt8 → UInt32 → UInt32 → δ) (surroundings : Surroundings) (draws : Draws)
    (core : SendingCore) (recipientId text : String) (messageType : MessageType)
    (hbudget : core.driftStore.len ≤ core.driftStore.maxMessages)
    (hnew : NewMessage S core draws.uuid) {prepared : PreparedMessage}
    (hprepared : (prepareMessage S lz4 surroundings draws core recipientId text messageType).1
      = .ok prepared) :
    (∀ order, MeshStore.Reorders order → KeptUntilSent S (prepareMessage S lz4
        (surroundings.ordered order score) draws core recipientId text messageType).2 recipientId
        prepared.messageId) ↔
      HasRoom S score surroundings draws core recipientId := by
  obtain ⟨signingKey, e, data, hseal, hid, hafter⟩ := prepareMessage_eq_ok hprepared
  have hout (order : MeshStore → MeshStore) : (prepareMessage S lz4
      (surroundings.ordered order score) draws core recipientId text messageType).2
        = handOver S (surroundings.ordered order score) draws core recipientId e
          prepared.envelopeData := hafter order _
  have hroute (order : MeshStore → MeshStore) :
      handoffToDrift S (surroundings.ordered order score) draws recipientId
        = handoffToDrift S surroundings draws recipientId := rfl
  rw [hid]
  unfold HasRoom
  by_cases hdrift : handoffToDrift S surroundings draws recipientId = true
  · obtain ⟨huuid, hscore⟩ := stored_of_sealMessage hS hseal prepared.envelopeData score
    have hfresh : core.driftStore.get (storedEnvelope draws e prepared.envelopeData).messageId
        = none := by
      rw [huuid]
      exact hnew.driftStore
    rw [if_pos hdrift, ← hscore]
    refine Iff.trans ?_ (MeshStore.retained_iff (priorityScore score) hbudget hfresh)
    refine forall_congr' fun order => forall_congr' fun _ => ?_
    rw [hout, huuid]
    exact keptUntilSent_drift_iff hS ((hroute order).trans hdrift) hnew e prepared.envelopeData
  · have hnotDrift := Bool.eq_false_iff.mpr hdrift
    have hkept (order : MeshStore → MeshStore) := keptUntilSent_outbox_iff hS
      ((hroute order).trans hnotDrift) hnew e prepared.envelopeData
    rw [if_neg hdrift]
    constructor
    · intro hall
      have hid := hall id fun t => ⟨List.Perm.refl _, rfl⟩
      rw [hout] at hid
      exact (hkept id).mp hid
    · grind

end Sending

/-! ## A thousand messages to Bob -/

/-- The draws of Alice's message number `n`. -/
def draw (n : Nat) : Draws := { demoDraws with uuid := idOfNat n }

/-- Alice's core after `n` messages to Bob. -/
def flooded : Nat → SendingCore
  | 0 => demoSendingCore
  | n + 1 => (prepareMessage demoSenderPrimitives literalLz4 demoSurroundings (draw n)
      (flooded n) demoRecipientId "hi" .text).2

variable {core : SendingCore}

theorem prepareMessage_draw (n : Nat) (hkey : core.signingKey = some (demoKey 6)) :
    let out := prepareMessage demoSenderPrimitives literalLz4 demoSurroundings (draw n) core
      demoRecipientId "hi" .text
    ∃ prepared, out.1 = .ok prepared ∧
      prepared.messageId = demoSenderPrimitives.uuidText (idOfNat n) ∧
      out.2.outbox = (core.outbox.enqueue (queuedMessage demoSenderPrimitives (draw n)
        demoRecipientId prepared.envelopeData)).2 ∧
      out.2.driftStore = core.driftStore ∧ out.2.signingKey = core.signingKey := by
  have hclock : (draw n).sealedAt = some 1700000000000 := rfl
  obtain ⟨⟨e, data⟩, hseal⟩ := sealMessage_of_text_le demoSenderPrimitives_correct
    demoSenderPrimitives_sizes hclock (demoKey 6) .text parseRecipient_demo
    (show "hi".utf8ByteSize ≤ maxPayloadSize by decide)
  have hroute :
      handoffToDrift demoSenderPrimitives demoSurroundings (draw n) demoRecipientId = false :=
    rfl
  obtain ⟨houtbox, hstore⟩ := handOver_outbox hroute core e (wrapOnion demoSurroundings core data)
  unfold prepareMessage
  rw [hkey]
  dsimp only
  rw [hseal]
  exact ⟨_, rfl, rfl, houtbox, hstore, hkey⟩

/-- All that is queued is messages below `n`, for Bob. -/
structure Flooding (n : Nat) (core : SendingCore) : Prop where
  signingKey : core.signingKey = some (demoKey 6)
  driftStore : core.driftStore = MeshStore.new
  total : core.outbox.total = n
  queue : (core.outbox.peekForPeer demoRecipientId).length = n
  below : ∀ entry ∈ core.outbox.queues.entries, ∀ msg ∈ entry.2,
    ∃ k < n, msg.messageId = demoSenderPrimitives.uuidText (idOfNat k)

theorem uuidText_inj {j k : Nat} (hj : j < 256 ^ 16) (hk : k < 256 ^ 16)
    (h : demoSenderPrimitives.uuidText (idOfNat j)
      = demoSenderPrimitives.uuidText (idOfNat k)) : j = k := by
  have hparse := congrArg demoSenderPrimitives.parseUuid h
  simp only [demoSenderPrimitives_correct.parses] at hparse
  exact idOfNat_inj hj hk (Option.some.inj hparse)

theorem Flooding.newMessage {n : Nat} (h : Flooding n core) (hn : n ≤ 1000) :
    NewMessage demoSenderPrimitives core (idOfNat n) where
  outbox := by
    have hpos := Outbox.occurrences_pos_iff
      (demoSenderPrimitives.uuidText (idOfNat n)) core.outbox
    refine Nat.eq_zero_of_not_pos fun hsome => ?_
    obtain ⟨entry, hentry, msg, hmsg, hid⟩ := hpos.mp hsome
    obtain ⟨k, hk, hmsgId⟩ := h.below entry hentry msg hmsg
    have heq := uuidText_inj (by omega) (by omega) (hmsgId.symm.trans hid)
    omega
  driftStore := by
    rw [h.driftStore]
    rfl

theorem Flooding.prepareMessage {n : Nat} (h : Flooding n core) (hn : n < 1000) :
    Flooding (n + 1) (Scm.Core.prepareMessage demoSenderPrimitives literalLz4
      demoSurroundings (draw n) core demoRecipientId "hi" .text).2 := by
  obtain ⟨prepared, _, _, houtbox, hstore, hkey⟩ := prepareMessage_draw n h.signingKey
  have htotal := h.total
  have hqueue := h.queue
  have hlimits : maxTotalQueued = 10000 ∧ maxQueuePerPeer = 1000 := ⟨rfl, rfl⟩
  have hroom : core.outbox.total < maxTotalQueued ∧
      (core.outbox.peekForPeer demoRecipientId).length < maxQueuePerPeer := by omega
  rw [Outbox.enqueue_snd] at houtbox
  replace houtbox := houtbox.trans (if_pos hroom)
  refine ⟨hkey.trans h.signingKey, hstore.trans h.driftStore, ?_, ?_, ?_⟩
  · rw [houtbox]
    show core.outbox.total + 1 = n + 1
    rw [htotal]
  · rw [houtbox]
    show (((core.outbox.queues.insert demoRecipientId (core.outbox.peekForPeer demoRecipientId ++
      [_])).lookup demoRecipientId).getD []).length = n + 1
    rw [AList.lookup_insert, Option.getD_some, List.length_append, hqueue]
    rfl
  · rw [houtbox]
    intro entry hentry msg hmsg
    have hold : ∀ msg ∈ core.outbox.peekForPeer demoRecipientId,
        ∃ k < n + 1, msg.messageId = demoSenderPrimitives.uuidText (idOfNat k) := by
      intro msg hmsg
      unfold Outbox.peekForPeer at hmsg
      cases hlookup : core.outbox.queues.lookup demoRecipientId with
      | none => simp_all
      | some queue =>
        rw [hlookup] at hmsg
        obtain ⟨k, hk, hid⟩ := h.below _ (AList.mem_lookup_iff.mp hlookup) msg hmsg
        exact ⟨k, by omega, hid⟩
    have hentries : (core.outbox.push (queuedMessage demoSenderPrimitives (draw n) demoRecipientId
        prepared.envelopeData)).queues.entries = _ := AList.entries_insert ..
    rcases List.mem_cons.mp hentry with rfl | hkept
    · rcases List.mem_append.mp hmsg with hbefore | hnew
      · exact hold msg hbefore
      · cases List.mem_singleton.mp hnew
        exact ⟨n, by omega, rfl⟩
    · obtain ⟨k, hk, hid⟩ := h.below entry ((List.kerase_sublist _ _).subset hkept) msg hmsg
      exact ⟨k, by omega, hid⟩

theorem flooding : ∀ n ≤ 1000, Flooding n (flooded n)
  | 0, _ => ⟨rfl, rfl, rfl, rfl, fun _ h => by cases h⟩
  | n + 1, hn => (flooding n (by omega)).prepareMessage (by omega)

/-- The first message is kept. -/
theorem heldForSending_first :
    ∃ prepared, (prepareMessage demoSenderPrimitives literalLz4 demoSurroundings
        (draw 0) (flooded 0) demoRecipientId "hi" .text).1 = .ok prepared ∧
      ∀ order, MeshStore.Reorders order → KeptUntilSent demoSenderPrimitives
        (prepareMessage demoSenderPrimitives literalLz4
          (demoSurroundings.ordered order fun priority _ _ _ => priority.toNat) (draw 0) (flooded 0)
          demoRecipientId "hi" .text).2 demoRecipientId prepared.messageId := by
  have h := flooding 0 (by omega)
  obtain ⟨prepared, hprepared, _⟩ := prepareMessage_draw 0 h.signingKey
  refine ⟨prepared, hprepared, (heldForSending_iff demoSenderPrimitives_correct
    literalLz4 (fun priority _ _ _ => priority.toNat) demoSurroundings (draw 0)
    (flooded 0) demoRecipientId "hi" .text (Nat.zero_le _) (h.newMessage (by omega))
    hprepared).mpr ?_⟩
  show (flooded 0).outbox.total < maxTotalQueued ∧
    ((flooded 0).outbox.peekForPeer demoRecipientId).length < maxQueuePerPeer
  exact ⟨by decide, by decide⟩

/-- The thousand and first message to Bob is prepared, is in neither place, and
`mark_message_sent` does not know it. -/
theorem full_queue_drops_message :
    let out := prepareMessage demoSenderPrimitives literalLz4 demoSurroundings
      (draw 1000) (flooded 1000) demoRecipientId "hi" .text
    ∃ prepared, out.1 = .ok prepared ∧
      ¬ HeldForSending demoSenderPrimitives out.2 demoRecipientId prepared.messageId ∧
      (markMessageSent demoSenderPrimitives out.2 prepared.messageId).1 = false := by
  intro out
  have h := flooding 1000 (Nat.le_refl _)
  have hcore : out = prepareMessage demoSenderPrimitives literalLz4 demoSurroundings
    (draw 1000) (flooded 1000) demoRecipientId "hi" .text := rfl
  clear_value out
  generalize flooded 1000 = core at h hcore
  subst hcore
  have hnew := h.newMessage (Nat.le_refl _)
  obtain ⟨prepared, hprepared, hid, houtbox, hstore, _⟩ := prepareMessage_draw 1000 h.signingKey
  refine ⟨prepared, hprepared, ?_⟩
  rw [hid]
  generalize (prepareMessage demoSenderPrimitives literalLz4 demoSurroundings (draw 1000) core
    demoRecipientId "hi" .text).2 = after at houtbox hstore ⊢
  -- the queue is full, so the outbox is what it was
  have hfull : ¬ (core.outbox.total < maxTotalQueued ∧
      (core.outbox.peekForPeer demoRecipientId).length < maxQueuePerPeer) := by
    rw [h.queue]
    exact fun hroom => absurd hroom.2 (Nat.lt_irrefl 1000)
  rw [Outbox.enqueue_snd] at houtbox
  replace houtbox := houtbox.trans (if_neg hfull)
  have hnone : after.outbox.occurrences
      (demoSenderPrimitives.uuidText (MeshStore.idOfNat 1000)) = 0 := by
    rw [houtbox]
    exact hnew.outbox
  have hget : after.driftStore.get (MeshStore.idOfNat 1000) = none := by
    rw [hstore]
    exact hnew.driftStore
  refine ⟨not_heldForSending_of_gone ⟨hnone, ?_⟩, ?_⟩
  · rw [driftContains_uuidText demoSenderPrimitives_correct, hget]
    rfl
  · refine Bool.eq_false_iff.mpr fun hfound => ?_
    have hsomewhere := (markMessageSent_spec demoSenderPrimitives_correct after
      (MeshStore.idOfNat 1000)).1.mp hfound
    rw [hnone, hget] at hsomewhere
    rcases hsomewhere with hpos | hsome
    · exact absurd hpos (Nat.lt_irrefl 0)
    · cases hsome

end Scm.Core
