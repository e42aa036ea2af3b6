import Mathlib.Data.List.Induction
import Scm.Store.CustodyIsolation
import Scm.Transport.Swarm

/-!
# What `accepted` promises

The relay answers `accepted` in three places: for a request it saw lately, without
looking at the store; for a message the store knows, by destination and message id;
and for one it takes in. The promise behind the answer is that the bytes of *this*
request are held, or were held and are accounted for: delivered, or purged with an
entry in the audit log.

Ids are chosen by senders, and the relay does not compare bytes:
`accepted_without_bytes`. The link between the window of recent requests and the store is
`Linked`. It is kept because nothing but a noted delivery or purge makes a record go away
(`Accounted.call`), whatever else the relay does (`Served`).
-/

namespace Scm.Store

namespace RelayCustodyStore

/-! ## Held and accounted for -/

/-- The message is stored, in whatever state. -/
def Held (r : CustodyMessage) (s : RelayCustodyStore) : Prop :=
  ∃ r' ∈ s.values, Same r r'

/-- The entry of a delivery or of a purge. -/
def IsDischargeOf (r : CustodyMessage) (t : CustodyTransition) : Prop :=
  t.custodyId = r.custodyId ∧ (t.toState = .delivered ∨ ∃ cause, t.reason = cause ++ "_purged")

/-- The message is stored, or the log says what became of it. -/
def Accounted (r : CustodyMessage) (s : RelayCustodyStore) : Prop :=
  Held r s ∨ Noted (IsDischargeOf r) s

variable {r : CustodyMessage} {P : Platform} {s t : RelayCustodyStore}

theorem held_of_lookup {r' : CustodyMessage} (key : String) (h : s.messages.lookup key = some r')
    (hsame : Same r r') : Held r s :=
  ⟨r', mem_values_of_lookup h, hsame⟩

/-- A record that moves is still held. -/
theorem Held.put {t : RelayCustodyStore} (h : Held r s) (hkeyed : Keyed s) {q q' : CustodyMessage}
    (hstored : s.messages.lookup q.key = some q) (hmoved : Same q q')
    (ht : t.messages = s.messages.insert q'.key q') : Held r t := by
  obtain ⟨r', hr', hsame⟩ := h
  have hlookup := hkeyed.lookup hr'
  by_cases hkey : r'.key = q.key
  · rw [hkey] at hlookup
    cases hlookup.symm.trans hstored
    refine held_of_lookup q'.key ?_ (hsame.trans hmoved)
    rw [ht]
    exact AList.lookup_insert _
  · refine held_of_lookup r'.key ?_ hsame
    rw [ht, hmoved.key, AList.lookup_insert_ne hkey]
    exact hlookup

/-- A record that is removed is held no longer, but the entry is about it. -/
theorem Held.remove (h : Held r s) (hkeyed : Keyed s) {now : Nat} {q : CustodyMessage}
    {fromState : Option CustodyState} {toState : CustodyState}
    {reason destination custodyId : String}
    (hentry : ∀ r', s.messages.lookup (messageKey destination custodyId) = some r' → Same r r' →
      IsDischargeOf r (s.entry now q fromState toState reason)) :
    Accounted r
      ((s.recordTransition now q fromState toState reason).removeMessage destination
        custodyId) := by
  obtain ⟨r', hr', hsame⟩ := h
  have hlookup := hkeyed.lookup hr'
  by_cases hkey : r'.key = messageKey destination custodyId
  · have hnoted := noted_recordTransition s now q _ _ _ (hentry r' (hkey ▸ hlookup) hsame)
    exact .inr (hnoted.removeMessage _ _)
  · refine .inl (held_of_lookup r'.key ?_ hsame)
    rw [messages_removeMessage, messages_recordTransition, AList.lookup_erase_ne hkey]
    exact hlookup

section
variable {now : Nat} {slack : Slack} {s' : RelayCustodyStore}

theorem Change.accounted (h : Change now slack s s') (hslack : slack ≠ .loose) (hkeyed : Keyed s)
    (hr : Accounted r s) : Accounted r s' := by
  rcases hr with hheld | hnoted
  · cases h with
    | shrink h =>
      cases h with
      | quiet hmessages =>
        obtain ⟨r', hr', hsame⟩ := hheld
        exact .inl ⟨r', by rw [values, hmessages]; exact hr', hsame⟩
      | @purge q reason hstored =>
        refine hheld.remove hkeyed fun r' hr' hsame => ?_
        cases hr'.symm.trans hstored
        exact ⟨hsame.custodyId, .inr ⟨reason, rfl⟩⟩
    | move _ hstored hmoves => exact .inl (hheld.put hkeyed hstored hmoves.same rfl)
    | deliver _ _ _ hstored =>
      refine hheld.remove hkeyed fun r' hr' hsame => ?_
      cases hr'.symm.trans hstored
      exact ⟨hsame.custodyId, .inl rfl⟩
    | @cut q destination reason hpermits =>
      -- there is nothing under the key
      refine hheld.remove hkeyed fun r' hr' _ => ?_
      cases slack with
      | strict => exact hpermits.elim
      | tidy => cases hr'.symm.trans hpermits.1
      | loose => exact absurd rfl hslack
  · exact .inr (h.noted hnoted)

theorem Changes.accounted (h : Changes now slack s s') (hslack : slack ≠ .loose) (hkeyed : Keyed s)
    (hr : Accounted r s) : Accounted r s' := by
  induction h with
  | refl => exact hr
  | tail hchain hstep ih => exact hstep.accounted hslack ((Changes.within hchain).keyed hkeyed) ih

end

theorem Accounted.enter (hkeyed : Keyed t) {n : Nat} (hbelow : Below n t) (now : Nat)
    {message : CustodyMessage} (hnumbered : Numbered message.custodyId n) (reason : String)
    (hr : Accounted r t) :
    Accounted r (t.enter now message reason) := by
  rcases hr with ⟨r', hr', hsame⟩ | hnoted
  · have hlookup := hkeyed.lookup hr'
    have hkey : r'.key ≠ message.key := by
      intro heq
      obtain ⟨k, hk, hrk⟩ := hbelow.stored r' hr'
      have hkn := hrk.of_messageKey_eq hnumbered heq
      omega
    refine .inl (held_of_lookup r'.key ?_ hsame)
    show (t.messages.insert message.key message).lookup r'.key = some r'
    rw [AList.lookup_insert_ne hkey]
    exact hlookup
  · have hput : Noted (IsDischargeOf r) (t.putMessage message) :=
      hnoted.of_transitions_eq rfl (Nat.le_refl _)
    exact .inr (hput.recordTransition now message none .accepted reason)

/-- **Nothing goes away unnoted.** -/
theorem Accounted.call (h : Sound s) (P : Platform) (c : CustodyCall) (hr : Accounted r s) :
    Accounted r (s.call P c) := by
  rcases h.call_cases .tidy P c nofun with hchanges | ⟨n, t, message, reason, hshrinks,
    hle, hlt, hnumbered, _, _, hcall⟩
  · exact hchanges.accounted nofun h.keyed hr
  · have hchanges : Changes c.now .tidy s t := hshrinks.changes
    rw [hcall]
    exact (hchanges.accounted nofun h.keyed hr).enter (hchanges.within.keyed h.keyed)
      ((hchanges.below nofun h h.below).mono hle) c.now hnumbered reason

theorem Held.markDispatching (hkeyed : Keyed s) (env : Reading)
    (destination custodyId reason : String) (hr : Held r s) :
    Held r (s.markDispatching env destination custodyId reason).2 := by
  unfold RelayCustodyStore.markDispatching
  split
  next => exact hr
  next record hrecord =>
    have hstored := lookup_of_requireRecord hrecord
    repeat' split
    · exact hr
    · exact hr
    · have hown : record.key = messageKey destination custodyId := (hkeyed _ _ hstored).symm
      rw [← hown] at hstored
      refine hr.put hkeyed hstored ?_ rfl
      exact ⟨rfl, rfl, rfl, rfl⟩

section
variable (P : Platform) (hkeyed : Keyed s) (env : Reading)
  (source destination relayMessageId : String) (data : Bytes)
  (identityId deviceId : Option String)
include hkeyed

/-- What an acceptance returns is stored, and either it was stored before and found by
the scan, or it has the bytes it was called with. -/
theorem acceptCustody_ok_spec
    (h : (s.acceptCustody P env source destination relayMessageId data identityId deviceId).1
      = .ok r) :
    r ∈ (s.acceptCustody P env source destination relayMessageId data identityId
      deviceId).2.values ∧
      r.relayMessageId = relayMessageId ∧
      (r ∈ s.scanPrefix (destinationPrefix destination) ∨
        r.destinationPeerId = destination ∧ r.envelopeData = data) := by
  rcases acceptCustody_cases P env source destination relayMessageId data identityId deviceId hkeyed
    with ⟨existing, hfound, hout⟩ | ⟨_, e, t, _, hout⟩ | ⟨_, _, n, t, reason, _, _, _, hout⟩
  · grind [findExisting, mem_scanPrefix, mem_values_of_lookup]
  · rw [hout] at h
    cases h
  · rw [hout] at h ⊢
    cases h
    exact ⟨mem_values_of_lookup (AList.lookup_insert _), rfl, .inr ⟨rfl, rfl⟩⟩

/-- What is stored after an acceptance was stored before, or has the bytes it was
called with. -/
theorem acceptCustody_values
    (hr : r ∈ (s.acceptCustody P env source destination relayMessageId data identityId
      deviceId).2.values) :
    (∃ q ∈ s.values, Same q r) ∨
      r.destinationPeerId = destination ∧ r.relayMessageId = relayMessageId ∧
        r.envelopeData = data := by
  rcases acceptCustody_cases P env source destination relayMessageId data identityId deviceId hkeyed
    with ⟨existing, _, hout⟩ | ⟨_, e, t, hshrinks, hout⟩ |
      ⟨_, _, n, t, reason, hshrinks, _, _, hout⟩
  · rw [hout] at hr
    exact .inl ⟨r, hr, .refl r⟩
  · rw [hout] at hr
    obtain ⟨q, hq, hsame, _⟩ := hshrinks.within.mem_values hr
    exact .inl ⟨q, hq, hsame⟩
  · rw [hout] at hr
    rcases mem_values_enter hr with rfl | hold
    · exact .inr ⟨rfl, rfl, rfl⟩
    · obtain ⟨q, hq, hsame, _⟩ := hshrinks.within.mem_values hold
      exact .inl ⟨q, hq, hsame⟩

end

/-! ## Everything else the relay does to its store -/

/-- A chain of calls that are no acceptances. -/
def Served (P : Platform) : RelayCustodyStore → RelayCustodyStore → Prop :=
  Relation.ReflTransGen fun s t => ∃ c : CustodyCall, ¬ c.IsAcceptance ∧ t = s.call P c

theorem Served.refl (s : RelayCustodyStore) : Served P s s :=
  Relation.ReflTransGen.refl

theorem Served.trans {u : RelayCustodyStore} (hst : Served P s t) (htu : Served P t u) :
    Served P s u :=
  Relation.ReflTransGen.trans hst htu

theorem Served.of_call (c : CustodyCall) (hc : ¬ c.IsAcceptance) (ht : t = s.call P c) :
    Served P s t :=
  Relation.ReflTransGen.single ⟨c, hc, ht⟩

theorem Served.spec (h : Served P s t) (hs : Sound s) :
    Sound t ∧ Within s t ∧ ∀ r, Accounted r s → Accounted r t := by
  induction h with
  | refl => exact ⟨hs, .refl s, fun _ hr => hr⟩
  | tail _ hstep ih =>
    obtain ⟨c, hc, rfl⟩ := hstep
    obtain ⟨hsound, hwithin, haccounted⟩ := ih
    have hchanges := hsound.changes_call .tidy P hc nofun
    exact ⟨hsound.call P c, hwithin.trans hchanges.within, fun r hr =>
      (haccounted r hr).call hsound P c⟩

end RelayCustodyStore

end Scm.Store

namespace Scm.Transport

open List AList Bytes Collections Store RelayCustodyStore Runs

namespace RelayNode

variable {Peer : Type} [DecidableEq Peer] (ids : PeerIds Peer) (P : Platform)
  (crc : Bytes → UInt32)

theorem books_served : Books (Served P) where
  refl := .refl
  trans := .trans
  dispatching _ env destination custodyId reason :=
    .of_call (.markDispatching env destination custodyId reason) id rfl
  failed _ env destination custodyId reason :=
    .of_call (.markDispatchFailed env destination custodyId reason) id rfl
  delivered _ env destination custodyId reason :=
    .of_call (.markDelivered env destination custodyId reason) id rfl
  converged _ env destination relayMessageId reason :=
    .of_call (.convergeDeliveredForMessage env destination relayMessageId reason) id rfl

section
variable {r : CustodyMessage} (env : Reading) (peer : Peer) (reason : String)

omit [DecidableEq Peer] in
theorem held_dispatchLoop (records : List CustodyMessage) :
    ∀ n : RelayNode Peer, Keyed n.custody → Held r n.custody →
      Held r (dispatchLoop ids crc env peer reason records n).1.custody := by
  induction records with
  | nil => exact fun n _ hr => hr
  | cons record records ih =>
    intro n hkeyed hr
    have hmarked := keyed_call plainPlatform hkeyed
      (.markDispatching env (ids.toText peer) record.custodyId reason)
    have hheld := hr.markDispatching hkeyed env (ids.toText peer) record.custodyId reason
    rw [call] at hmarked
    unfold dispatchLoop
    split
    next => exact hr
    split
    next heq =>
      rw [heq] at hmarked hheld
      exact ih _ hmarked hheld
    next heq =>
      rw [heq] at hmarked hheld
      exact ih _ hmarked hheld

theorem held_dispatchPendingCustodyForPeer (n : RelayNode Peer) (hkeyed : Keyed n.custody)
    (hr : Held r n.custody) :
    Held r (dispatchPendingCustodyForPeer ids crc env peer reason n).1.custody := by
  unfold dispatchPendingCustodyForPeer
  split
  next => exact hr
  split
  next => exact hr
  next => exact held_dispatchLoop ids crc env peer reason _ n hkeyed hr

end

theorem served_resolveCustodyMetadata (s : RelayCustodyStore) (env : Reading)
    (identityId deviceId : Option String) :
    Served P s (resolveCustodyMetadata P s env.now identityId deviceId).2 := by
  unfold resolveCustodyMetadata
  split
  next identityId deviceId =>
    have hcall : Served P s { s with
        registry := (s.registry.enforceCustody P env.now identityId deviceId).2 } :=
      .of_call (.enforceCustody env identityId deviceId) id rfl
    split
    all_goals
      next heq => grind
  next => exact .refl s

/-- What can happen at a relay, with what reaches its store from outside the relay
protocol: registrations that were verified, and the application's call to make room. -/
inductive NodeEvent (Peer : Type) where
  | relay (event : RelayEvent Peer)
  | register (env : Reading) (identityId deviceId : String) (seniorityTimestamp : Nat)
  | deregister (env : Reading) (identityId fromDeviceId : String) (targetDeviceId : Option String)
  | enforceStoragePressure (env : Reading)

/-- The node after an event. -/
def react (n : RelayNode Peer) : NodeEvent Peer → RelayNode Peer
  | .relay event => (n.step ids P crc event).1
  | .register env identityId deviceId seniorityTimestamp =>
    { n with custody :=
      (n.custody.registerIdentity P env identityId deviceId seniorityTimestamp).2 }
  | .deregister env identityId fromDeviceId targetDeviceId =>
    { n with
      custody := (n.custody.deregisterIdentity P env identityId fromDeviceId targetDeviceId).2 }
  | .enforceStoragePressure env => { n with custody := (n.custody.enforceStoragePressure env).2 }

/-- An event that is no relay request. -/
def NodeEvent.IsRequest : NodeEvent Peer → Prop
  | .relay (.relayRequest _ _ _ _ _) => True
  | _ => False

theorem served_react (n : RelayNode Peer) {event : NodeEvent Peer} (h : ¬ event.IsRequest) :
    Served P n.custody (n.react ids P crc event).custody ∧
      (n.react ids P crc event).recentDuplicates = n.recentDuplicates := by
  cases event with
  | register env identityId deviceId seniorityTimestamp =>
    exact ⟨.of_call (.registerIdentity env identityId deviceId seniorityTimestamp) id rfl, rfl⟩
  | deregister env identityId fromDeviceId targetDeviceId =>
    exact ⟨.of_call (.deregisterIdentity env identityId fromDeviceId targetDeviceId) id rfl, rfl⟩
  | enforceStoragePressure env => exact ⟨.of_call (.enforceStoragePressure env) id rfl, rfl⟩
  | relay event =>
    have hbooking : event.IsBooking → Served P n.custody (n.step ids P crc event).1.custody ∧
        (n.step ids P crc event).1.recentDuplicates = n.recentDuplicates := by
      intro h
      obtain ⟨⟨hserved, hwindow, _⟩, _⟩ := (books_served P).step ids P crc n h
      exact ⟨hserved, hwindow⟩
    cases event with
    | relayRequest => exact absurd trivial h
    | pull env destination reason =>
      exact (books_served P).dispatchPendingCustodyForPeer ids crc env destination reason n
    | _ => exact hbooking trivial

/-! ## The request handler -/

variable {seen : AList fun _ : String => Nat} {r : CustodyMessage} {past : List (NodeEvent Peer)}
  {now : Nat} {n start : RelayNode Peer} {key : String}

theorem mem_of_mem_pruneDuplicateWindow (h : key ∈ pruneDuplicateWindow seen now) : key ∈ seen :=
  mem_of_mem_retain h

theorem mem_recordAccepted {k : String} (h : k ∈ recordAccepted seen key now) :
    k = key ∨ k ∈ seen := by
  have hinsert : k ∈ (pruneDuplicateWindow seen now).insert key now → k = key ∨ k ∈ seen := by
    intro hk
    exact ((mem_insert _).mp hk).imp_right mem_of_mem_pruneDuplicateWindow
  unfold recordAccepted at h
  dsimp only at h
  split at h
  next => grind [mem_erase]
  next => exact hinsert h

theorem mem_of_isRecentDuplicate (h : isRecentDuplicate seen key now = true) : key ∈ seen := by
  unfold isRecentDuplicate at h
  split at h
  next hlookup => exact lookup_isSome.mp (by rw [hlookup]; rfl)
  next => cases h

/-- The end of the handler: the window answers, or the store does. -/
theorem takeIntoCustody_cases (env : Reading) (peer destination : Peer) (request : RelayRequest)
    (identityId deviceId : Option String) (n : RelayNode Peer) :
    let key := duplicateKey (ids.toText peer) (ids.toText destination) request.messageId
    let accept := n.custody.acceptCustody P env (ids.toText peer) (ids.toText destination)
      request.messageId request.envelopeData identityId deviceId
    let out := takeIntoCustody ids P crc env peer destination request identityId deviceId n
    (key ∈ n.recentDuplicates ∧ out.2.1.custody = n.custody ∧
      ∀ k ∈ out.2.1.recentDuplicates, k ∈ n.recentDuplicates) ∨
    (out.1.accepted = false ∧ out.2.1.custody = accept.2 ∧
      ∀ k ∈ out.2.1.recentDuplicates, k ∈ n.recentDuplicates) ∨
    ∃ r, accept.1 = .ok r ∧ Served P accept.2 out.2.1.custody ∧
      (Keyed accept.2 → Held r accept.2 → Held r out.2.1.custody) ∧
      ∀ k ∈ out.2.1.recentDuplicates, k = key ∨ k ∈ n.recentDuplicates := by
  intro key accept out
  have hpruned : ∀ k ∈ pruneDuplicateWindow n.recentDuplicates env.now, k ∈ n.recentDuplicates :=
    fun k hk => mem_of_mem_pruneDuplicateWindow hk
  rw [show out = takeIntoCustody ids P crc env peer destination request identityId deviceId n
    from rfl]
  unfold takeIntoCustody
  dsimp only
  split
  next hduplicate => exact .inl ⟨hpruned _ (mem_of_isRecentDuplicate hduplicate), rfl, hpruned⟩
  split
  next e custody heq => exact .inr (.inl ⟨rfl, (congrArg Prod.snd heq).symm, hpruned⟩)
  next r custody heq =>
    refine .inr (.inr ⟨r, congrArg Prod.fst heq, ?_⟩)
    rw [show accept.2 = custody from congrArg Prod.snd heq]
    obtain ⟨hserved, hwindow⟩ := (books_served P).dispatchPendingCustodyForPeer ids crc env
      destination "accept_immediate_pull" { n with
        custody := custody
        recentDuplicates := recordAccepted
          (pruneDuplicateWindow n.recentDuplicates env.now) key env.now }
    refine ⟨hserved, fun hkeyed hr => held_dispatchPendingCustodyForPeer ids crc env destination
      "accept_immediate_pull" { n with custody := _, recentDuplicates := _ } hkeyed hr,
      fun k hk => ?_⟩
    rw [hwindow] at hk
    exact (mem_recordAccepted hk).imp_right (hpruned k)

/-! ## The window and the store -/

/-- A record that some request of the history asked for. -/
def AskedFor (past : List (NodeEvent Peer)) (r : CustodyMessage) : Prop :=
  ∃ env hourElapsed admitted peer request destination,
    NodeEvent.relay (.relayRequest env hourElapsed admitted peer request) ∈ past ∧
      ids.fromBytes request.destinationPeer = some destination ∧
      r.destinationPeerId = ids.toText destination ∧ r.relayMessageId = request.messageId ∧
      r.envelopeData = request.envelopeData

/-- The message was stored at some point of the history. -/
def Stood (start : RelayNode Peer) (past : List (NodeEvent Peer)) (r : CustodyMessage) : Prop :=
  ∃ before, before <+: past ∧ Held r (Runs.run (react ids P crc) start before).custody

/-- A key of the window stands for a message that was asked for, was stored and is
accounted for. -/
def StandsFor (start : RelayNode Peer) (past : List (NodeEvent Peer)) (s : RelayCustodyStore)
    (key : String) : Prop :=
  ∃ r source destination,
    key = duplicateKey (ids.toText source) (ids.toText destination) r.relayMessageId ∧
      r.destinationPeerId = ids.toText destination ∧ AskedFor ids past r ∧
      Stood ids P crc start past r ∧ Accounted r s

/-- The window and the store are in step. -/
structure Linked (start : RelayNode Peer) (past : List (NodeEvent Peer)) (n : RelayNode Peer) :
    Prop where
  sound : Sound n.custody
  asked : ∀ r ∈ n.custody.values, AskedFor ids past r
  window : ∀ key ∈ n.recentDuplicates, StandsFor ids P crc start past n.custody key

variable {ids P crc}

section
omit [DecidableEq Peer]

theorem AskedFor.mono (h : AskedFor ids past r) (event : NodeEvent Peer) :
    AskedFor ids (past ++ [event]) r := by
  obtain ⟨env, hourElapsed, admitted, peer, request, destination, hmem, hrest⟩ := h
  exact ⟨env, hourElapsed, admitted, peer, request, destination, mem_append_left _ hmem, hrest⟩

theorem AskedFor.same {r' : CustodyMessage} (h : AskedFor ids past r) (hsame : Same r r') :
    AskedFor ids past r' := by
  obtain ⟨env, hourElapsed, admitted, peer, request, destination, hmem, hfrom, hdest, hid,
    hdata⟩ := h
  exact ⟨env, hourElapsed, admitted, peer, request, destination, hmem, hfrom,
    hsame.destinationPeerId.trans hdest, hsame.relayMessageId.trans hid,
    hsame.envelopeData.trans hdata⟩

end

theorem Stood.mono (h : Stood ids P crc start past r) (event : NodeEvent Peer) :
    Stood ids P crc start (past ++ [event]) r := by
  obtain ⟨before, hstarts, hheld⟩ := h
  exact ⟨before, hstarts.trans (prefix_append _ _), hheld⟩

theorem Linked.mono (h : Linked ids P crc start past n) (event : NodeEvent Peer) :
    Linked ids P crc start (past ++ [event]) n := by
  refine ⟨h.sound, fun r hr => (h.asked r hr).mono event, fun key hkey => ?_⟩
  obtain ⟨r, source, destination, heq, hdest, hasked, hstood, hr⟩ := h.window key hkey
  exact ⟨r, source, destination, heq, hdest, hasked.mono event, hstood.mono event, hr⟩

/-- Whatever admits nothing and adds to the window only what stands for something. -/
theorem Linked.serve {n' : RelayNode Peer} (h : Linked ids P crc start past n)
    (hserved : Served P n.custody n'.custody)
    (hwindow : ∀ key ∈ n'.recentDuplicates, key ∈ n.recentDuplicates ∨
      StandsFor ids P crc start past n'.custody key) :
    Linked ids P crc start past n' := by
  obtain ⟨hsound, hwithin, haccounted⟩ := hserved.spec h.sound
  refine ⟨hsound, fun r' hr' => ?_, fun key hkey => ?_⟩
  · obtain ⟨r, hr, hsame, _⟩ := hwithin.mem_values hr'
    exact (h.asked r hr).same hsame
  · rcases hwindow key hkey with hold | hnew
    · obtain ⟨r, source, destination, heq, hdest, hasked, hstood, hr⟩ := h.window key hold
      exact ⟨r, source, destination, heq, hdest, hasked, hstood, haccounted r hr⟩
    · exact hnew

/-- Peer ids are written without the separators of the keys. -/
def Plain (ids : PeerIds Peer) : Prop :=
  ∀ peer, '_' ∉ (ids.toText peer).toList ∧ ':' ∉ (ids.toText peer).toList

section
omit [DecidableEq Peer]

theorem toList_duplicateKey (a b m : String) :
    (duplicateKey a b m).toList
      = a.toList ++ ':' :: ':' :: (b.toList ++ ':' :: ':' :: m.toList) := by
  have hseparator : ∀ rest, "::".toList ++ rest = ':' :: ':' :: rest := fun _ => rfl
  unfold duplicateKey
  simp only [String.toList_append, append_assoc]
  rw [hseparator, hseparator]

theorem duplicateKey_inj (hplain : Plain ids) {a a' b b' : Peer} {m m' : String}
    (h : duplicateKey (ids.toText a) (ids.toText b) m
      = duplicateKey (ids.toText a') (ids.toText b') m') :
    ids.toText b = ids.toText b' ∧ m = m' := by
  have hlist := congrArg String.toList h
  rw [toList_duplicateKey, toList_duplicateKey] at hlist
  have hfirst := (eq_of_cons_append_eq (hplain a).2 (hplain a').2 hlist).2
  have hsecond := eq_of_cons_append_eq (hplain b).2 (hplain b').2 (List.cons.inj hfirst).2
  exact ⟨String.toList_inj.mp hsecond.1, String.toList_inj.mp (List.cons.inj hsecond.2).2⟩

theorem apart_of_plain (hplain : Plain ids) {a b : Peer} (hne : ids.toText a ≠ ids.toText b) :
    Apart (ids.toText a) (ids.toText b) := by
  have hstarts : ∀ x y : Peer, (ids.toText x ++ "_").toList <+: (ids.toText y ++ "_").toList →
      ids.toText x = ids.toText y := by
    rintro x y ⟨rest, hrest⟩
    simp only [String.toList_append, append_assoc] at hrest
    have hcut : (ids.toText x).toList ++ '_' :: rest = (ids.toText y).toList ++ '_' :: [] := hrest
    exact String.toList_inj.mp (eq_of_cons_append_eq (hplain x).1 (hplain y).1 hcut).1
  exact ⟨fun h => hne (hstarts a b h), fun h => hne (hstarts b a h).symm⟩

/-- In a store of records for peers, a scan for a peer finds that peer's records only. -/
theorem destination_eq_of_texts (hplain : Plain ids) {s : RelayCustodyStore} (hkeyed : Keyed s)
    (htexts : ∀ r ∈ s.values, ∃ peer, r.destinationPeerId = ids.toText peer) {destination : Peer}
    (hr : r ∈ s.scanPrefix (destinationPrefix (ids.toText destination))) :
    r.destinationPeerId = ids.toText destination := by
  obtain ⟨other, hother⟩ := htexts r (mem_values_of_mem_scanPrefix hr)
  by_contra hne
  rw [hother] at hne
  exact ne_of_mem_scanPrefix (apart_of_plain hplain (Ne.symm hne)) hkeyed hr hother

end

section
variable (h : Linked ids P crc start past n)
include h

/-- What the store finds for a destination was asked for under that destination. -/
theorem Linked.destination_eq (hplain : Plain ids) {destination : Peer}
    (hr : r ∈ n.custody.scanPrefix (destinationPrefix (ids.toText destination))) :
    r.destinationPeerId = ids.toText destination := by
  refine destination_eq_of_texts hplain h.sound.keyed (fun q hq => ?_) hr
  obtain ⟨_, _, _, _, _, other, _, _, hother, _⟩ := h.asked q hq
  exact ⟨other, hother⟩

/-- What stands behind an answer to a request of these bytes. -/
def Backed (ids : PeerIds Peer) (P : Platform) (crc : Bytes → UInt32) (start : RelayNode Peer)
    (past : List (NodeEvent Peer)) (event : NodeEvent Peer) (destination : Peer)
    (request : RelayRequest) (s : RelayCustodyStore) : Prop :=
  ∃ r, r.destinationPeerId = ids.toText destination ∧ r.relayMessageId = request.messageId ∧
    (AskedFor ids past r ∨ r.envelopeData = request.envelopeData) ∧
    Stood ids P crc start (past ++ [event]) r ∧ Accounted r s

section
variable (env : Reading) (hourElapsed admitted : Bool) (peer destination : Peer)
  (request : RelayRequest) (hdestination : ids.fromBytes request.destinationPeer = some destination)
  (identityId deviceId : Option String)
include hdestination

theorem Linked.acceptCustody :
    let accept := CustodyCall.acceptCustody env (ids.toText peer) (ids.toText destination)
      request.messageId request.envelopeData identityId deviceId
    Linked ids P crc start (past ++ [.relay (.relayRequest env hourElapsed admitted peer request)])
      { n with custody := n.custody.call P accept } := by
  intro accept
  refine ⟨h.sound.call P accept, fun r hr => ?_, fun key hkey => ?_⟩
  · rcases acceptCustody_values P h.sound.keyed env _ _ _ _ _ _ hr with
      ⟨q, hq, hsame⟩ | ⟨hdest, hid, hdata⟩
    · exact ((h.asked q hq).same hsame).mono _
    · exact ⟨env, hourElapsed, admitted, peer, request, destination,
        mem_append_right _ mem_cons_self, hdestination, hdest, hid, hdata⟩
  · obtain ⟨r, source, other, heq, hdest, hasked, hstood, hr⟩ := h.window key hkey
    exact ⟨r, source, other, heq, hdest, hasked.mono _, hstood.mono _, hr.call h.sound P accept⟩

theorem Linked.takeIntoCustody (hplain : Plain ids)
    (hrun : (takeIntoCustody ids P crc env peer destination request identityId deviceId n).2.1
      = Runs.run (react ids P crc) start
        (past ++ [.relay (.relayRequest env hourElapsed admitted peer request)])) :
    let event := NodeEvent.relay (.relayRequest env hourElapsed admitted peer request)
    let out := RelayNode.takeIntoCustody ids P crc env peer destination request identityId
      deviceId n
    Linked ids P crc start (past ++ [event]) out.2.1 ∧
      (out.1.accepted = true →
        Backed ids P crc start past event destination request out.2.1.custody) := by
  intro event out
  have haccepted := h.acceptCustody env hourElapsed admitted peer destination request hdestination
    identityId deviceId
  rcases takeIntoCustody_cases ids P crc env peer destination request identityId deviceId n with
    ⟨hkey, hcustody, hwindow⟩ | ⟨hrefused, hcustody, hwindow⟩ | ⟨r, hok, hserved, hheld, hwindow⟩
  · -- the window answers
    have hserved : Served P n.custody out.2.1.custody := by
      rw [show out.2.1.custody = n.custody from hcustody]
      exact .refl _
    refine ⟨(h.serve hserved fun k hk => .inl (hwindow k hk)).mono event, fun _ => ?_⟩
    obtain ⟨r, source, other, heq, hother, hasked, hstood, hr⟩ := h.window _ hkey
    obtain ⟨hdest, hid⟩ := duplicateKey_inj hplain heq
    refine ⟨r, hother.trans hdest.symm, hid.symm, .inl hasked, hstood.mono event, ?_⟩
    rw [show out.2.1.custody = n.custody from hcustody]
    exact hr
  · -- the store refuses
    refine ⟨haccepted.serve ?_ fun k hk => .inl (hwindow k hk), fun hyes => ?_⟩
    · rw [show out.2.1.custody = _ from hcustody]
      exact .refl _
    · grind
  · -- the store answers, and the record it returns is stored
    obtain ⟨hstored, hid, hbytes⟩ := acceptCustody_ok_spec P h.sound.keyed env _ _ _ _ _ _ hok
    have hdest : r.destinationPeerId = ids.toText destination := by
      rcases hbytes with hfound | ⟨hnew, _⟩
      · exact h.destination_eq hplain hfound
      · exact hnew
    have hfinal : Held r out.2.1.custody :=
      hheld haccepted.sound.keyed ⟨r, hstored, .refl r⟩
    have hstood : Stood ids P crc start (past ++ [event]) r :=
      ⟨past ++ [event], prefix_refl _, hrun ▸ hfinal⟩
    refine ⟨haccepted.serve hserved fun k hk => ?_, fun _ => ?_⟩
    · rcases hwindow k hk with rfl | hold
      · refine .inr ⟨r, peer, destination, by rw [hid], hdest, ?_, hstood, .inl hfinal⟩
        exact haccepted.asked r hstored
      · exact .inl hold
    · refine ⟨r, hdest, hid, ?_, hstood, .inl hfinal⟩
      rcases hbytes with hfound | ⟨_, hdata⟩
      · obtain ⟨key, hkey, _⟩ := mem_scanPrefix.mp hfound
        exact .inl (h.asked r (mem_values_of_lookup hkey))
      · exact .inr hdata

end

theorem Linked.handleRelayRequest (hplain : Plain ids) (env : Reading) (hourElapsed admitted : Bool)
    (peer : Peer) (request : RelayRequest) (hrun : n = Runs.run (react ids P crc) start past) :
    let event := NodeEvent.relay (.relayRequest env hourElapsed admitted peer request)
    let out := RelayNode.handleRelayRequest ids P crc env hourElapsed admitted peer request n
    Linked ids P crc start (past ++ [event]) out.2.1 ∧
      (out.1.accepted = true → ∃ destination,
        ids.fromBytes request.destinationPeer = some destination ∧
        Backed ids P crc start past event destination request out.2.1.custody) := by
  intro event out
  have hnext : out.2.1 = Runs.run (react ids P crc) start (past ++ [event]) := by
    rw [run_append, ← hrun]
    rfl
  rcases (books_served P).handleRelayRequest ids P crc env hourElapsed admitted peer request n
    (served_resolveCustodyMetadata P n.custody env _ _) with
      ⟨hrefused, ⟨hserved, hwindow, _⟩, _⟩ | ⟨destination, identityId, deviceId, next, hdestination,
        ⟨hserved, hwindow, _⟩, hout⟩
  · refine ⟨(h.serve hserved fun k hk => .inl (hwindow ▸ hk)).mono event, fun hyes => ?_⟩
    rw [show out.1.accepted = false from hrefused] at hyes
    cases hyes
  · have hlinked : Linked ids P crc start past next :=
      h.serve hserved fun k hk => .inl (hwindow ▸ hk)
    rw [show out = _ from hout] at hnext ⊢
    obtain ⟨hafter, hbacked⟩ := hlinked.takeIntoCustody env hourElapsed admitted peer
      destination request hdestination identityId deviceId hplain hnext
    exact ⟨hafter, fun hyes => ⟨destination, hdestination, hbacked hyes⟩⟩

end

/-- A node that has not done anything yet. -/
structure Fresh (n : RelayNode Peer) : Prop where
  custody : ∃ localIdentity sequence, n.custody = empty localIdentity sequence
  recentDuplicates : n.recentDuplicates = ∅

theorem linked_run (hplain : Plain ids) (hstart : Fresh start) (events : List (NodeEvent Peer)) :
    Linked ids P crc start events (Runs.run (react ids P crc) start events) := by
  induction events using List.reverseRecOn with
  | nil =>
    obtain ⟨localIdentity, sequence, hcustody⟩ := hstart.custody
    refine ⟨?_, fun r hr => ?_, fun key hkey => ?_⟩
    · simp_all [sound_empty]
    · rw [run_nil, hcustody] at hr
      exact absurd hr not_mem_nil
    · rw [run_nil, hstart.recentDuplicates] at hkey
      exact absurd hkey (notMem_empty key)
  | append_singleton events event ih =>
    by_cases hrequest : event.IsRequest
    · cases event with
      | relay event =>
        cases event with
        | relayRequest env hourElapsed admitted peer request =>
          rw [run_append]
          exact (ih.handleRelayRequest hplain env hourElapsed admitted peer request rfl).1
        | _ => exact hrequest.elim
      | _ => exact hrequest.elim
    · obtain ⟨hserved, hwindow⟩ := served_react ids P crc
        (Runs.run (react ids P crc) start events) hrequest
      rw [run_append, run_cons, run_nil]
      exact (ih.serve hserved fun k hk => .inl (hwindow ▸ hk)).mono event

/-- No request of the history used this destination and message id for other bytes. -/
def SameBytes (ids : PeerIds Peer) (events : List (NodeEvent Peer)) (destination : Peer)
    (request : RelayRequest) : Prop :=
  ∀ env hourElapsed admitted peer other target,
    NodeEvent.relay (.relayRequest env hourElapsed admitted peer other) ∈ events →
    ids.fromBytes other.destinationPeer = some target →
    ids.toText target = ids.toText destination → other.messageId = request.messageId →
    other.envelopeData = request.envelopeData

/-- **What `accepted` promises.** After any history of a relay, a request that is
answered `accepted`, and whose destination and message id were not used for other
bytes, has its bytes in the store, or had them there and the log says that they were
delivered or purged. -/
theorem accepted_is_accounted (hplain : Plain ids) {start : RelayNode Peer} (hstart : Fresh start)
    (events : List (NodeEvent Peer)) (env : Reading) (hourElapsed admitted : Bool) (peer : Peer)
    (request : RelayRequest) {destination : Peer}
    (hdestination : ids.fromBytes request.destinationPeer = some destination)
    (hbytes : SameBytes ids events destination request) :
    let n := Runs.run (react ids P crc) start events
    let out := handleRelayRequest ids P crc env hourElapsed admitted peer request n
    out.1.accepted = true → ∃ r, r.destinationPeerId = ids.toText destination ∧
      r.relayMessageId = request.messageId ∧ r.envelopeData = request.envelopeData ∧
      Stood ids P crc start
        (events ++ [.relay (.relayRequest env hourElapsed admitted peer request)]) r ∧
      Accounted r out.2.1.custody := by
  intro n out hyes
  obtain ⟨other, hother, r, hdest, hid, hdata, hstood, haccounted⟩ :=
    ((linked_run hplain hstart events).handleRelayRequest hplain env hourElapsed admitted peer
      request rfl).2 hyes
  cases hdestination.symm.trans hother
  refine ⟨r, hdest, hid, ?_, hstood, haccounted⟩
  rcases hdata with
    ⟨env', hour', admitted', peer', request', target, hmem, hfrom, hto, hid', hdata⟩ |
    hdata
  · rw [hdata]
    exact hbytes env' hour' admitted' peer' request' target hmem hfrom (hto.symm.trans hdest)
      (hid'.symm.trans hid)
  · exact hdata

/-- **A relay holds what it was asked to hold.** In every history of a relay, each record in
custody has the destination, the message id and the bytes of a request of that history. -/
theorem custody_askedFor (hplain : Plain ids) {start : RelayNode Peer} (hstart : Fresh start)
    (events : List (NodeEvent Peer)) {r : CustodyMessage}
    (hr : r ∈ (Runs.run (react ids P crc) start events).custody.values) :
    AskedFor ids events r :=
  (linked_run hplain hstart events).asked r hr

/-! ## Two senders, one message id -/

inductive Person where
  | alice | bob | carol
  deriving DecidableEq, Repr

/-- Each of them has a one-byte id and a name. -/
def personIds : PeerIds Person where
  toBytes
    | .alice => [1]
    | .bob => [2]
    | .carol => [3]
  fromBytes
    | [1] => some .alice
    | [2] => some .bob
    | [3] => some .carol
    | _ => none
  toText
    | .alice => "alice"
    | .bob => "bob"
    | .carol => "carol"

theorem plain_personIds : Plain personIds := by
  intro person
  cases person <;> exact ⟨by decide, by decide⟩

def idleRelay : RelayNode Person := started (empty none 0)

theorem fresh_idleRelay : Fresh idleRelay := ⟨⟨none, 0, rfl⟩, rfl⟩

/-- Bytes for Bob under the message id `m`. -/
def requestForBob (bytes : Bytes) : RelayRequest where
  destinationPeer := [2]
  envelopeData := bytes
  messageId := "m"
  recipientIdentityId := none
  intendedDeviceId := none

def aliceAsks : NodeEvent Person :=
  .relay (.relayRequest (idleReading 1000) false true .alice (requestForBob [10]))

/-- The relay after these events. -/
def relayAfter (events : List (NodeEvent Person)) : RelayNode Person :=
  Runs.run (react personIds plainPlatform fun _ => 0) idleRelay events

/-- What it then makes of a request. -/
def askedAfter (events : List (NodeEvent Person)) (person : Person) (bytes : Bytes) :
    RelayResponse × RelayNode Person × List (Sent Person) :=
  handleRelayRequest personIds plainPlatform (fun _ => 0) (idleReading 2000) false true person
    (requestForBob bytes) (relayAfter events)

/-- Alice asks twice: the window answers the second time, and the bytes are there. -/
theorem accepted_is_accounted_alice :
    (Plain personIds ∧ Fresh idleRelay ∧
      SameBytes personIds [aliceAsks] .bob (requestForBob [10])) ∧
    let out := askedAfter [aliceAsks] .alice [10]
    out.1.accepted = true ∧ ∃ r, r.destinationPeerId = "bob" ∧ r.relayMessageId = "m" ∧
      r.envelopeData = [10] ∧ Accounted r out.2.1.custody := by
  have hbytes : SameBytes personIds [aliceAsks] .bob (requestForBob [10]) := by
    intro env hourElapsed admitted peer other target hmem _ _ _
    cases mem_singleton.mp hmem
    rfl
  have hyes : (askedAfter [aliceAsks] .alice [10]).1.accepted = true := by decide +kernel
  obtain ⟨r, hdest, hid, hdata, _, haccounted⟩ := accepted_is_accounted plain_personIds
    fresh_idleRelay [aliceAsks] (idleReading 2000) false true .alice (requestForBob [10]) rfl hbytes
    hyes
  exact ⟨⟨plain_personIds, fresh_idleRelay, hbytes⟩, hyes, r, hdest, hid, hdata, haccounted⟩

/-- The record is the one that Alice asked for. -/
theorem custody_askedFor_alice :
    ∃ r ∈ (relayAfter [aliceAsks]).custody.values,
      r.envelopeData = [10] ∧ AskedFor personIds [aliceAsks] r := by
  have hheld :
      (relayAfter [aliceAsks]).custody.values.map CustodyMessage.envelopeData = [[10]] := by
    decide +kernel
  obtain ⟨r, hvalues, hdata⟩ := map_eq_singleton_iff.mp hheld
  have hr := hvalues ▸ mem_singleton_self r
  exact ⟨r, hr, hdata, custody_askedFor plain_personIds fresh_idleRelay _ hr⟩

/-- Carol then uses the same id for other bytes and is told `accepted`; the store has
Alice's bytes only, and nothing was delivered or purged. -/
theorem accepted_without_bytes :
    let out := askedAfter [aliceAsks] .carol [20]
    out.1.accepted = true ∧
      out.2.1.custody.values.map (fun r => (r.destinationPeerId, r.envelopeData))
        = [("bob", [10])] ∧
      out.2.1.custody.transitions.entries.map (fun t => t.2.toState) = [.accepted] := by
  decide +kernel

/-- Under storage pressure Alice's record is purged. The window still knows the message, so
Alice is told `accepted` again, and nothing is in the store. -/
theorem accepted_after_purge :
    let out :=
      askedAfter [aliceAsks, .enforceStoragePressure (diskReading 1500 500 500)] .alice [10]
    out.1.accepted = true ∧ out.2.1.custody.values = [] ∧
      out.2.1.custody.transitions.entries.map (fun t => t.2.reason)
        = ["storage_pressure_target_quota_purged", "custody_accepted"] := by
  decide +kernel

end RelayNode

end Scm.Transport
