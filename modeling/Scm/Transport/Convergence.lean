import Scm.Transport.Node

/-!
# What a delivery convergence marker clears

A convergence marker is a gossiped pair of message id and destination that says: this
was delivered. A node believes it if it knows the message id, and then clears what it
tracks under that id, tells the sender `Ok`, and finalises the custody records it
holds for the pair.

The payoff is `clearsOnly_iff`: when applying a marker touches nothing but what
belongs to its pair. `forged_marker_confirms_send` is a marker that touches more:
whoever knows the message id of a send can end it.

`ClearsOnlyFor` is the frame of the store. The dispatches in flight never leave it; the
scan does as soon as it matches one record of another destination.
-/

namespace Scm.Store

open List

namespace RelayCustodyStore

/-! ## What a marker does to the store -/

/-- From `s` to `s'` records of this message id and destination were removed, entries
about them were added to the log, and nothing else happened. -/
structure ClearsOnlyFor (relayMessageId destination : String) (s s' : RelayCustodyStore) :
    Prop where
  sub : ∀ key r, s'.messages.lookup key = some r → s.messages.lookup key = some r
  kept : ∀ key r, s.messages.lookup key = some r → s'.messages.lookup key = some r ∨
    r.relayMessageId = relayMessageId ∧ r.destinationPeerId = destination
  log : ∃ more, s'.log = s.log ++ more ∧
    ∀ t ∈ more, t.relayMessageId = relayMessageId ∧ t.destinationPeerId = destination

variable {relayMessageId destination : String}

theorem ClearsOnlyFor.refl (s : RelayCustodyStore) :
    ClearsOnlyFor relayMessageId destination s s :=
  ⟨fun _ _ h => h, fun _ _ h => .inl h, [], by simp, by simp⟩

theorem ClearsOnlyFor.trans {s t u : RelayCustodyStore}
    (hst : ClearsOnlyFor relayMessageId destination s t)
    (htu : ClearsOnlyFor relayMessageId destination t u) :
    ClearsOnlyFor relayMessageId destination s u := by
  obtain ⟨more, hmore, hall⟩ := hst.log
  obtain ⟨more', hmore', hall'⟩ := htu.log
  refine ⟨fun key r h => hst.sub key r (htu.sub key r h), fun key r h => ?_, more ++ more', ?_, ?_⟩
  · rcases hst.kept key r h with hkept | hpair
    · exact htu.kept key r hkept
    · exact .inr hpair
  · rw [hmore', hmore, append_assoc]
  · grind

theorem Audited.clearsOnlyFor {s : RelayCustodyStore} (h : Audited s) (now : Nat)
    {q : CustodyMessage} (fromState : Option CustodyState) (toState : CustodyState)
    (reason dest custodyId : String)
    (hq : q.relayMessageId = relayMessageId ∧ q.destinationPeerId = destination)
    (hfound : ∀ r, s.messages.lookup (messageKey dest custodyId) = some r →
      r.relayMessageId = relayMessageId ∧ r.destinationPeerId = destination) :
    ClearsOnlyFor relayMessageId destination s
      ((s.recordTransition now q fromState toState reason).removeMessage dest custodyId) := by
  have hmessages : ((s.recordTransition now q fromState toState reason).removeMessage dest
      custodyId).messages = s.messages.erase (messageKey dest custodyId) := rfl
  refine ⟨fun key r hr => ?_, fun key r hr => ?_, [s.entry now q fromState toState reason], ?_, ?_⟩
  · rw [hmessages] at hr
    exact Collections.lookup_of_lookup_erase hr
  · by_cases hkey : key = messageKey dest custodyId
    · exact .inr (hfound r (hkey ▸ hr))
    · simp_all
  · exact h.log_recordTransition now q fromState toState reason
  · intro t ht
    rw [mem_singleton.mp ht]
    exact hq

theorem clearsOnlyFor_convergeLoop (now : Nat) (reason : String) (records : List CustodyMessage) :
    ∀ (converged : Nat) (s : RelayCustodyStore), Audited s →
      (∀ r ∈ records, r.state ≠ .delivered →
        r.relayMessageId = relayMessageId ∧ r.destinationPeerId = destination) →
      (∀ r ∈ records, r.state ≠ .delivered → ∀ found,
        s.messages.lookup (messageKey destination r.custodyId) = some found →
        found.relayMessageId = relayMessageId ∧ found.destinationPeerId = destination) →
      ClearsOnlyFor relayMessageId destination s
        (convergeLoop now destination reason records converged s).2 := by
  induction records with
  | nil => exact fun _ s _ _ _ => .refl s
  | cons record records ih =>
    intro converged s haudited hpair hfound
    have hrest : ∀ r ∈ records, r.state ≠ .delivered →
        r.relayMessageId = relayMessageId ∧ r.destinationPeerId = destination :=
      fun r hr => hpair r (mem_cons_of_mem record hr)
    unfold convergeLoop
    split
    next =>
      exact ih _ s haudited hrest fun r hr => hfound r (mem_cons_of_mem record hr)
    next hstate =>
      have hfirst := haudited.clearsOnlyFor now (some record.state) .delivered reason destination
        record.custodyId (q := { record with state := .delivered, updatedAtMs := now })
        (hpair record mem_cons_self hstate) (hfound record mem_cons_self hstate)
      refine hfirst.trans
        (ih _ _ (haudited.deliver _ _ _ _ _ _ _) hrest fun r hr hundelivered found hlookup => ?_)
      exact hfound r (mem_cons_of_mem record hr) hundelivered found (hfirst.sub _ _ hlookup)

/-- Without the separator in the destinations a key determines both its parts. -/
theorem messageKey_split {a b c c' : String} (ha : '_' ∉ a.toList) (hb : '_' ∉ b.toList)
    (h : messageKey a c = messageKey b c') : a = b ∧ c = c' := by
  have hlist := congrArg String.toList h
  simp only [messageKey, String.toList_append, toList_destinationPrefix, append_assoc] at hlist
  have hcut := append_cancel_left hlist
  obtain ⟨hdest, hid⟩ :=
    Collections.eq_of_cons_append_eq (x := c.toList) (y := c'.toList) ha hb hcut
  exact ⟨String.toList_inj.mp hdest, String.toList_inj.mp hid⟩

theorem mem_matching {s : RelayCustodyStore} (hkeyed : Keyed s) {r : CustodyMessage} :
    r ∈ s.matching destination relayMessageId ↔ s.messages.lookup r.key = some r ∧
      (destinationPrefix destination).toList <+: r.key.toList ∧
        r.relayMessageId = relayMessageId := by
  rw [matching, mem_filter, mem_scanPrefix, decide_eq_true_iff]
  constructor
  · rintro ⟨⟨key, hkey, hstarts⟩, hid⟩
    have heq : key = r.key := hkeyed key r hkey
    rw [heq] at hkey hstarts
    exact ⟨hkey, hstarts, hid⟩
  · grind

end RelayCustodyStore

end Scm.Store

namespace Scm.Transport

open List Bytes Collections Store RelayCustodyStore

namespace RelayNode

variable {Peer : Type} {ids : PeerIds Peer} {relayMessageId destination : String}

theorem clearsOnlyFor_markDelivered (hplain : Plain ids) {s : RelayCustodyStore} (hs : Sound s)
    (htexts : ∀ r ∈ s.values, ∃ peer, r.destinationPeerId = ids.toText peer) (env : Reading)
    (peer : Peer) (custodyId reason : String)
    (hnamed : Named custodyId relayMessageId (ids.toText peer) s) :
    ClearsOnlyFor relayMessageId (ids.toText peer) s
      (s.markDelivered env (ids.toText peer) custodyId reason).2 := by
  have hfound : ∀ r, s.messages.lookup (messageKey (ids.toText peer) custodyId) = some r →
      r.relayMessageId = relayMessageId ∧ r.destinationPeerId = ids.toText peer := by
    intro r hr
    have hmem := mem_values_of_lookup hr
    obtain ⟨other, hother⟩ := htexts r hmem
    have hkey :
        messageKey (ids.toText peer) custodyId = messageKey r.destinationPeerId r.custodyId :=
      hs.keyed _ r hr
    have hplain' : '_' ∉ r.destinationPeerId.toList := hother ▸ (hplain other).1
    exact hnamed.record r hmem (messageKey_split (hplain peer).1 hplain' hkey).2.symm
  unfold markDelivered
  split
  next => exact .refl s
  next record hrecord =>
    split
    next => exact .refl s
    exact hs.audited.clearsOnlyFor env.now (some record.state) .delivered reason _ _
      (hfound record (lookup_of_requireRecord hrecord)) hfound

theorem clearsOnlyFor_markAllDelivered (hplain : Plain ids) (env : Reading) (reason : String)
    (dispatches : List (PendingCustodyDispatch Peer)) :
    ∀ s : RelayCustodyStore, Sound s →
      (∀ r ∈ s.values, ∃ peer, r.destinationPeerId = ids.toText peer) →
      (∀ d ∈ dispatches, Named d.custodyId relayMessageId (ids.toText d.destinationPeer) s ∧
        ids.toText d.destinationPeer = destination) →
      ClearsOnlyFor relayMessageId destination s
        (markAllDelivered ids env reason dispatches s) := by
  induction dispatches with
  | nil => exact fun s _ _ _ => .refl s
  | cons d ds ih =>
    intro s hs htexts hall
    obtain ⟨hnamed, hdest⟩ := hall d mem_cons_self
    have hserved : Served plainPlatform s
        (s.markDelivered env (ids.toText d.destinationPeer) d.custodyId reason).2 :=
      .of_call (.markDelivered env (ids.toText d.destinationPeer) d.custodyId reason) id rfl
    have hfirst := clearsOnlyFor_markDelivered hplain hs htexts env d.destinationPeer d.custodyId
      reason hnamed
    rw [hdest] at hfirst hserved
    unfold markAllDelivered
    rw [hdest]
    refine hfirst.trans (ih _ (hserved.spec hs).1 (fun r hr => ?_) fun d' hd' => ?_)
    · obtain ⟨key, hkey⟩ := mem_values_iff_lookup.mp hr
      exact htexts r (mem_values_of_lookup (hfirst.sub key r hkey))
    · obtain ⟨hnamed', hdest'⟩ := hall d' (mem_cons_of_mem d hd')
      exact ⟨hserved.named hs hnamed', hdest'⟩

/-- The relay's part of a marker stays within its pair exactly if the scan for the
destination finds no undelivered record of another one. -/
theorem Tracked.clearsOnlyFor_iff (hplain : Plain ids) {n : RelayNode Peer} (h : Tracked ids n)
    (env : Reading) (relayMessageId destination : String) :
    ClearsOnlyFor relayMessageId destination n.custody
        (applyDeliveryConvergenceMarker ids env relayMessageId destination n).custody ↔
      ∀ r ∈ n.custody.matching destination relayMessageId, r.state ≠ .delivered →
        r.destinationPeerId = destination := by
  -- first the dispatches in flight, which are all of the pair
  obtain ⟨inflight, hinflight, hafter⟩ : ∃ inflight : RelayCustodyStore,
      (ClearsOnlyFor relayMessageId destination n.custody inflight ∧
        Served plainPlatform n.custody inflight) ∧
      (applyDeliveryConvergenceMarker ids env relayMessageId destination n).custody
        = (inflight.convergeDeliveredForMessage env destination relayMessageId
          "delivery_convergence_marker").2 := by
    refine ⟨_, ⟨clearsOnlyFor_markAllDelivered hplain env _ _ n.custody h.sound h.texts
      fun d hd => ?_, (books_served plainPlatform).markAllDelivered ids env _ _ n.custody⟩, rfl⟩
    obtain ⟨hmem, hstale⟩ := mem_filter.mp hd
    obtain ⟨entry, hentry, rfl⟩ := mem_map.mp hmem
    obtain ⟨hid, hdest⟩ := of_decide_eq_true hstale
    have hnamed := h.inflight entry.1 entry.2 (AList.mem_lookup_iff.mpr hentry)
    rw [hid] at hnamed
    exact ⟨hnamed, hdest⟩
  obtain ⟨hclears, hserved⟩ := hinflight
  have hsound := (hserved.spec h.sound).1
  rw [hafter]
  constructor
  · -- a match of another destination would be noted under that destination
    intro hboth r hr hstate
    obtain ⟨hlookup, hstarts, hid⟩ := (mem_matching h.sound.keyed).mp hr
    rcases hclears.kept r.key r hlookup with hkept | hpair
    · have hmatch : r ∈ inflight.matching destination relayMessageId :=
        (mem_matching hsound.keyed).mpr ⟨hkept, hstarts, hid⟩
      obtain ⟨late, hlate, hnoted⟩ := log_convergeLoop env.now destination
        "delivery_convergence_marker" (inflight.matching destination relayMessageId) 0 inflight
        hsound.audited
      obtain ⟨early, hearly, _⟩ := hclears.log
      obtain ⟨more, hmore, hpairs⟩ := hboth.log
      obtain ⟨t, ht, _, hdest, _⟩ := hnoted r hmatch hstate
      have hsplit : n.custody.log ++ more = n.custody.log ++ (early ++ late) := by
        rw [← hmore, ← append_assoc, ← hearly]
        exact hlate
      have hin : t ∈ more := by simp_all
      exact hdest.symm.trans (hpairs t hin).2
    · exact hpair.2
  · intro hown
    have hpair : ∀ r ∈ inflight.matching destination relayMessageId, r.state ≠ .delivered →
        r.relayMessageId = relayMessageId ∧ r.destinationPeerId = destination := by
      intro r hr hstate
      obtain ⟨hlookup, hstarts, hid⟩ := (mem_matching hsound.keyed).mp hr
      exact ⟨hid, hown r ((mem_matching h.sound.keyed).mpr
        ⟨hclears.sub _ _ hlookup, hstarts, hid⟩) hstate⟩
    refine hclears.trans (clearsOnlyFor_convergeLoop env.now _ _ 0 inflight hsound.audited hpair ?_)
    intro r hr hstate found hfound
    obtain ⟨key, hkey, _⟩ := mem_scanPrefix.mp (mem_filter.mp hr).1
    rw [hsound.eq_of_lookup (mem_values_of_lookup hkey) hfound]
    exact hpair r hr hstate

end RelayNode

namespace SwarmNode

variable {Peer : Type} {ids : PeerIds Peer}

/-- The message id was made for a peer with this text. -/
def IsFor (ids : PeerIds Peer) (messageId destination : String) : Prop :=
  ∃ peer, SentTo ids messageId peer ∧ ids.toText peer = destination

/-- From `n` to `n'`, with this output, only what belongs to the message id and the
destination was cleared or finalised, and only its sender was told anything. -/
structure ClearsOnly (ids : PeerIds Peer) (relayMessageId destination : String)
    (n n' : SwarmNode Peer) (output : List (Output Peer)) : Prop where
  custody : ClearsOnlyFor relayMessageId destination n.relay.custody n'.relay.custody
  dispatches : ∀ requestId d, n.relay.pendingCustodyDispatches.lookup requestId = some d →
    n'.relay.pendingCustodyDispatches.lookup requestId = some d ∨
      d.relayMessageId = relayMessageId ∧ ids.toText d.destinationPeer = destination
  requests : ∀ requestId messageId, n.requestToMessage.lookup requestId = some messageId →
    n'.requestToMessage.lookup requestId = some messageId ∨
      messageId = relayMessageId ∧ IsFor ids messageId destination
  relayRequests : ∀ requestId messageId, n.pendingRelayRequests.lookup requestId = some messageId →
    n'.pendingRelayRequests.lookup requestId = some messageId ∨
      messageId = relayMessageId ∧ IsFor ids messageId destination
  attempts : ∀ messageId attempt, n.attempts.lookup messageId = some attempt →
    n'.attempts.lookup messageId = some attempt ∨
      messageId = relayMessageId ∧ ids.toText attempt.targetPeer = destination
  pending : ∀ messageId pending, n.pendingMessages.lookup messageId = some pending →
    n'.pendingMessages.lookup messageId = some pending ∨
      messageId = relayMessageId ∧ ids.toText pending.targetPeer = destination
  told : ∀ replyTx result, Output.reply replyTx result ∈ output →
    ∃ pending, n.pendingMessages.lookup relayMessageId = some pending ∧
      pending.replyTx = replyTx ∧ ids.toText pending.targetPeer = destination

/-- The node tracks a send of its own under this message id. -/
def Sends (messageId : String) (n : SwarmNode Peer) : Prop :=
  (∃ pending, n.pendingMessages.lookup messageId = some pending) ∨
  (∃ attempt, n.attempts.lookup messageId = some attempt) ∨
  (∃ requestId, n.requestToMessage.lookup requestId = some messageId) ∨
  (∃ requestId, n.pendingRelayRequests.lookup requestId = some messageId)

/-- The texts of peer ids do not contain the separator of the message ids. -/
def Undashed (ids : PeerIds Peer) : Prop := ∀ peer, '-' ∉ (ids.toText peer).toList

theorem SentTo.toText_eq (hundashed : Undashed ids) {messageId : String} {a b : Peer}
    (ha : SentTo ids messageId a) (hb : SentTo ids messageId b) : ids.toText a = ids.toText b := by
  obtain ⟨now, rfl⟩ := ha
  obtain ⟨now', heq⟩ := hb
  have hlist := congrArg String.toList heq
  simp only [sentMessageId, String.toList_append, append_assoc] at hlist
  exact String.toList_inj.mp (eq_of_cons_append_eq (hundashed a) (hundashed b) hlist).1

theorem lookup_purge {map : AList fun _ : Nat => String} {messageId tracked : String}
    {requestId : Nat} (h : map.lookup requestId = some tracked) :
    (purgeRequestMapForMessage map messageId).lookup requestId = some tracked ↔
      tracked ≠ messageId := by
  rw [purgeRequestMapForMessage, lookup_retain, decide_eq_true_iff]
  exact ⟨fun hkept => hkept.2, fun hne => ⟨h, hne⟩⟩

section

variable {n : SwarmNode Peer} {env : Reading} {relayMessageId destination : String}

/-- Whatever is tracked under the id is gone afterwards; so it was for the destination. -/
theorem Consistent.isFor_of_clearsOnly (hn : Consistent ids n)
    (h : ClearsOnly ids relayMessageId destination n
      (n.applyDeliveryConvergenceMarker ids env relayMessageId destination).1
      (n.applyDeliveryConvergenceMarker ids env relayMessageId destination).2)
    (hsends : n.Sends relayMessageId) : IsFor ids relayMessageId destination := by
  rcases hsends with ⟨pending, hpending⟩ | ⟨attempt, hattempt⟩ | ⟨requestId, hrequest⟩ |
    ⟨requestId, hrequest⟩
  · rcases h.pending _ _ hpending with hkept | ⟨_, hdest⟩
    · have hgone : (n.pendingMessages.erase relayMessageId).lookup relayMessageId = some pending :=
        hkept
      rw [AList.lookup_erase] at hgone
      cases hgone
    · exact ⟨pending.targetPeer, hn.pending _ _ hpending, hdest⟩
  · rcases h.attempts _ _ hattempt with hkept | ⟨_, hdest⟩
    · have hgone : (n.attempts.erase relayMessageId).lookup relayMessageId = some attempt := hkept
      rw [AList.lookup_erase] at hgone
      cases hgone
    · exact ⟨attempt.targetPeer, hn.attempts _ _ hattempt, hdest⟩
  · rcases h.requests _ _ hrequest with hkept | ⟨_, hfor⟩
    · exact absurd rfl ((lookup_purge hrequest).mp hkept)
    · exact hfor
  · rcases h.relayRequests _ _ hrequest with hkept | ⟨_, hfor⟩
    · exact absurd rfl ((lookup_purge hrequest).mp hkept)
    · exact hfor

theorem Consistent.clearsOnly (hn : Consistent ids n) (hundashed : Undashed ids)
    (hcustody : ClearsOnlyFor relayMessageId destination n.relay.custody
      (n.relay.applyDeliveryConvergenceMarker ids env relayMessageId destination).custody)
    (hsends : n.Sends relayMessageId → IsFor ids relayMessageId destination) :
    ClearsOnly ids relayMessageId destination n
      (n.applyDeliveryConvergenceMarker ids env relayMessageId destination).1
      (n.applyDeliveryConvergenceMarker ids env relayMessageId destination).2 := by
  -- a send under the id is to the peer the id was made for
  have htarget : n.Sends relayMessageId → ∀ peer, SentTo ids relayMessageId peer →
      ids.toText peer = destination := by
    intro hsend peer hpeer
    obtain ⟨other, hother, hdest⟩ := hsends hsend
    exact (hpeer.toText_eq hundashed hother).trans hdest
  refine ⟨hcustody, fun requestId d hd => ?_, fun requestId messageId hrequest => ?_,
    fun requestId messageId hrequest => ?_, fun messageId attempt hattempt => ?_,
    fun messageId pending hpending => ?_, fun replyTx result hreply => ?_⟩
  · by_cases hstale : d.relayMessageId = relayMessageId ∧ ids.toText d.destinationPeer = destination
    · exact .inr hstale
    · exact .inl (lookup_retain.mpr ⟨hd, congrArg not (decide_eq_false hstale)⟩)
  · by_cases hid : messageId = relayMessageId
    · rw [hid] at hrequest ⊢
      exact .inr ⟨rfl, hsends (.inr (.inr (.inl ⟨requestId, hrequest⟩)))⟩
    · exact .inl ((lookup_purge hrequest).mpr hid)
  · by_cases hid : messageId = relayMessageId
    · rw [hid] at hrequest ⊢
      exact .inr ⟨rfl, hsends (.inr (.inr (.inr ⟨requestId, hrequest⟩)))⟩
    · exact .inl ((lookup_purge hrequest).mpr hid)
  · by_cases hid : messageId = relayMessageId
    · rw [hid] at hattempt ⊢
      exact .inr ⟨rfl, htarget (.inr (.inl ⟨attempt, hattempt⟩)) _ (hn.attempts _ _ hattempt)⟩
    · exact .inl ((AList.lookup_erase_ne hid).trans hattempt)
  · by_cases hid : messageId = relayMessageId
    · rw [hid] at hpending ⊢
      exact .inr ⟨rfl, htarget (.inl ⟨pending, hpending⟩) _ (hn.pending _ _ hpending)⟩
    · exact .inl ((AList.lookup_erase_ne hid).trans hpending)
  · unfold applyDeliveryConvergenceMarker SwarmNode.clearSends at hreply
    dsimp only at hreply
    split at hreply
    next pending hpending =>
      cases mem_singleton.mp hreply
      exact ⟨pending, hpending, rfl, htarget (.inl ⟨pending, hpending⟩) _
        (hn.pending _ _ hpending)⟩
    next => exact absurd hreply not_mem_nil

end

/-- **What a marker clears.** In every run of a node: applying a marker clears,
finalises and confirms only what is for its message id and its destination, if and
only if whatever the node sends under the message id goes to that destination, and
the custody scan for the destination finds under the message id only records of that
destination. -/
theorem clearsOnly_iff [DecidableEq Peer] (hplain : RelayNode.Plain ids) (hundashed : Undashed ids)
    (P : Platform) (crc : Bytes → UInt32) {start : SwarmNode Peer} (hstart : start.Fresh)
    (events : List (SwarmEvent Peer)) (env : Reading) (marker : DeliveryConvergenceMarker) :
    let n := start.after ids P crc events
    let out := n.applyDeliveryConvergenceMarker ids env marker.relayMessageId
      marker.destinationPeerId
    ClearsOnly ids marker.relayMessageId marker.destinationPeerId n out.1 out.2 ↔
      (n.Sends marker.relayMessageId → IsFor ids marker.relayMessageId marker.destinationPeerId) ∧
      ∀ r ∈ n.relay.custody.matching marker.destinationPeerId marker.relayMessageId,
        r.state ≠ .delivered → r.destinationPeerId = marker.destinationPeerId := by
  intro n out
  have hn : Consistent ids n := consistent_run P crc hplain hstart events
  have hcustody := hn.relay.clearsOnlyFor_iff hplain env marker.relayMessageId
    marker.destinationPeerId
  constructor
  · intro h
    exact ⟨hn.isFor_of_clearsOnly h, hcustody.mp h.custody⟩
  · rintro ⟨hsends, hown⟩
    exact hn.clearsOnly hundashed (hcustody.mpr hown) hsends

/-! ## A forged marker -/

/-- A node that was just started and has nobody around. -/
def idleNode : SwarmNode RelayNode.Person where
  relay := RelayNode.idleRelay
  pendingMessages := ∅
  requestToMessage := ∅
  pendingRelayRequests := ∅
  attempts := ∅
  nextRelayRequestId := 0

theorem fresh_idleNode : idleNode.Fresh := ⟨⟨none, 0, rfl⟩, rfl, rfl, rfl, rfl, rfl⟩

theorem undashed_personIds : Undashed RelayNode.personIds := by
  intro person
  cases person <;> decide

/-- The application asks the node to send to Carol. -/
def sendToCarol : SwarmEvent RelayNode.Person :=
  .sendMessage 1000 .carol [10] none none 7 [[.carol]]

/-- A marker about that send. -/
def markerNaming (destination : String) : DeliveryConvergenceMarker where
  relayMessageId := "carol-1000"
  destinationPeerId := destination
  observedByPeerId := "alice"
  observedAtMs := 2000

/-- The marker that names Carol ends the send, and touches nothing else. -/
theorem clearsOnly_iff_carol :
    (RelayNode.Plain RelayNode.personIds ∧ Undashed RelayNode.personIds ∧ idleNode.Fresh) ∧
    let n := idleNode.after RelayNode.personIds plainPlatform (fun _ => 0) [sendToCarol]
    let out := n.applyDeliveryConvergenceMarker RelayNode.personIds (idleReading 2000) "carol-1000"
      "carol"
    n.shouldApplyDeliveryConvergenceMarker RelayNode.personIds 2000 (markerNaming "carol")
      = .ok () ∧
      ClearsOnly RelayNode.personIds "carol-1000" "carol" n out.1 out.2 := by
  refine ⟨⟨RelayNode.plain_personIds, undashed_personIds, fresh_idleNode⟩, by decide +kernel, ?_⟩
  refine (clearsOnly_iff RelayNode.plain_personIds undashed_personIds plainPlatform (fun _ => 0)
    fresh_idleNode [sendToCarol] (idleReading 2000) (markerNaming "carol")).mpr
    ⟨fun _ => ⟨.carol, ⟨1000, by decide +kernel⟩, rfl⟩, fun r hr => ?_⟩
  exact absurd hr not_mem_nil

/-- The marker that names Bob is accepted as well: the send to Carol is no longer
pending, and the application is told that it was delivered. -/
theorem forged_marker_confirms_send :
    let n := idleNode.after RelayNode.personIds plainPlatform (fun _ => 0) [sendToCarol]
    let out := n.applyDeliveryConvergenceMarker RelayNode.personIds (idleReading 2000) "carol-1000"
      "bob"
    n.shouldApplyDeliveryConvergenceMarker RelayNode.personIds 2000 (markerNaming "bob") = .ok () ∧
      ((n.pendingMessages.lookup "carol-1000").map fun pending =>
        (pending.targetPeer, pending.replyTx)) = some (.carol, 7) ∧
      out.1.pendingMessages.lookup "carol-1000" = none ∧ out.2 = [.reply 7 (.ok ())] := by
  decide +kernel

end SwarmNode

end Scm.Transport
