import Scm.Transport.Acceptance

/-!
# Dispatches in flight

A dispatch in flight remembers a custody id, a message id and a destination, and the
handlers later act on the store by what it remembers. This module proves that it
remembers right: whatever is stored under its custody id has its message id and its
destination (`Named`). Records keep their ids and destinations, and a new record gets a
number no dispatch can hold, so every call keeps it (`Named.call`) and so does every event
(`Tracked.react`).
-/

namespace Scm.Store

namespace RelayCustodyStore

/-- The custody id was given out, and only a record of this message id and destination
can be stored under it. -/
structure Named (custodyId relayMessageId destination : String) (s : RelayCustodyStore) : Prop where
  drawn : ∃ n < s.registry.sequence, Numbered custodyId n
  record : ∀ r ∈ s.values, r.custodyId = custodyId →
    r.relayMessageId = relayMessageId ∧ r.destinationPeerId = destination

variable {s : RelayCustodyStore} {custodyId destination relayMessageId : String}

theorem Sound.named (h : Sound s) {r : CustodyMessage} (hr : r ∈ s.values) :
    Named r.custodyId r.relayMessageId r.destinationPeerId s := by
  refine ⟨h.below.stored r hr, fun r' hr' hid => ?_⟩
  rw [h.unique_id hr' hr hid]
  exact ⟨rfl, rfl⟩

section
variable {now : Nat} {slack : Slack} {s' : RelayCustodyStore}

theorem Changes.sequence_le (h : Changes now slack s s') :
    s.registry.sequence ≤ s'.registry.sequence := by
  induction h with
  | refl => exact Nat.le_refl _
  | tail _ hstep ih => exact ih.trans hstep.sequence_le

theorem Named.changes (h : Named custodyId relayMessageId destination s)
    (hchanges : Changes now slack s s') : Named custodyId relayMessageId destination s' := by
  obtain ⟨n, hn, hnumbered⟩ := h.drawn
  refine ⟨⟨n, hn.trans_le hchanges.sequence_le, hnumbered⟩, fun r' hr' hid => ?_⟩
  obtain ⟨r, hr, hsame, _⟩ := hchanges.within.mem_values hr'
  rw [hsame.relayMessageId, hsame.destinationPeerId]
  exact h.record r hr (hsame.custodyId ▸ hid)

end

theorem Named.call (h : Named custodyId relayMessageId destination s) (hs : Sound s) (P : Platform)
    (c : CustodyCall) : Named custodyId relayMessageId destination (s.call P c) := by
  rcases hs.call_cases .tidy P c nofun with hchanges | ⟨n, t, message, reason, hshrinks, hle, hlt,
    hnumbered, _, _, hcall⟩
  · exact h.changes hchanges
  · have hchanges : Changes c.now .tidy s t := hshrinks.changes
    have ht := h.changes hchanges
    rw [hcall]
    obtain ⟨k, hk, hdrawn⟩ := ht.drawn
    refine ⟨⟨k, Nat.lt_succ_of_lt hk, hdrawn⟩, fun r hr hid => ?_⟩
    rcases mem_values_enter hr with rfl | hold
    · -- the new record's number was not drawn yet when this id was given out
      obtain ⟨k', hk', hdrawn'⟩ := h.drawn
      have hn : n = k' := hnumbered.inj (hid ▸ hdrawn')
      omega
    · exact ht.record r hold hid

theorem Served.named {P : Platform} {t : RelayCustodyStore} (h : Served P s t) (hs : Sound s)
    (hnamed : Named custodyId relayMessageId destination s) :
    Named custodyId relayMessageId destination t := by
  induction h with
  | refl => exact hnamed
  | tail hchain hstep ih =>
    obtain ⟨c, _, rfl⟩ := hstep
    have hchain : Served P s _ := hchain
    exact ih.call (hchain.spec hs).1 P c

end RelayCustodyStore

end Scm.Store

namespace Scm.Transport

open Bytes Collections Store RelayCustodyStore

namespace RelayNode

variable {Peer : Type} (ids : PeerIds Peer) (P : Platform) (crc : Bytes → UInt32)

/-- What holds of a relay as long as the process runs: the store is sound, it holds
records for peers only, and every dispatch in flight remembers its record right. -/
structure Tracked (n : RelayNode Peer) : Prop where
  sound : Sound n.custody
  texts : ∀ r ∈ n.custody.values, ∃ peer, r.destinationPeerId = ids.toText peer
  inflight : ∀ requestId d, n.pendingCustodyDispatches.lookup requestId = some d →
    Named d.custodyId d.relayMessageId (ids.toText d.destinationPeer) n.custody

variable {ids P}

variable {n n' : RelayNode Peer}

theorem NoNewDispatch.of_eq (h : n'.pendingCustodyDispatches = n.pendingCustodyDispatches) :
    NoNewDispatch n n' := by
  intro requestId d hd
  rw [← h]
  exact hd

theorem Tracked.serve (h : Tracked ids n) (hserved : Served P n.custody n'.custody)
    (hdispatch : NoNewDispatch n n') : Tracked ids n' := by
  obtain ⟨hsound, hwithin, _⟩ := hserved.spec h.sound
  refine ⟨hsound, fun r' hr' => ?_, fun requestId d hd => ?_⟩
  · obtain ⟨r, hr, hsame, _⟩ := hwithin.mem_values hr'
    obtain ⟨peer, hpeer⟩ := h.texts r hr
    exact ⟨peer, hsame.destinationPeerId.trans hpeer⟩
  · exact hserved.named h.sound (h.inflight requestId d (hdispatch requestId d hd))

theorem Tracked.destination_eq (h : Tracked ids n) (hplain : Plain ids) {peer : Peer}
    {r : CustodyMessage} (hr : r ∈ n.custody.scanPrefix (destinationPrefix (ids.toText peer))) :
    r.destinationPeerId = ids.toText peer :=
  destination_eq_of_texts hplain h.sound.keyed h.texts hr

/-! ## Dispatching -/

variable (env : Reading)

theorem Tracked.dispatchLoop (peer : Peer) (reason : String) (records : List CustodyMessage) :
    ∀ n : RelayNode Peer, Tracked ids n →
      (∀ r ∈ records, Named r.custodyId r.relayMessageId (ids.toText peer) n.custody) →
      Tracked ids (dispatchLoop ids crc env peer reason records n).1 := by
  induction records with
  | nil => exact fun n h _ => h
  | cons record records ih =>
    intro n h hnamed
    -- the platform does not matter here: marking is the same call on any of them
    have hmark : Served plainPlatform n.custody
        (n.custody.markDispatching env (ids.toText peer) record.custodyId reason).2 :=
      .of_call (.markDispatching env (ids.toText peer) record.custodyId reason) id rfl
    have hrest : ∀ r ∈ records, Named r.custodyId r.relayMessageId (ids.toText peer)
        (n.custody.markDispatching env (ids.toText peer) record.custodyId reason).2 :=
      fun r hr => hmark.named h.sound (hnamed r (List.mem_cons_of_mem record hr))
    have hfirst := hmark.named h.sound (hnamed record List.mem_cons_self)
    unfold RelayNode.dispatchLoop
    split
    next => exact h
    split
    next custody heq =>
      rw [heq] at hmark hrest
      exact ih { n with custody := custody } (h.serve hmark fun _ _ hd => hd) hrest
    next custody heq =>
      rw [heq] at hmark hrest hfirst
      have hmarked : Tracked ids { n with custody := custody } := h.serve hmark fun _ _ hd => hd
      refine ih _ ⟨hmarked.sound, hmarked.texts, fun requestId d hd => ?_⟩ hrest
      rcases lookup_insert_cases hd with ⟨_, rfl⟩ | ⟨_, hold⟩
      · exact hfirst
      · exact hmarked.inflight requestId d hold

variable [DecidableEq Peer]

section
variable (h : Tracked ids n)
include h

theorem Tracked.dispatchPendingCustodyForPeer (hplain : Plain ids) (env : Reading) (peer : Peer)
    (reason : String) :
    Tracked ids (dispatchPendingCustodyForPeer ids crc env peer reason n).1 := by
  unfold RelayNode.dispatchPendingCustodyForPeer
  split
  next => exact h
  split
  next => exact h
  refine Tracked.dispatchLoop crc env peer reason _ n h fun r hr => ?_
  have hscan := mem_scanPrefix_of_mem_pending hr
  rw [← h.destination_eq hplain hscan]
  exact h.sound.named (mem_values_of_mem_scanPrefix hscan)

/-! ## Accepting -/

omit [DecidableEq Peer] in
theorem Tracked.acceptCustody (env : Reading) (source : String) (destination : Peer)
    (relayMessageId : String) (data : Bytes) (identityId deviceId : Option String) :
    Tracked ids { n with custody := (n.custody.acceptCustody P env source (ids.toText destination)
      relayMessageId data identityId deviceId).2 } := by
  refine ⟨?_, fun r hr => ?_, fun requestId d hd => ?_⟩
  · exact h.sound.call P (.acceptCustody env source (ids.toText destination) relayMessageId data
      identityId deviceId)
  · rcases acceptCustody_values P h.sound.keyed env source (ids.toText destination) relayMessageId
      data identityId deviceId hr with ⟨q, hq, hsame⟩ | ⟨hdest, _⟩
    · obtain ⟨peer, hpeer⟩ := h.texts q hq
      exact ⟨peer, hsame.destinationPeerId.trans hpeer⟩
    · exact ⟨destination, hdest⟩
  · exact (h.inflight requestId d hd).call h.sound P (.acceptCustody env source
      (ids.toText destination) relayMessageId data identityId deviceId)

section
variable (hplain : Plain ids) (env : Reading)
include hplain

theorem Tracked.takeIntoCustody (peer destination : Peer) (request : RelayRequest)
    (identityId deviceId : Option String) :
    Tracked ids
      (takeIntoCustody ids P crc env peer destination request identityId deviceId n).2.1 := by
  have haccepted := h.acceptCustody (P := P) env (ids.toText peer) destination request.messageId
    request.envelopeData identityId deviceId
  unfold RelayNode.takeIntoCustody
  dsimp only
  split
  next => exact ⟨h.sound, h.texts, h.inflight⟩
  split
  next e custody heq =>
    rw [heq] at haccepted
    exact ⟨haccepted.sound, haccepted.texts, haccepted.inflight⟩
  next r custody heq =>
    rw [heq] at haccepted
    have hnext : Tracked ids { n with
        custody := custody
        recentDuplicates := recordAccepted (pruneDuplicateWindow n.recentDuplicates env.now)
          (duplicateKey (ids.toText peer) (ids.toText destination) request.messageId) env.now } :=
      ⟨haccepted.sound, haccepted.texts, haccepted.inflight⟩
    exact hnext.dispatchPendingCustodyForPeer crc hplain env destination "accept_immediate_pull"

theorem Tracked.handleRelayRequest (hourElapsed admitted : Bool) (peer : Peer)
    (request : RelayRequest) :
    Tracked ids
      (handleRelayRequest ids P crc env hourElapsed admitted peer request n).2.1 := by
  rcases (books_served P).handleRelayRequest ids P crc env hourElapsed admitted peer request n
    (served_resolveCustodyMetadata P n.custody env _ _) with
      ⟨_, hserves, _⟩ | ⟨destination, identityId, deviceId, next, _, hserves, hout⟩
  · exact h.serve hserves.custody hserves.dispatches
  · rw [hout]
    exact (h.serve hserves.custody hserves.dispatches).takeIntoCustody crc hplain env peer
      destination request identityId deviceId

/-- Every event keeps the dispatches in flight and the store in step. -/
theorem Tracked.react (event : NodeEvent Peer) : Tracked ids (n.react ids P crc event) := by
  by_cases hrequest : event.IsRequest
  · cases event with
    | relay event =>
      cases event with
      | relayRequest env hourElapsed admitted peer request =>
        exact h.handleRelayRequest crc hplain env hourElapsed admitted peer request
      | _ => exact hrequest.elim
    | _ => exact hrequest.elim
  · obtain ⟨hserved, _⟩ := served_react ids P crc n hrequest
    cases event with
    | register => exact h.serve hserved (.of_eq rfl)
    | deregister => exact h.serve hserved (.of_eq rfl)
    | enforceStoragePressure => exact h.serve hserved (.of_eq rfl)
    | relay event =>
      have hbooking (hevent : event.IsBooking) : Tracked ids (n.step ids P crc event).1 :=
        h.serve hserved ((books_served P).step ids P crc n hevent).1.dispatches
      cases event with
      | relayRequest => exact absurd trivial hrequest
      | pull env destination reason =>
        exact h.dispatchPendingCustodyForPeer crc hplain env destination reason
      | _ => exact hbooking trivial

end

end

end RelayNode

end Scm.Transport
