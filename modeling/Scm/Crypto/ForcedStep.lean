import Scm.Crypto.LatePacket
import Scm.Crypto.SessionRuns

/-!
# A ratchet step that only one side takes

`force_ratchet` gives a session a new DH key and, if it knows a key of the peer's, moves
its root key and starts a new sending chain: the second half of `handle_dh_ratchet`
without the first. The peer learns of the new key from the next header and answers it with
a whole step of its own, from the root key it has.

The two do not meet. The side ahead has already moved its root key once since the peer's
last step, and a forced step moves it again. The side behind forces its step from a root
key and a DH key that the peer has left. Either way the chain key that is sealed with is
derived from a root key the peer does not hold, after one forced step as after many. What is
left is a receiver that has heard nothing yet (`forced_understood_iff`).
-/

namespace Scm.Crypto

open List Bytes Collections RatchetSession Function

section
variable {P : Primitives}

/-! ## Forced steps of one session -/

namespace RatchetSession

variable {s : RatchetSession}

variable (P) in
/-- Several calls of `force_ratchet`. -/
def forceAll (s : RatchetSession) (secrets : List Key) : RatchetSession :=
  secrets.foldl (fun s secret => s.forceRatchet P secret) s

section
variable (s : RatchetSession) (init : List Key) (secret : Key)

theorem forceAll_snoc :
    s.forceAll P (init ++ [secret]) = (s.forceAll P init).forceRatchet P secret :=
  foldl_append

theorem theirDhPublic_forceRatchet : (s.forceRatchet P secret).theirDhPublic = s.theirDhPublic := by
  unfold forceRatchet
  dsimp only
  split <;> rfl

theorem dhStepCount_forceRatchet : (s.forceRatchet P secret).dhStepCount = s.dhStepCount + 1 := by
  unfold forceRatchet
  dsimp only
  split <;> rfl

end

variable (secrets : List Key)

theorem theirDhPublic_forceAll :
    ∀ s : RatchetSession, (s.forceAll P secrets).theirDhPublic = s.theirDhPublic := by
  induction secrets with
  | nil => exact fun _ => rfl
  | cons secret secrets ih =>
    exact fun s => (ih _).trans (theirDhPublic_forceRatchet s secret)

theorem dhStepCount_forceAll :
    ∀ s : RatchetSession, s.dhStepCount.toNat + secrets.length < maxRatchetSteps.toNat →
      (s.forceAll P secrets).dhStepCount < maxRatchetSteps := by
  induction secrets with
  | nil => exact fun s h => UInt32.lt_iff_toNat_lt.mpr h
  | cons secret secrets ih =>
    intro s h
    have hlen : (secret :: secrets).length = secrets.length + 1 := rfl
    have hsmall : maxRatchetSteps.toNat < 2 ^ 32 := by decide
    refine ih (s.forceRatchet P secret) ?_
    rw [dhStepCount_forceRatchet, UInt32.toNat_add, show (1 : UInt32).toNat = 1 from rfl]
    omega

/-- A session that knows the peer's key sends on a chain of its own after the last forced
step. -/
theorem sending_forceAll (init : List Key) (secret : Key) {d : Key}
    (htheir : s.theirDhPublic = some d) :
    (s.forceAll P (init ++ [secret])).ourDhPublic = P.publicKey secret ∧
      (s.forceAll P (init ++ [secret])).sendingChain = some (chainAt P
        (P.rootKeyRatchet (s.forceAll P init).rootKey (P.diffieHellman secret d)).2 0) := by
  have hsame : (s.forceAll P init).theirDhPublic = some d :=
    (theirDhPublic_forceAll init s).trans htheir
  rw [forceAll_snoc]
  unfold forceRatchet
  rw [hsame]
  exact ⟨rfl, rfl⟩

/-- A session that has not heard from the peer only changes its own key pair. -/
theorem forceAll_unheard :
    ∀ s : RatchetSession, s.theirDhPublic = none →
      ∃ secret ours count, s.forceAll P secrets
        = { s with ourDhSecret := secret, ourDhPublic := ours, dhStepCount := count } := by
  induction secrets with
  | nil => exact fun s _ => ⟨s.ourDhSecret, s.ourDhPublic, s.dhStepCount, rfl⟩
  | cons first secrets ih =>
    intro s h
    have hone : s.forceRatchet P first = { s with
        ourDhSecret := first, ourDhPublic := P.publicKey first,
        dhStepCount := s.dhStepCount + 1 } := by
      unfold forceRatchet
      rw [h]
    obtain ⟨secret, ours, count, hrest⟩ := ih (s.forceRatchet P first)
      ((theirDhPublic_forceRatchet s first).trans h)
    refine ⟨secret, ours, count, hrest.trans ?_⟩
    rw [hone]

/-- A session that has a chain and has not used up its steps can send. -/
theorem encrypt_succeeds (hP : P.Correct) {chain : Chain} (nonce plaintext aad : Bytes)
    (hchain : s.sendingChain = some chain) (hsteps : s.dhStepCount < maxRatchetSteps) :
    ∃ sent s', s.encrypt P nonce plaintext aad = (.ok sent, s') := by
  obtain ⟨ciphertext, hseals, _⟩ := hP.opens (chain.nextMessageKey P).1 nonce aad plaintext
  unfold encrypt
  rw [hchain]
  dsimp only
  rw [if_neg (UInt32.not_le.mpr hsteps), hseals]
  exact ⟨_, _, rfl⟩

end RatchetSession

/-! ## Forced steps in the network -/

/-- A receiver that has heard nothing yet may change its key pair: the peer agrees with
its identity key. -/
theorem Ahead.rekeyed {used : List Key} {X Y : RatchetSession} {inboxX inboxY : List Packet}
    {gapX gapY : List Key} (secret ours : Key) (count : UInt32)
    (hidentity : Y.ourIdentitySecret.isSome) (h : Ahead P used X Y inboxX inboxY gapX gapY) :
    Ahead P used X { Y with ourDhSecret := secret, ourDhPublic := ours, dhStepCount := count }
      inboxX inboxY gapX gapY := by
  -- the next ratchet step will use the identity secret, which is not replaced
  obtain ⟨identity, hid⟩ := Option.isSome_iff_exists.mp hidentity
  have hsecret : RatchetSession.ratchetSecret
      { Y with ourDhSecret := secret, ourDhPublic := ours, dhStepCount := count }
        = Y.ratchetSecret := by
    unfold ratchetSecret
    rw [hid]
    rfl
  refine { h with their := ?_, pending := ?_, replies := ?_, usedY := ?_ }
  · rw [hsecret]
    exact h.their
  · rw [hsecret]
    exact h.pending
  · rcases h.replies with hnone | ⟨_, _, _, _, hgone, _⟩
    · exact .inl hnone
    · rw [hid] at hgone
      cases hgone
  · rw [hsecret]
    exact h.usedY

/-- Sends and deliveries: nothing is lost or overtaken. -/
def Action.InOrder : Action → Prop
  | .send _ _ _ _ | .deliver _ _ => True
  | .lose _ => False

namespace Network

variable {net net' forced : Network} {x : Side}

variable (P) in
/-- `x` calls `force_ratchet` once for each secret; `none` when a drawn key is not fresh. -/
def force (x : Side) : Network → List Key → Option Network
  | net, [] => some net
  | net, secret :: secrets =>
    if P.publicKey secret ∉ net.used then
      force x { net with
        session := update net.session x ((net.session x).forceRatchet P secret)
        used := P.publicKey secret :: net.used } secrets
    else none

theorem force_eq (secrets : List Key) :
    ∀ {net : Network}, force P x net secrets = some forced →
      forced = { net with
        session := update net.session x ((net.session x).forceAll P secrets)
        used := forced.used } ∧
      (∀ k ∈ net.used, k ∈ forced.used) ∧ ∀ secret ∈ secrets, P.publicKey secret ∉ net.used := by
  induction secrets with
  | nil =>
    intro net h
    cases h
    exact ⟨congrArg (fun session => { forced with session }) (update_eq_self x _).symm,
      fun _ hk => hk, nofun⟩
  | cons first secrets ih =>
    intro net h
    unfold force at h
    split at h
    next hfresh =>
      obtain ⟨heq, hsub, hrest⟩ := ih h
      refine ⟨heq.trans ?_, fun k hk => hsub k (mem_cons_of_mem _ hk),
        forall_mem_cons.mpr ⟨hfresh, fun secret hmem hused => ?_⟩⟩
      · dsimp only
        rw [update_self, update_idem]
        rfl
      · exact hrest secret hmem (mem_cons_of_mem _ hused)
    next => cases h

variable (P) in
/-- Every message that either side sends from now on decrypts to its plaintext when it is
delivered in order. -/
def Understood (net : Network) : Prop :=
  ∀ (actions : List Action) (later : Network), (∀ a ∈ actions, a.InOrder) →
    run P net actions = some later →
    ∀ (y : Side) (p : Packet) (rest : List Packet) (newDhSecret : Key),
      later.inbox y = p :: rest → P.publicKey newDhSecret ∉ later.used →
        (p.decryptBy P newDhSecret (later.session y)).1 = .ok p.plaintext

theorem AheadAt.understood (hP : P.Correct) (h : net.AheadAt P x) : net.Understood P := by
  intro actions later _ hrun y p rest newDhSecret hin hfresh
  obtain ⟨x', hx'⟩ := run_ahead hP actions h hrun
  obtain ⟨s', hdec, _⟩ := deliver_ahead hP hx' hin hfresh
  rw [hdec]

theorem AheadAt.saved (h : net.AheadAt P x) (y : Side) : SavedBehind net.used (net.session y) := by
  rcases x.eq_or_eq_other y with rfl | rfl
  · exact h.savedX
  · exact h.savedY

/-! ## Keys that have been drawn -/

/-- The keys in the sessions and in flight have been drawn, and a session that has not
heard from the peer still holds its identity secret. -/
structure Drawn (net : Network) : Prop where
  theirs : ∀ y d, (net.session y).theirDhPublic = some d → d ∈ net.used
  ours : ∀ y, (net.session y).ourDhPublic ∈ net.used
  flying : ∀ y, ∀ p ∈ net.inbox y, p.dh ∈ net.used
  unheard : ∀ y, (net.session y).theirDhPublic = none → (net.session y).ourIdentitySecret.isSome

theorem drawn_start (P : Primitives) (aliceKey bobKey aliceSecret bobSecret : Key) :
    (start P aliceKey bobKey aliceSecret bobSecret).Drawn where
  theirs y d h := by
    cases y with
    | alice =>
      cases h
      simp [start]
    | bob => cases h
  ours y := by cases y <;> simp [start, initAsSender, initAsReceiver]
  flying := nofun
  unheard y h := by
    cases y with
    | alice => cases h
    | bob => rfl

section
variable (s : RatchetSession) (newDhSecret : Key) (p : Packet)

theorem theirDhPublic_decryptBy : (p.decryptBy P newDhSecret s).2.theirDhPublic = some p.dh := by
  unfold Packet.decryptBy
  rw [decrypt_snd P newDhSecret s (by simp), theirDhPublic_getMessageKey, theirDhPublic_ratchetTo,
    arrayAt_toList]

theorem ourDhPublic_decryptBy :
    (p.decryptBy P newDhSecret s).2.ourDhPublic = s.ourDhPublic ∨
      (p.decryptBy P newDhSecret s).2.ourDhPublic = P.publicKey newDhSecret := by
  unfold Packet.decryptBy
  rw [decrypt_snd P newDhSecret s (by simp), (sendingSide_getMessageKey _ _ _).1, ratchetTo]
  split
  next => exact .inr rfl
  next => exact .inl rfl

end

theorem forall_mem_update {Q : Packet → Prop} {inbox : Side → List Packet} {y : Side}
    {packets : List Packet} (h : ∀ z, ∀ p ∈ inbox z, Q p) (hnew : ∀ p ∈ packets, Q p) :
    ∀ z, ∀ p ∈ update inbox y packets z, Q p :=
  (forall_update_iff inbox fun _ packets => ∀ p ∈ packets, Q p).mpr
    ⟨hnew, fun z _ => h z⟩

/-- One session is replaced, some keys are drawn and packets move. -/
theorem Drawn.update (h : net.Drawn) {y : Side} {s' : RatchetSession} {inbox : Side → List Packet}
    {used : List Key} (hused : ∀ k ∈ net.used, k ∈ used)
    (htheirs : ∀ d, s'.theirDhPublic = some d → d ∈ used) (hours : s'.ourDhPublic ∈ used)
    (hunheard : s'.theirDhPublic = none → s'.ourIdentitySecret.isSome)
    (hflying : ∀ z, ∀ p ∈ inbox z, p.dh ∈ used) (gap : Side → List Key)
    (lost : Side → List Packet) :
    Drawn ⟨update net.session y s', inbox, gap, lost, used⟩ := by
  refine ⟨?_, ?_, hflying, ?_⟩
  · exact (forall_update_iff net.session fun _ s =>
      ∀ d, s.theirDhPublic = some d → d ∈ used).mpr
        ⟨htheirs, fun z _ d hd => hused d (h.theirs z d hd)⟩
  · exact (forall_update_iff net.session fun _ s => s.ourDhPublic ∈ used).mpr
      ⟨hours, fun z _ => hused _ (h.ours z)⟩
  · exact (forall_update_iff net.session fun _ s =>
      s.theirDhPublic = none → s.ourIdentitySecret.isSome).mpr ⟨hunheard, fun z _ => h.unheard z⟩

/-- Sending leaves the session its keys, whatever becomes of the packet. -/
theorem Drawn.encrypted (h : net.Drawn) (y : Side) (nonce plaintext aad : Bytes)
    (inbox : Side → List Packet) (hflying : ∀ z, ∀ p ∈ inbox z, p.dh ∈ net.used) :
    Drawn { net with
      session := Function.update net.session y ((net.session y).encrypt P nonce plaintext aad).2
      inbox } := by
  obtain ⟨⟨chain, hframe⟩, _⟩ := encrypt_frame (P := P) (net.session y) nonce plaintext aad
  rw [hframe]
  refine h.update (fun _ hk => hk) ?_ ?_ ?_ hflying _ _
  · exact h.theirs y
  · exact h.ours y
  · exact h.unheard y

theorem Drawn.step (h : net.Drawn) {a : Action} (hstep : net.step P a = some net') :
    net'.Drawn := by
  cases stepped_of_step hstep with
  | @failed y nonce plaintext aad e s' henc =>
    have hkept := h.encrypted (P := P) y nonce plaintext aad
    rw [henc] at hkept
    exact hkept _ h.flying
  | @sent y nonce plaintext aad sent s' _ _ henc =>
    have hours : sent.ourDhPublic = (net.session y).ourDhPublic :=
      (encrypt_frame (P := P) (net.session y) nonce plaintext aad).2 sent (by rw [henc])
    have hkept := h.encrypted (P := P) y nonce plaintext aad
    rw [henc] at hkept
    refine hkept _ (forall_mem_update h.flying fun p hp => ?_)
    rcases mem_append.mp hp with hp | hp
    · exact h.flying _ p hp
    · cases mem_singleton.mp hp
      exact hours ▸ h.ours y
  | @delivered y p rest newDhSecret hin _ =>
    have hflying : ∀ q ∈ p :: rest, q.dh ∈ net.used := hin ▸ h.flying y
    have hold : ∀ k ∈ net.used, k ∈ P.publicKey newDhSecret :: net.used :=
      fun _ hk => mem_cons_of_mem _ hk
    refine h.update hold (fun d hd => ?_) ?_ (fun hnone => ?_)
      (forall_mem_update (fun z q hq => hold _ (h.flying z q hq)) fun q hq =>
        hold _ (hflying q (mem_cons_of_mem _ hq))) _ _
    · simp_all [theirDhPublic_decryptBy]
    · rcases ourDhPublic_decryptBy (P := P) (net.session y) newDhSecret p with heq | heq
      · exact heq ▸ hold _ (h.ours y)
      · exact heq ▸ mem_cons_self
    · rw [theirDhPublic_decryptBy] at hnone
      cases hnone
  | @lost y p rest hin _ =>
    refine { h with flying := forall_mem_update h.flying fun q hq => ?_ }
    exact h.flying y q (hin ▸ mem_cons_of_mem _ hq)

theorem drawn_run (actions : List Action) (h : net.Drawn) (hrun : run P net actions = some net') :
    net'.Drawn :=
  run_keeps (Q := Drawn) (fun hmid hstep => hmid.step hstep) actions h hrun

/-! ## The forced side and its peer -/

variable (P) in
/-- The key derivation keeps two steps apart: the last of the forced steps of `s`, and the
step the peer takes when it sees the key. They start from different root keys, and their
chain keys are equal only if their inputs are. -/
structure Apart (s peer : RatchetSession) (init : List Key) (secret d : Key) : Prop where
  roots : (s.forceAll P init).rootKey ≠ peer.rootKey
  chains : (P.rootKeyRatchet peer.rootKey
      (P.diffieHellman peer.ratchetSecret (P.publicKey secret))).2
        = (P.rootKeyRatchet (s.forceAll P init).rootKey (P.diffieHellman secret d)).2 →
    peer.rootKey = (s.forceAll P init).rootKey ∧
      P.diffieHellman peer.ratchetSecret (P.publicKey secret) = P.diffieHellman secret d

/-- After a forced step of a session that knows the peer's key, the next message is sealed
on a chain the peer does not find. -/
theorem forced_not_understood (hP : P.Binding) {x' : Side} {init : List Key} {secret d : Key}
    (hahead : net.AheadAt P x') (hdrawn : net.Drawn) (hquiet : net.inbox x.other = [])
    (htheir : (net.session x).theirDhPublic = some d)
    (hforce : force P x net (init ++ [secret]) = some forced)
    (hsteps : ((net.session x).forceAll P (init ++ [secret])).dhStepCount < maxRatchetSteps)
    (hapart : Apart P (net.session x) (net.session x.other) init secret d)
    (hspare : ∃ spare, P.publicKey spare ∉ forced.used) : ¬ forced.Understood P := by
  intro hunderstood
  obtain ⟨spare, hspare⟩ := hspare
  obtain ⟨hforced, _, hfresh⟩ := force_eq _ hforce
  have hdrawnKey : P.publicKey secret ∉ net.used := hfresh secret (by simp)
  have hne : x.other ≠ x := x.other_ne
  have hours : forced.session x = (net.session x).forceAll P (init ++ [secret]) := by
    rw [hforced]
    exact update_self ..
  have hpeer : forced.session x.other = net.session x.other := by
    rw [hforced]
    exact update_of_ne hne ..
  have hempty : forced.inbox x.other = [] := by
    rw [hforced]
    exact hquiet
  obtain ⟨hpublic, hchain⟩ := sending_forceAll (P := P) init secret htheir
  rw [← hours] at hpublic hchain hsteps
  -- the forced side sends, and the peer gets the message
  have hnonce : demoNonce.length = 24 := by decide
  have hroom : roomToSend (forced.session x) := by
    unfold roomToSend
    rw [hchain]
    rfl
  obtain ⟨sent, s', hsent⟩ := encrypt_succeeds hP.toCorrect demoNonce [] [] hchain hsteps
  obtain ⟨_, hgenuine⟩ := encrypt_chainAt hP.toCorrect hnonce hchain hsent
  have hrun : run P forced [.send x demoNonce [] []] = some { forced with
      session := update forced.session x s'
      inbox := update forced.inbox x.other (forced.inbox x.other ++
        [⟨sent.ourDhPublic, sent.messageNumber, sent.nonce, sent.ciphertext, [], []⟩]) } := by
    simp only [run, Network.step]
    rw [if_pos ⟨hnonce, hroom⟩, hsent]
  have hread := hunderstood _ _ (by simp [Action.InOrder]) hrun x.other _ [] spare
    (by rw [hempty]; exact update_self ..) hspare
  dsimp only at hread
  rw [update_of_ne hne, hpeer] at hread
  generalize (⟨sent.ourDhPublic, sent.messageNumber, sent.nonce, sent.ciphertext, [], []⟩ : Packet)
    = p at hgenuine hread
  -- the key is new to the peer, so reading the message means having found its chain
  have hdh : p.dh = P.publicKey secret := hgenuine.dh.trans hpublic
  have hfound := chain_of_decryptBy_ok hP hgenuine (by decide)
    (fun hseen => hdrawnKey (hdh ▸ hdrawn.theirs _ _ hseen))
    (fun hsaved => hdrawnKey (hdh ▸ (hahead.saved _ _ hsaved).1)) hread
  rw [hdh] at hfound
  exact hapart.roots (hapart.chains hfound).1.symm

/-- A caller that has not heard from the peer stays in step with it. -/
theorem AheadAt.forced_unheard (hP : P.Correct) {x' : Side} {secrets : List Key}
    (hahead : net.AheadAt P x') (hdrawn : net.Drawn) (hforce : force P x net secrets = some forced)
    (hunheard : (net.session x).theirDhPublic = none) : forced.Understood P := by
  obtain ⟨hforced, hsub, _⟩ := force_eq _ hforce
  have hidentity := hdrawn.unheard x hunheard
  -- the side ahead has heard from the peer, so the caller is the side behind
  obtain rfl : x = x'.other := by
    rcases x'.eq_or_eq_other x with rfl | hother
    · rw [hahead.their] at hunheard
      cases hunheard
    · exact hother
  obtain ⟨secret, ours, count, hsession⟩ := forceAll_unheard (P := P) secrets _ hunheard
  have hforcedAhead : forced.AheadAt P x' := by
    rw [hforced, hsession]
    unfold AheadAt
    dsimp only
    rw [update_self, update_of_ne x'.other_ne.symm]
    exact (hahead.rekeyed secret ours count hidentity).mono hsub
  exact hforcedAhead.understood hP

/-- **What a forced step does to a conversation.** In any reachable state with nothing in
flight, let either side call `force_ratchet` any number of times. Every message sent from then
on, by it and by the peer, decrypts under in-order delivery when there was no such call or the
caller had not yet heard from the peer. Short of the limit on DH steps, and for primitives that
keep the two steps apart, it does so only then. -/
theorem forced_understood_iff (P : Primitives) (hP : P.Correct)
    (aliceKey bobKey aliceSecret bobSecret : Key) (actions : List Action) (net : Network)
    (hrun : run P (start P aliceKey bobKey aliceSecret bobSecret) actions = some net)
    (hquiet : ∀ y, net.inbox y = []) (x : Side) (secrets : List Key) (forced : Network)
    (hforce : force P x net secrets = some forced) :
    (secrets = [] ∨ (net.session x).theirDhPublic = none → forced.Understood P) ∧
      (P.Binding →
        (net.session x).dhStepCount.toNat + secrets.length < maxRatchetSteps.toNat →
        (∀ init secret d, secrets = init ++ [secret] → (net.session x).theirDhPublic = some d →
          Apart P (net.session x) (net.session x.other) init secret d) →
        (∃ spare, P.publicKey spare ∉ forced.used) →
        (forced.Understood P ↔ secrets = [] ∨ (net.session x).theirDhPublic = none)) := by
  obtain ⟨x', hahead⟩ := run_ahead hP actions (start_ahead hP _ _ _ _) hrun
  have hdrawn := drawn_run actions (drawn_start P _ _ _ _) hrun
  have henough : secrets = [] ∨ (net.session x).theirDhPublic = none → forced.Understood P := by
    rintro (rfl | hunheard)
    · cases hforce
      exact hahead.understood hP
    · exact hahead.forced_unheard hP hdrawn hforce hunheard
  refine ⟨henough, fun hbinding hsteps hapart hspare => ⟨fun hunderstood => ?_, henough⟩⟩
  rcases eq_nil_or_concat secrets with hnil | ⟨init, secret, heq⟩
  · exact .inl hnil
  · rw [concat_eq_append] at heq
    cases htheir : (net.session x).theirDhPublic with
    | none => exact .inr rfl
    | some d =>
      have hlimit := dhStepCount_forceAll (P := P) secrets _ hsteps
      have hpair := hapart init secret d heq htheir
      subst heq
      exact absurd hunderstood (forced_not_understood hbinding hahead hdrawn (hquiet _) htheir
        hforce hlimit hpair hspare)

end Network

end

/-! ## A small run -/

namespace Network

/-- Alice's first message has arrived, and nothing else is in flight. -/
def mixingActions : List Action := [.send .alice demoNonce [1] [], .deliver .bob (keyOfByte 10)]

/-- Bob forces steps with these secrets and answers: what Alice gets. -/
def forcedAnswer (secrets : List Key) : Option (Outcome Bytes) := do
  let net ← run mixingPrimitives mixingStart mixingActions
  let forced ← force mixingPrimitives .bob net secrets
  let later ← run mixingPrimitives forced [.send .bob demoNonce [2] []]
  match later.inbox .alice with
  | [p] => some (p.decryptBy mixingPrimitives (keyOfByte 30) (later.session .alice)).1
  | _ => none

/-- Bob's answer arrives, unless Bob has forced a step before. -/
theorem forced_answer_lost :
    forcedAnswer [] = some (.ok [2]) ∧
      forcedAnswer [keyOfByte 20] = some (.err "Decryption failed") := by
  decide +kernel

theorem forced_understood_iff_demo :
    ∃ net forced, run mixingPrimitives mixingStart mixingActions = some net ∧
      force mixingPrimitives .bob net [keyOfByte 20] = some forced ∧
      ¬ forced.Understood mixingPrimitives := by
  have hstate : (run mixingPrimitives mixingStart mixingActions).map (fun net =>
      ((net.session .bob).dhStepCount, (net.session .bob).theirDhPublic,
        [(net.session .bob).rootKey,
        (net.session .alice).rootKey, (net.session .alice).ratchetSecret]))
      = some (1, some (keyOfByte 3), [keyOfByte 21, keyOfByte 8, keyOfByte 3]) := by
    decide +kernel
  have hforced : ((run mixingPrimitives mixingStart mixingActions).bind fun net =>
      (force mixingPrimitives .bob net [keyOfByte 20]).map fun forced =>
        (net.inbox .alice, net.inbox .bob, decide (keyOfByte 30 ∈ forced.used)))
      = some ([], [], false) := by
    decide +kernel
  obtain ⟨net, hrun, hnet⟩ := Option.bind_eq_some_iff.mp hforced
  obtain ⟨forced, hforce, hfacts⟩ := Option.map_eq_some_iff.mp hnet
  simp only [Prod.mk.injEq, decide_eq_false_iff_not] at hfacts
  obtain ⟨halice, hbob, hspare⟩ := hfacts
  rw [hrun, Option.map_some] at hstate
  simp only [Option.some.injEq, Prod.mk.injEq, List.cons.injEq, and_true] at hstate
  obtain ⟨hsteps, htheir, hroot, hpeer, hsecret⟩ := hstate
  have hquiet : ∀ y, net.inbox y = [] := by
    intro y
    cases y with
    | alice => exact halice
    | bob => exact hbob
  have hapart : ∀ init secret d, [keyOfByte 20] = init ++ [secret] →
      (net.session .bob).theirDhPublic = some d →
        Apart mixingPrimitives (net.session .bob) (net.session .alice) init secret d := by
    intro init secret d heq hd
    obtain ⟨rfl, rfl⟩ : init = [] ∧ secret = keyOfByte 20 := by
      cases init with
      | nil => exact ⟨rfl, (List.cons.inj heq).1.symm⟩
      | cons first rest => simp_all
    cases htheir.symm.trans hd
    refine ⟨?_, fun hchains => ?_⟩
    · show (net.session .bob).rootKey ≠ _
      rw [hroot, hpeer]
      decide
    · change (mixingPrimitives.rootKeyRatchet _ _).2
        = (mixingPrimitives.rootKeyRatchet (net.session .bob).rootKey _).2 at hchains
      rw [hroot, hpeer, hsecret] at hchains
      exact absurd hchains (by decide +kernel)
  have hiff := (forced_understood_iff mixingPrimitives mixingPrimitives_binding.toCorrect _ _ _ _ _
    net hrun hquiet .bob [keyOfByte 20] forced hforce).2 mixingPrimitives_binding
    (by rw [hsteps]; decide) hapart ⟨keyOfByte 30, hspare⟩
  refine ⟨net, forced, hrun, hforce, fun hunderstood => ?_⟩
  rcases hiff.mp hunderstood with hnil | hnone
  · cases hnil
  · rw [htheir] at hnone
    cases hnone

end Network

end Scm.Crypto
