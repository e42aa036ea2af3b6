import Scm.Crypto.Conversation

/-!
# A packet that arrives after its chain

The skipped-key store is indexed by DH key, as if a packet of an earlier chain
could still be read after the receiver has moved on. It cannot do so without
harm. Such a packet carries a key that is not the current one, `decrypt` takes
any other key for a new one, and the session ratchets *to the old key*: the root
key moves to a value the peer will never have and the secret the peer agreed with
is overwritten.

`late_packet_breaks_session` says that this is not a matter of luck. The chain the next
packet was sent on came from a ratchet step that the receiver has taken earlier in the
run, or would take now (`Sourced`); the chain it derives after the late packet comes from
the secret it has just drawn.
-/

namespace Scm.Crypto

open List Bytes Collections RatchetSession Function

section
variable {P : Primitives}

/-- A ciphertext opens under one key only, and a message key comes from one chain key. -/
structure Primitives.Binding (P : Primitives) : Prop extends P.Correct where
  committing : ∀ key key' nonce aad ciphertext m m',
    P.aeadDecrypt key nonce aad ciphertext = some m →
      P.aeadDecrypt key' nonce aad ciphertext = some m' → key = key'
  info_inj : ∀ key key' info,
    P.deriveKeyWithInfo key info = P.deriveKeyWithInfo key' info → key = key'

/-- The chain key that a ratchet step to `d` receives on. -/
def RatchetSession.stepKey (P : Primitives) (s : RatchetSession) (d : Key) : Key :=
  (P.rootKeyRatchet s.rootKey (P.diffieHellman s.ratchetSecret d)).2

/-- The primitives keep two ratchet steps to `d` apart: the agreements differ, and the
chain keys are equal only if the root keys and the agreements are. -/
structure StepsApart (P : Primitives) (s s' : RatchetSession) (d : Key) : Prop where
  agreements : P.diffieHellman s.ratchetSecret d ≠ P.diffieHellman s'.ratchetSecret d
  chains : s.stepKey P d = s'.stepKey P d → s.rootKey = s'.rootKey ∧
    P.diffieHellman s.ratchetSecret d = P.diffieHellman s'.ratchetSecret d

theorem advance_inj (hP : P.Binding) {c c' : Key} (k : Nat)
    (h : advance P c k = advance P c' k) : c = c' := by
  induction k with
  | zero => exact h
  | succ k ih => exact ih (hP.info_inj _ _ _ h)

theorem messageKeyAt_inj (hP : P.Binding) {c c' : Key} {k : Nat}
    (h : messageKeyAt P c k = messageKeyAt P c' k) : c = c' :=
  advance_inj hP k (hP.info_inj _ _ _ h)

/-- A chain short of `2^32` messages tells the key it started from. -/
theorem chainAt_inj (hP : P.Binding) {c c' : Key} {k k' : Nat} (hk : k < 2 ^ 32) (hk' : k' < 2 ^ 32)
    (h : chainAt P c k = chainAt P c' k') : c = c' := by
  have hindex : k = k' := by
    rw [← index_chainAt P c hk, h, index_chainAt P c' hk']
  subst hindex
  exact advance_inj hP k (congrArg Chain.chainKey h)

/-- What looking up a message key leaves alone, and what it can save. -/
theorem getMessageKey_frame (P : Primitives) (s : RatchetSession) (d : Key) (n : UInt32) :
    ∃ recv skipped, (s.getMessageKey P d n).2
        = { s with receivingChain := recv, skippedKeys := skipped } ∧
      ∀ key ∈ skipped, key ∈ s.skippedKeys ∨ key.1 = d := by
  have hlookup := lookup_getMessageKey P s d n
  generalize s.getMessageKey P d n = out at hlookup ⊢
  cases hlookup with
  | saved => exact ⟨_, _, rfl, fun key hkey => .inl (AList.mem_erase.mp hkey).2⟩
  | refused => exact ⟨_, _, rfl, fun key hkey => .inl hkey⟩
  | reached =>
    refine ⟨_, _, rfl, fun key hkey => ?_⟩
    rcases mem_skipKeys_cases P d _ _ _ key hkey with hold | ⟨_, _, rfl⟩
    · exact .inl hold
    · exact .inr rfl

variable {s : RatchetSession} {p : Packet}

/-- Whatever becomes of a packet under another key, the session has ratcheted to
that key. -/
theorem decryptBy_other (newDhSecret : Key) (hne : s.theirDhPublic ≠ some p.dh) :
    (p.decryptBy P newDhSecret s).2.theirDhPublic = some p.dh ∧
      ∀ key ∈ (p.decryptBy P newDhSecret s).2.skippedKeys,
        key ∈ s.skippedKeys ∨ key.1 = p.dh := by
  have hchanged : s.dhChanged p.dh = true := by simpa [dhChanged] using hne
  obtain ⟨recv, skipped, hframe, hsaved⟩ :=
    getMessageKey_frame P (s.handleDhRatchet P newDhSecret p.dh) p.dh p.number
  have hstate : (p.decryptBy P newDhSecret s).2
      = ((s.handleDhRatchet P newDhSecret p.dh).getMessageKey P p.dh p.number).2 := by
    unfold Packet.decryptBy
    rw [decrypt_snd P newDhSecret s (by simp), arrayAt_toList, ratchetTo, if_pos hchanged]
  rw [hstate, hframe]
  exact ⟨rfl, hsaved⟩

/-- A packet that is read at the start of a chain opened under that chain's key. -/
theorem opens_of_decryptBy_ok {c : Key} {m : Bytes} (newDhSecret : Key)
    (htheir : s.theirDhPublic = some p.dh) (hrecv : s.receivingChain = some (chainAt P c 0))
    (hnew : (p.dh, p.number) ∉ s.skippedKeys) (hnonce : p.nonce.length = 24)
    (h : (p.decryptBy P newDhSecret s).1 = .ok m) :
    P.aeadDecrypt (messageKeyAt P c p.number.toNat) p.nonce p.aad p.ciphertext = some m := by
  unfold Packet.decryptBy at h
  by_cases hfar : p.number.toNat > maxSkipKeys
  · obtain ⟨e, he⟩ :=
      (getMessageKey_isError_iff P s p.dh p.number).mpr ⟨hnew, fun chain hchain => by
      rw [hrecv] at hchain
      cases hchain
      refine .inr ?_
      show (p.number - 0).toNat > maxSkipKeys
      rwa [UInt32.sub_zero]⟩
    rw [decrypt_of_error htheir he] at h
    cases h
  · have hget := getMessageKey_chainAt P (k := p.number.toNat) hrecv (Nat.zero_le _)
      p.number.toNat_lt (by omega) (by rw [UInt32.ofNat_toNat]; exact hnew)
    rw [UInt32.ofNat_toNat] at hget
    rw [decrypt_of_ok htheir hget hnonce] at h
    split at h
    next plaintext hopen => cases h; exact hopen
    next => cases h

/-- A session that reads a packet under a new key has ratcheted to the chain the packet was
sent on: one ciphertext, one message key, one chain. -/
theorem chain_of_decryptBy_ok (hP : P.Binding) {s : RatchetSession} {p : Packet} {c d : Key}
    {k : Nat} {m : Bytes} {newDhSecret : Key} (hgen : Genuine P c d k p) (hk : k < 2 ^ 32)
    (hunseen : s.theirDhPublic ≠ some p.dh) (hnew : (p.dh, p.number) ∉ s.skippedKeys)
    (h : (p.decryptBy P newDhSecret s).1 = .ok m) :
    s.stepKey P p.dh = c := by
  have hnumber : p.number.toNat = k := by
    rw [hgen.number, UInt32.toNat_ofNat', Nat.mod_eq_of_lt hk]
  rw [decryptBy_ratchet newDhSecret hunseen] at h
  have hopens := opens_of_decryptBy_ok newDhSecret (theirDhPublic_handleDhRatchet P _ _ _)
    (receivingChain_handleDhRatchet P _ _ _) hnew hgen.nonce h
  rw [hnumber] at hopens
  exact messageKeyAt_inj hP (hP.committing _ _ _ _ _ _ _ hopens hgen.opens)

/-! ## Where a receiving chain comes from -/

variable {past : List RatchetSession}

variable (P) in
/-- The chain that `s` receives on began with a ratchet step of one of the sessions. -/
def Sourced (past : List RatchetSession) (s : RatchetSession) : Prop :=
  ∀ d chain, s.theirDhPublic = some d → s.receivingChain = some chain →
    ∃ e ∈ past, ∃ r < 2 ^ 32, chain = chainAt P (e.stepKey P d) r

namespace Sourced

theorem mono {past' : List RatchetSession} (hsub : past ⊆ past') (h : Sourced P past s) :
    Sourced P past' s := by
  intro d chain htheir hchain
  obtain ⟨e, he, hstart⟩ := h d chain htheir hchain
  exact ⟨e, hsub he, hstart⟩

/-- Taking a message key moves on along the chain. -/
theorem getMessageKey (d : Key) {n : UInt32} (hn : n.toNat + 1 < 2 ^ 32) (h : Sourced P past s) :
    Sourced P past (s.getMessageKey P d n).2 := by
  have hlookup := lookup_getMessageKey P s d n
  generalize s.getMessageKey P d n = out at hlookup ⊢
  cases hlookup with
  | saved => exact h
  | refused => exact h
  | @reached chain _ hchain hahead _ =>
    intro d' chain' htheir hchain'
    cases hchain'
    obtain ⟨e, he, r, hr, rfl⟩ := h d' chain htheir hchain
    have hindex := index_chainAt P (e.stepKey P d') hr
    have hle := UInt32.not_lt.mp hahead
    have hskip := UInt32.toNat_sub_of_le _ _ hle
    rw [UInt32.le_iff_toNat_le] at hle
    rw [hindex] at hle hskip
    refine ⟨e, he, n.toNat + 1, hn, ?_⟩
    rw [skipKeys_chainAt, nextMessageKey_chainAt, hskip, Nat.add_sub_cancel' hle]

/-- A packet under a new key starts a chain with a step of the session itself. -/
theorem decryptBy (newDhSecret : Key) (hn : p.number.toNat + 1 < 2 ^ 32) (h : Sourced P past s) :
    Sourced P (s :: past) (p.decryptBy P newDhSecret s).2 := by
  unfold Packet.decryptBy
  rw [decrypt_snd P newDhSecret s (by simp)]
  refine getMessageKey _ hn ?_
  unfold ratchetTo
  split
  next =>
    intro d chain htheir hchain
    rw [theirDhPublic_handleDhRatchet] at htheir
    rw [receivingChain_handleDhRatchet, Option.some.inj htheir] at hchain
    exact ⟨s, mem_cons_self, 0, by decide, (Option.some.inj hchain).symm⟩
  next => exact h.mono (subset_cons_self s past)

end Sourced

/-- Sending moves the sending chain and nothing else. -/
theorem encrypt_frame (s : RatchetSession) (nonce plaintext aad : Bytes) :
    (∃ chain, (s.encrypt P nonce plaintext aad).2 = { s with sendingChain := chain }) ∧
      ∀ sent, (s.encrypt P nonce plaintext aad).1 = .ok sent →
        sent.ourDhPublic = s.ourDhPublic := by
  unfold encrypt
  repeat' split
  · exact ⟨⟨_, rfl⟩, nofun⟩
  · exact ⟨⟨_, rfl⟩, nofun⟩
  · exact ⟨⟨_, rfl⟩, nofun⟩
  · simp

namespace Network

variable {net net' : Network} {x y : Side}

/-- `p` is the next packet of `y`'s current chain, or of the chain of the step that `y`
takes when `p` arrives, and its key is not among those `y` saved. -/
def Expected (P : Primitives) (net : Network) (y : Side) (p : Packet) : Prop :=
  ∃ c k, Genuine P c p.dh k p ∧ k + 1 < 2 ^ 32 ∧
    (p.dh, p.number) ∉ (net.session y).skippedKeys ∧
    ((net.session y).theirDhPublic = some p.dh ∧
        (∃ r < 2 ^ 32, (net.session y).receivingChain = some (chainAt P c r)) ∨
      p.dh = (net.session y.other).ourDhPublic ∧ c = (net.session y).stepKey P p.dh)

/-- Inside `y`'s current chain the next packet lies ahead of everything saved. -/
theorem expected_of_inFlight {p : Packet} {c d : Key} {r j : Nat} {gap : List Key}
    {packets : List Packet} (htheir : (net.session y).theirDhPublic = some d)
    (hrecv : (net.session y).receivingChain = some (chainAt P c r))
    (hsaved : SavedBehind net.used (net.session y))
    (hfly : InFlight P net.used c d r gap (p :: packets) j) : net.Expected P y p := by
  obtain rfl : p.dh = d := hfly.stream.1.dh
  have hle := hfly.stream.2.le
  have hbound := hfly.bound
  refine ⟨c, _, hfly.stream.1, by omega, ?_, .inl ⟨htheir, r, by omega, hrecv⟩⟩
  rw [hfly.stream.1.number]
  exact hsaved.not_mem htheir hrecv (Nat.le_add_right _ _) (by omega)

theorem next_expected (hP : P.Correct) {p : Packet} {rest : List Packet} (h : net.AheadAt P x)
    (hin : net.inbox y = p :: rest) : net.Expected P y p := by
  unfold AheadAt at h
  rcases x.eq_or_eq_other y with rfl | rfl
  · rw [hin] at h
    rcases h.replies with ⟨_, _, hnil⟩ | ⟨c, j, r, _, hid, hpub, hrecv, hfly⟩
    · cases hnil
    · refine expected_of_inFlight ?_ hrecv h.savedX hfly
      rw [h.their, hpub, ratchetSecret, hid]
      rfl
  · rw [hin] at h
    obtain ⟨c, i, old, cur, hroot, _, happ, hold, hcur, _⟩ := h.pending
    cases old with
    | nil =>
      rw [nil_append] at happ
      rw [← happ] at hcur
      have hdh : p.dh = (net.session x).ourDhPublic := hcur.stream.1.dh
      rw [← hdh] at hcur
      have hle := hcur.stream.2.le
      have hbound := hcur.bound
      refine ⟨c, _, hcur.stream.1, by omega, fun hmem => h.unsaved _ hmem hdh, .inr ⟨?_, ?_⟩⟩
      · rw [Side.other_other]
        exact hdh
      · -- both ends compute the same agreement
        rw [stepKey, hdh, h.public_eq, hP.agree, hroot]
    | cons q old =>
      rw [cons_append, List.cons.injEq] at happ
      obtain ⟨rfl, rfl⟩ := happ
      rcases hold with ⟨_, hnil⟩ | ⟨c', d, r, e, htheir, hrecv, hfly⟩
      · cases hnil
      · exact expected_of_inFlight htheir hrecv h.savedY hfly

variable (P) in
/-- The states a run goes through, the first and the last one included. -/
def states : Network → List Action → List Network
  | net, [] => [net]
  | net, a :: actions =>
    net :: match net.step P a with
      | some net' => states net' actions
      | none => []

theorem mem_states (actions : List Action) :
    ∀ {net : Network}, run P net actions = some net' → net' ∈ states P net actions := by
  induction actions with
  | nil =>
    intro net h
    cases h
    exact mem_singleton_self _
  | cons a actions ih =>
    intro net h
    unfold run at h
    unfold states
    cases hmid : net.step P a with
    | none =>
      rw [hmid] at h
      cases h
    | some mid =>
      rw [hmid] at h
      exact mem_cons_of_mem _ (ih h)

/-- One action: the chain of `y` goes on, or a step of `y` starts a new one. -/
theorem sourced_step (hP : P.Correct) {a : Action} (hahead : net.AheadAt P x)
    (h : Sourced P past (net.session y)) (hstep : net.step P a = some net') :
    Sourced P (net.session y :: past) (net'.session y) := by
  have hsame := h.mono (subset_cons_self (net.session y) past)
  have hsent (z : Side) (nonce plaintext aad : Bytes) :
      Sourced P (net.session y :: past) (update net.session z
        ((net.session z).encrypt P nonce plaintext aad).2 y) := by
    obtain ⟨⟨chain, hframe⟩, _⟩ := encrypt_frame (P := P) (net.session z) nonce plaintext aad
    rw [hframe]
    by_cases hz : y = z
    · subst hz
      rw [update_self]
      exact hsame
    · rw [update_of_ne hz]
      exact hsame
  cases stepped_of_step hstep with
  | @failed z nonce plaintext aad _ _ henc =>
    have hkept := hsent z nonce plaintext aad
    rw [henc] at hkept
    exact hkept
  | @sent z nonce plaintext aad _ _ _ _ henc =>
    have hkept := hsent z nonce plaintext aad
    rw [henc] at hkept
    exact hkept
  | @delivered z p rest newDhSecret hin _ =>
    dsimp only
    by_cases hz : y = z
    · subst hz
      obtain ⟨_, k, hgen, hk, _⟩ := next_expected hP hahead hin
      rw [update_self]
      refine h.decryptBy newDhSecret ?_
      rw [hgen.number, UInt32.toNat_ofNat', Nat.mod_eq_of_lt (by omega)]
      exact hk
    · rw [update_of_ne hz]
      exact hsame
  | lost => exact hsame

theorem sourced_run (hP : P.Correct) (actions : List Action) :
    ∀ {net : Network} {past : List RatchetSession}, (∃ x, net.AheadAt P x) →
      Sourced P past (net.session y) → run P net actions = some net' →
      Sourced P ((states P net actions).map (fun e => e.session y) ++ past) (net'.session y) := by
  induction actions with
  | nil =>
    intro net past _ h hrun
    cases hrun
    exact h.mono (subset_append_right _ past)
  | cons a actions ih =>
    rintro net past ⟨x, hx⟩ h hrun
    unfold run at hrun
    unfold states
    cases hmid : net.step P a with
    | none =>
      rw [hmid] at hrun
      cases hrun
    | some mid =>
      rw [hmid] at hrun
      have hrest := ih (step_ahead hP hx hmid) (sourced_step hP hx h hmid) hrun
      exact hrest.mono perm_middle.subset

/-- The chain of the next packet began with a step of the receiver, in this run. -/
theorem Expected.sourced (hP : P.Binding) {p : Packet} (hp : net.Expected P y p)
    (h : Sourced P past (net.session y)) (hnow : net.session y ∈ past) :
    ∃ e ∈ past, ∃ k, Genuine P (e.stepKey P p.dh) p.dh k p ∧ k < 2 ^ 32 := by
  obtain ⟨c, k, hgen, hk, _, ⟨htheir, r, hr, hrecv⟩ | ⟨_, rfl⟩⟩ := hp
  · obtain ⟨e, he, r', hr', hchain⟩ := h p.dh _ htheir hrecv
    cases chainAt_inj hP hr hr' hchain
    exact ⟨e, he, k, hgen, by omega⟩
  · exact ⟨_, hnow, k, hgen, by omega⟩

/-- After a packet under a key that is neither the receiver's current one nor the
sender's, the next in-order packet does not decrypt. -/
theorem next_fails_after_other (hP : P.Binding) {late next : Packet} {firstSecret : Key}
    (hnext : net.Expected P y next) (h : Sourced P past (net.session y))
    (hnow : net.session y ∈ past) (hpassed : (net.session y).theirDhPublic ≠ some late.dh)
    (hearlier : late.dh ≠ (net.session y.other).ourDhPublic)
    (hapart : ∀ e ∈ past,
      StepsApart P (late.decryptBy P firstSecret (net.session y)).2 e next.dh)
    (secondSecret : Key) (m : Bytes) :
    (next.decryptBy P secondSecret (late.decryptBy P firstSecret (net.session y)).2).1 ≠ .ok m := by
  intro hok
  obtain ⟨e, he, k, hgen, hk⟩ := hnext.sourced hP h hnow
  obtain ⟨_, _, _, _, hnew, hdh⟩ := hnext
  obtain ⟨htheir, hsaved⟩ := decryptBy_other (P := P) firstSecret hpassed
  have hother : late.dh ≠ next.dh := by
    rcases hdh with ⟨hcurrent, _⟩ | ⟨hours, _⟩
    · exact fun heq => hpassed (heq ▸ hcurrent)
    · exact hours ▸ hearlier
  have hapart := hapart e he
  generalize (late.decryptBy P firstSecret (net.session y)).2 = s at htheir hsaved hok hapart
  have hunseen : s.theirDhPublic ≠ some next.dh := by
    rw [htheir]
    exact fun heq => hother (Option.some.inj heq)
  have hchain := chain_of_decryptBy_ok hP hgen hk hunseen
    (fun hmem => (hsaved _ hmem).elim hnew fun heq => hother heq.symm) hok
  exact hapart.agreements (hapart.chains hchain).2

end Network

end

/-! ## A small run -/

/-- The small primitives with a key derivation that mixes in the root key: two keys are
added byte by byte, one key stays as it is. -/
def mixingPrimitives : Primitives :=
  { demoPrimitives with
    deriveKey := fun _ material =>
      if material.length = 64 then .ofFn fun i => byteAt material i + byteAt material (32 + i)
      else arrayAt 32 material 0 }

theorem mixing_deriveKeyWithInfo (key : Key) (info : String) :
    mixingPrimitives.deriveKeyWithInfo key info = key := by
  show (if key.toList.length = 64 then _ else arrayAt 32 key.toList 0) = key
  rw [if_neg (by simp), arrayAt_toList]

theorem mixingPrimitives_binding : mixingPrimitives.Binding where
  agree s t := by
    show demoPrimitives.diffieHellman s (demoPrimitives.publicKey t)
      = demoPrimitives.diffieHellman t (demoPrimitives.publicKey s)
    exact demoPrimitives_correct.agree s t
  opens key nonce aad plaintext := by
    show ∃ ciphertext, demoPrimitives.aeadEncrypt key nonce aad plaintext = some ciphertext ∧
      demoPrimitives.aeadDecrypt key nonce aad ciphertext = some plaintext
    exact demoPrimitives_correct.opens key nonce aad plaintext
  committing key key' nonce aad ciphertext m m' := by
    -- a ciphertext starts with the key that it was sealed with
    have htake {k : Key} {m : Bytes}
        (hk : mixingPrimitives.aeadDecrypt k nonce aad ciphertext = some m) :
        ciphertext.take 32 = k.toList := by
      apply Classical.byContradiction
      intro hne
      have hnone : mixingPrimitives.aeadDecrypt k nonce aad ciphertext = none := if_neg hne
      rw [hnone] at hk
      cases hk
    exact fun h h' => Vector.toList_inj.mp ((htake h).symm.trans (htake h'))
  info_inj key key' info h := by
    simp only [mixing_deriveKeyWithInfo] at h
    exact h

namespace Network

/-- Bob gets the first packet of Alice's second chain, and a second one follows. -/
def demoLateActions : List Action :=
  demoActions ++ [.deliver .bob (keyOfByte 12), .send .alice demoNonce [5] []]

def mixingStart : Network :=
  start mixingPrimitives (keyOfByte 1) (keyOfByte 2) (keyOfByte 3) (keyOfByte 4)

/-- In that state: what the lost first packet decrypts to when it arrives late,
what the next packet then decrypts to, and what it would have decrypted to. -/
def demoLate : Option (Outcome Bytes × Outcome Bytes × Outcome Bytes) :=
  match run mixingPrimitives mixingStart demoLateActions with
  | none => none
  | some net =>
    match net.lost .bob, net.inbox .bob with
    | [late], [next] =>
      let (lateOutcome, broken) := late.decryptBy mixingPrimitives (keyOfByte 13) (net.session .bob)
      some (lateOutcome, (next.decryptBy mixingPrimitives (keyOfByte 14) broken).1,
        (next.decryptBy mixingPrimitives (keyOfByte 14) (net.session .bob)).1)
    | _, _ => none

/-- Whether the step back to the next packet's key is apart from each of Bob's steps. -/
def demoApart (net : Network) : Bool :=
  (net.lost .bob).all fun late => (net.inbox .bob).all fun next =>
    let broken := (late.decryptBy mixingPrimitives (keyOfByte 13) (net.session .bob)).2
    (states mixingPrimitives mixingStart demoLateActions).all fun earlier =>
      mixingPrimitives.diffieHellman broken.ratchetSecret next.dh
          ≠ mixingPrimitives.diffieHellman (earlier.session .bob).ratchetSecret next.dh ∧
        broken.stepKey mixingPrimitives next.dh
          ≠ (earlier.session .bob).stepKey mixingPrimitives next.dh

end Network

end Scm.Crypto
