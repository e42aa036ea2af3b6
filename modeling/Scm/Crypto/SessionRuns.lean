import Scm.Crypto.Conversation
import Scm.Runs

/-!
# Runs of one session

One ratchet session and any sequence of the three calls that change it: `encrypt`,
`decrypt` with whatever arrives, and `force_ratchet`. What is at stake is the pair in the
header, our DH key and the message number: it names the message key, and a pair that is
used twice is a key that is used twice.

Seen from the sending side a call does one of three things (`Effect`): nothing, one step of
the sending chain, or a new DH key. The new key may come with a new chain or, on a receiver
that has heard nothing yet, without one; either way no pair with it has been used. So the
numbers under one key only go up (`Accounted`), and `pairs_distinct` follows for every run.
-/

namespace Scm.Crypto

open List hiding Vector
open Bytes Collections RatchetSession

/-! ## Calls -/

/-- `RatchetSession::force_ratchet`; `newDhSecret` is the random secret. Without a key of
the peer's only our own key changes. -/
def RatchetSession.forceRatchet (P : Primitives) (newDhSecret : Key) (s : RatchetSession) :
    RatchetSession :=
  let s := { s with
    ourDhSecret := newDhSecret
    ourDhPublic := P.publicKey newDhSecret
    dhStepCount := s.dhStepCount + 1 }
  match s.theirDhPublic with
  | none => s
  | some theirDh =>
    -- one root step, not the two of `handle_dh_ratchet`; the receiving chain stays
    let (newRootKey, sendingChainKey) :=
      P.rootKeyRatchet s.rootKey (P.diffieHellman newDhSecret theirDh)
    { s with rootKey := newRootKey, sendingChain := some (Chain.new sendingChainKey) }

/-- A call and the random bytes it would draw. -/
inductive SessionCall where
  | encrypt (nonce : Vector UInt8 24) (plaintext aad : Bytes)
  | decrypt (newDhSecret : Key) (theirDhPublic : Bytes) (messageNumber : UInt32)
      (nonce ciphertext aad : Bytes)
  | forceRatchet (newDhSecret : Key)

inductive SessionReply where
  | sent (result : Except String RatchetEncryptResult)
  | received (outcome : Outcome Bytes)
  | forced (ourDhPublic : Key)

namespace RatchetSession

variable (P : Primitives)

def answer (s : RatchetSession) : SessionCall → SessionReply × RatchetSession
  | .encrypt nonce plaintext aad =>
    let (result, s) := s.encrypt P nonce.toList plaintext aad
    (.sent result, s)
  | .decrypt newDhSecret theirDhPublic messageNumber nonce ciphertext aad =>
    let (outcome, s) := s.decrypt P newDhSecret theirDhPublic messageNumber nonce ciphertext aad
    (.received outcome, s)
  | .forceRatchet newDhSecret =>
    let s := s.forceRatchet P newDhSecret
    (.forced s.ourDhPublic, s)

/-- The DH key that a call generates. -/
def generated (s : RatchetSession) : SessionCall → Option Key
  | .encrypt _ _ _ => none
  | .decrypt newDhSecret theirDhPublic _ _ _ _ =>
    if theirDhPublic.length = 32 ∧ s.dhChanged (arrayAt 32 theirDhPublic 0) then
      some (P.publicKey newDhSecret)
    else none
  | .forceRatchet newDhSecret => some (P.publicKey newDhSecret)

/-- The header of a message that was sent, and the message key that sealed it. -/
structure KeyUse where
  ourDhPublic : Key
  messageNumber : UInt32
  messageKey : Key

def KeyUse.pair (u : KeyUse) : Key × UInt32 := (u.ourDhPublic, u.messageNumber)

/-- The key a successful `encrypt` uses. -/
def keyUse (s : RatchetSession) : SessionCall → Option KeyUse
  | .encrypt nonce plaintext aad =>
    match (s.encrypt P nonce.toList plaintext aad).1, s.sendingChain with
    | .ok sent, some chain =>
      some ⟨sent.ourDhPublic, sent.messageNumber, (chain.nextMessageKey P).1⟩
    | _, _ => none
  | _ => none

/-- The keys generated in a run. -/
def generatedKeys : RatchetSession → List SessionCall → List Key
  | _, [] => []
  | s, call :: calls => (s.generated P call).toList ++ generatedKeys (s.answer P call).2 calls

/-- The message keys used in a run. -/
def keyUses : RatchetSession → List SessionCall → List KeyUse
  | _, [] => []
  | s, call :: calls => (s.keyUse P call).toList ++ keyUses (s.answer P call).2 calls

/-- Before an `encrypt`, fewer than `2^32 - 1` messages have been sent on the chain. -/
def Room (s : RatchetSession) : SessionCall → Prop
  | .encrypt _ _ _ => ∀ chain, s.sendingChain = some chain → chain.index.toNat + 1 < 2 ^ 32
  | _ => True

/-- Message key number `n` of a chain that stands at or before `n`. -/
def keyOf (chain : Chain) (n : UInt32) : Key :=
  messageKeyAt P chain.chainKey (n.toNat - chain.index.toNat)

/-! ## What a call does to the sending side -/

/-- What a call does to our key and to the sending chain, what it generates and uses. -/
inductive Effect (s s' : RatchetSession) : Option Key → Option KeyUse → Prop
  | none : s'.ourDhPublic = s.ourDhPublic → s'.sendingChain = s.sendingChain → Effect s s' none none
  | moved {chain : Chain} {use : Option KeyUse} : s'.ourDhPublic = s.ourDhPublic →
      s.sendingChain = some chain → chain.index.toNat + 1 < 2 ^ 32 →
      s'.sendingChain = some (chain.nextMessageKey P).2 →
      (∀ u, use = some u → u = ⟨s.ourDhPublic, chain.index, (chain.nextMessageKey P).1⟩) →
      Effect s s' none use
  | fresh : Effect s s' (some s'.ourDhPublic) none

variable {P}

variable (s : RatchetSession)

theorem sendingSide_getMessageKey (theirDh : Key) (n : UInt32) :
    (s.getMessageKey P theirDh n).2.ourDhPublic = s.ourDhPublic ∧
      (s.getMessageKey P theirDh n).2.sendingChain = s.sendingChain := by
  have hlookup := lookup_getMessageKey P s theirDh n
  generalize s.getMessageKey P theirDh n = out at hlookup ⊢
  cases hlookup <;> exact ⟨rfl, rfl⟩

theorem effect_encrypt (nonce : Vector UInt8 24) (plaintext aad : Bytes)
    (hroom : s.Room (.encrypt nonce plaintext aad)) :
    Effect P s (s.encrypt P nonce.toList plaintext aad).2 none
      (s.keyUse P (.encrypt nonce plaintext aad)) := by
  unfold keyUse encrypt
  cases hchain : s.sendingChain with
  | none => exact .none rfl rfl
  | some chain =>
    have hnumber : (chain.nextMessageKey P).2.index - 1 = chain.index := UInt32.add_sub_cancel _ _
    dsimp only
    split_ifs
    · exact .none rfl rfl
    · cases P.aeadEncrypt (chain.nextMessageKey P).1 nonce.toList aad plaintext with
      | none =>
        -- the cipher failed after the chain had moved on: a number is left out
        exact .moved rfl hchain (hroom chain hchain) rfl nofun
      | some ciphertext =>
        refine .moved rfl hchain (hroom chain hchain) rfl fun u hu => ?_
        cases hu
        rw [hnumber]

theorem effect_decrypt (newDhSecret : Key) (theirDhPublic : Bytes) (messageNumber : UInt32)
    (nonce ciphertext aad : Bytes) :
    Effect P s (s.decrypt P newDhSecret theirDhPublic messageNumber nonce ciphertext aad).2
      (s.generated P (.decrypt newDhSecret theirDhPublic messageNumber nonce ciphertext aad))
        none := by
  by_cases hlen : theirDhPublic.length = 32
  · have hside := sendingSide_getMessageKey (P := P)
      (s.ratchetTo P newDhSecret (arrayAt 32 theirDhPublic 0)) (arrayAt 32 theirDhPublic 0)
      messageNumber
    rw [decrypt_snd P newDhSecret s hlen, generated]
    generalize arrayAt 32 theirDhPublic 0 = theirDh at hside ⊢
    by_cases hchanged : s.dhChanged theirDh
    · rw [if_pos ⟨hlen, hchanged⟩]
      rw [ratchetTo, if_pos hchanged] at hside ⊢
      have hours : P.publicKey newDhSecret
          = ((s.handleDhRatchet P newDhSecret theirDh).getMessageKey P theirDh
              messageNumber).2.ourDhPublic := hside.1.symm
      rw [hours]
      exact .fresh
    · rw [if_neg fun h => hchanged h.2]
      rw [ratchetTo, if_neg hchanged] at hside ⊢
      exact .none hside.1 hside.2
  · rw [decrypt, if_pos hlen, generated, if_neg fun h => hlen h.1]
    exact .none rfl rfl

theorem ourDhPublic_forceRatchet (newDhSecret : Key) :
    (s.forceRatchet P newDhSecret).ourDhPublic = P.publicKey newDhSecret := by
  unfold forceRatchet
  dsimp only
  split <;> rfl

theorem effect_answer (call : SessionCall) (hroom : s.Room call) :
    Effect P s (s.answer P call).2 (s.generated P call) (s.keyUse P call) := by
  cases call with
  | encrypt nonce plaintext aad => exact effect_encrypt s nonce plaintext aad hroom
  | decrypt newDhSecret theirDhPublic messageNumber nonce ciphertext aad =>
    exact effect_decrypt s newDhSecret theirDhPublic messageNumber nonce ciphertext aad
  | forceRatchet newDhSecret =>
    have heffect : Effect P s (s.forceRatchet P newDhSecret)
        (some (s.forceRatchet P newDhSecret).ourDhPublic) none := .fresh
    rw [ourDhPublic_forceRatchet] at heffect
    exact heffect

/-! ## The account of a run -/

variable (P) in
/-- What holds of the message keys used from `s` on, when `keys` are the keys generated:
they are under our key or a later one, those under our key lie ahead of the chain, no pair
comes twice, and each key is the one its number has in the chain that belongs to its DH
key. -/
structure Accounted (s : RatchetSession) (keys : List Key) (uses : List KeyUse) : Prop where
  known : ∀ u ∈ uses, u.ourDhPublic ∈ s.ourDhPublic :: keys
  ahead : ∀ u ∈ uses, u.ourDhPublic = s.ourDhPublic →
    ∃ chain, s.sendingChain = some chain ∧ chain.index.toNat ≤ u.messageNumber.toNat
  distinct : (uses.map KeyUse.pair).Nodup
  chains : ∃ chainOf : Key → Chain,
    (∀ chain, s.sendingChain = some chain → chainOf s.ourDhPublic = chain) ∧
    ∀ u ∈ uses, u.messageKey = keyOf P (chainOf u.ourDhPublic) u.messageNumber

namespace Accounted

variable {s s' : RatchetSession} {keys : List Key} {uses : List KeyUse}

theorem congr (h : Accounted P s' keys uses) (hours : s'.ourDhPublic = s.ourDhPublic)
    (hchain : s'.sendingChain = s.sendingChain) : Accounted P s keys uses := by
  refine ⟨?_, ?_, h.distinct, ?_⟩
  · rw [← hours]
    exact h.known
  · rw [← hours, ← hchain]
    exact h.ahead
  · rw [← hours, ← hchain]
    exact h.chains

theorem fresh (h : Accounted P s' keys uses) (hnew : s.ourDhPublic ∉ s'.ourDhPublic :: keys) :
    Accounted P s (s'.ourDhPublic :: keys) uses := by
  have hother : ∀ u ∈ uses, u.ourDhPublic ≠ s.ourDhPublic :=
    fun u hu heq => hnew (heq ▸ h.known u hu)
  refine ⟨fun u hu => mem_cons_of_mem _ (h.known u hu),
    fun u hu heq => absurd heq (hother u hu), h.distinct, ?_⟩
  obtain ⟨chainOf, _, hkeys⟩ := h.chains
  cases hchain : s.sendingChain with
  | none => exact ⟨chainOf, nofun, hkeys⟩
  | some chain =>
    -- the old key belongs to the old chain, the rest stays
    refine ⟨Function.update chainOf s.ourDhPublic chain, fun other hsame => ?_, fun u hu => ?_⟩
    · grind
    · simp_all

/-- A key further along a chain is the same key from one step further on. -/
theorem keyOf_next {chain : Chain} {n : UInt32} (hroom : chain.index.toNat + 1 < 2 ^ 32)
    (hn : chain.index.toNat + 1 ≤ n.toNat) :
    keyOf P (chain.nextMessageKey P).2 n = keyOf P chain n := by
  have hadvance : ∀ k, advance P (P.deriveKeyWithInfo chain.chainKey "chain-key") k
      = advance P chain.chainKey (k + 1) := by
    intro k
    induction k with
    | zero => rfl
    | succ k ih => exact congrArg (P.deriveKeyWithInfo · "chain-key") ih
  unfold keyOf messageKeyAt
  rw [toNat_index_next P _ hroom]
  show P.deriveKeyWithInfo (advance P (P.deriveKeyWithInfo chain.chainKey "chain-key") _) _ = _
  rw [hadvance, show n.toNat - (chain.index.toNat + 1) + 1 = n.toNat - chain.index.toNat by omega]

theorem moved (h : Accounted P s' keys uses) (hours : s'.ourDhPublic = s.ourDhPublic)
    {chain : Chain} (hchain : s.sendingChain = some chain)
    (hnext : s'.sendingChain = some (chain.nextMessageKey P).2)
    (hroom : chain.index.toNat + 1 < 2 ^ 32) {use : Option KeyUse}
    (huse : ∀ u, use = some u → u = ⟨s.ourDhPublic, chain.index, (chain.nextMessageKey P).1⟩) :
    Accounted P s keys (use.toList ++ uses) := by
  have hlater : ∀ u ∈ uses, u.ourDhPublic = s.ourDhPublic →
      chain.index.toNat + 1 ≤ u.messageNumber.toNat := by
    intro u hu heq
    obtain ⟨other, hother, hle⟩ := h.ahead u hu (heq.trans hours.symm)
    cases hnext.symm.trans hother
    rw [← toNat_index_next P _ hroom]
    exact hle
  -- the rest of the run, seen from the chain one step earlier
  have hrest : Accounted P s keys uses := by
    refine ⟨hours ▸ h.known, fun u hu heq => ⟨chain, hchain, ?_⟩, h.distinct, ?_⟩
    · have := hlater u hu heq
      omega
    · obtain ⟨chainOf, hours', hkeys⟩ := h.chains
      refine ⟨Function.update chainOf s.ourDhPublic chain, fun other hother => ?_, fun u hu => ?_⟩
      · grind
      · by_cases heq : u.ourDhPublic = s.ourDhPublic
        · simp_all [keyOf_next]
        · simp_all
  cases use with
  | none => exact hrest
  | some first =>
    cases huse first rfl
    obtain ⟨chainOf, hours', hkeys⟩ := hrest.chains
    refine ⟨forall_mem_cons.mpr ⟨mem_cons_self, hrest.known⟩,
      forall_mem_cons.mpr ⟨fun _ => ⟨chain, hchain, Nat.le_refl _⟩, hrest.ahead⟩, ?_,
      chainOf, hours', forall_mem_cons.mpr ⟨?_, hkeys⟩⟩
    · refine nodup_cons.mpr ⟨fun hmem => ?_, hrest.distinct⟩
      obtain ⟨u, hu, hpair⟩ := mem_map.mp hmem
      have hle := hlater u hu (congrArg Prod.fst hpair)
      rw [show u.messageNumber = chain.index from congrArg Prod.snd hpair] at hle
      omega
    · rw [hours' chain hchain, keyOf, Nat.sub_self]
      rfl

end Accounted

theorem accounted_run (calls : List SessionCall) :
    ∀ s : RatchetSession, (s.ourDhPublic :: s.generatedKeys P calls).Nodup →
      Runs.Along (fun s call => (s.answer P call).2) Room s calls →
      Accounted P s (s.generatedKeys P calls) (s.keyUses P calls) := by
  induction calls with
  | nil =>
    intro s _ _
    -- before any call, the chain that belongs to our key is the one we have
    refine ⟨nofun, nofun, nodup_nil, fun _ => s.sendingChain.getD ⟨s.rootKey, 0⟩,
      fun chain hchain => ?_, nofun⟩
    rw [hchain]
    rfl
  | cons call calls ih =>
    intro s hkeys hroom
    have heffect := effect_answer (P := P) s call hroom.1
    have hrest := ih (s.answer P call).2
    unfold generatedKeys at hkeys ⊢
    unfold keyUses
    generalize s.generated P call = key at heffect hkeys ⊢
    generalize s.keyUse P call = use at heffect ⊢
    cases heffect with
    | none hours hchain =>
      rw [← hours] at hkeys
      exact (hrest hkeys hroom.2).congr hours hchain
    | moved hours hchain hindex hnext huses =>
      rw [← hours] at hkeys
      exact (hrest hkeys hroom.2).moved hours hchain hnext hindex huses
    | fresh =>
      obtain ⟨hnew, hrestKeys⟩ := nodup_cons.mp hkeys
      exact (hrest hrestKeys hroom.2).fresh hnew

/-- **No header pair is used twice.** In any sequence of `encrypt`, `decrypt` (of anything)
and `force_ratchet` calls on any session, with generated DH keys that are pairwise distinct
and fewer than `2^32` messages on a chain: no two successful encrypts carry the same DH key
and message number. Every DH key has one chain, and the number in the header is the
position of the message key in it: no message key is used twice. -/
theorem pairs_distinct (P : Primitives) (s : RatchetSession) (calls : List SessionCall)
    (hkeys : (s.ourDhPublic :: s.generatedKeys P calls).Nodup)
    (hroom : Runs.Along (fun s call => (s.answer P call).2) Room s calls) :
    ((s.keyUses P calls).map KeyUse.pair).Nodup ∧
      ∃ chainOf : Key → Chain, ∀ u ∈ s.keyUses P calls,
        u.messageKey = keyOf P (chainOf u.ourDhPublic) u.messageNumber := by
  have haccount := accounted_run calls s hkeys hroom
  obtain ⟨chainOf, _, hchains⟩ := haccount.chains
  exact ⟨haccount.distinct, chainOf, hchains⟩

/-- The receiver is forced before it has heard anything, hears the first message, answers,
hears a forgery under an invented key, answers again, is forced and answers. -/
def demoCalls : List SessionCall :=
  [.forceRatchet (keyOfByte 20),
    .decrypt (keyOfByte 21) (keyOfByte 3).toList 0 demoNonce [] [],
    .encrypt (.replicate 24 0) [1] [], .encrypt (.replicate 24 0) [2] [],
    .decrypt (keyOfByte 22) (keyOfByte 99).toList 0 demoNonce [] [],
    .encrypt (.replicate 24 0) [3] [], .forceRatchet (keyOfByte 23),
    .encrypt (.replicate 24 0) [4] []]

theorem pairs_distinct_demo :
    ((demoFresh.keyUses demoPrimitives demoCalls).map KeyUse.pair)
        = [(keyOfByte 21, 0), (keyOfByte 21, 1), (keyOfByte 22, 0), (keyOfByte 23, 0)] ∧
      ((demoFresh.keyUses demoPrimitives demoCalls).map KeyUse.pair).Nodup := by
  have hkeys :
      (demoFresh.ourDhPublic :: demoFresh.generatedKeys demoPrimitives demoCalls).Nodup := by
    decide +kernel
  have hroom : Runs.Along (fun s call => (s.answer demoPrimitives call).2) Room demoFresh
      demoCalls := by
    refine ⟨trivial, trivial, ?_, ?_, trivial, ?_, trivial, ?_, trivial⟩
    all_goals
      intro chain hchain
      cases hchain
      decide +kernel
  exact ⟨by decide +kernel, (pairs_distinct demoPrimitives demoFresh demoCalls hkeys hroom).1⟩

end RatchetSession

end Scm.Crypto
