import Scm.Crypto.Ratchet

/-!
# Two ratchet sessions and the network between them

Two sessions, one from `init_as_sender` and one from `init_as_receiver`, and a
first-in first-out channel in each direction that may delay and lose packets.
`Network.step` takes one action — a send, a delivery, a loss — and `Network.run`
a list of them, so an interleaving is a list of actions.

At every moment one side is *ahead*: it took the last DH ratchet step, and the
other side has not seen the key it ratcheted to. `Ahead` says what that means
for the two root keys, for the chain each side receives on, and for every packet
in flight. A packet of the new key makes the side that was behind take the next
step, and the roles swap (`Ahead.deliverNew`); every other action keeps them.
`Network.run_ahead` carries the invariant along any run.
-/

namespace Scm.Crypto

open List Bytes Collections RatchetSession Function

/-! ## A chain as a function of its first key -/

section
variable (P : Primitives)

/-- The chain key after `k` steps from `c`. -/
def advance (c : Key) : Nat → Key
  | 0 => c
  | k + 1 => P.deriveKeyWithInfo (advance c k) "chain-key"

/-- The chain that started at `c`, after `k` message keys. -/
def chainAt (c : Key) (k : Nat) : Chain := ⟨advance P c k, UInt32.ofNat k⟩

/-- Message key number `k` of the chain that started at `c`. -/
def messageKeyAt (c : Key) (k : Nat) : Key := P.deriveKeyWithInfo (advance P c k) "message-key"

theorem index_chainAt (c : Key) {k : Nat} (hk : k < 2 ^ 32) : (chainAt P c k).index.toNat = k := by
  show (UInt32.ofNat k).toNat = k
  rw [UInt32.toNat_ofNat', Nat.mod_eq_of_lt hk]

theorem index_pred_chainAt (c : Key) (k : Nat) :
    (chainAt P c (k + 1)).index - 1 = UInt32.ofNat k := by
  rw [chainAt, UInt32.ofNat_add]
  exact UInt32.add_sub_cancel _ _

theorem nextMessageKey_chainAt (c : Key) (k : Nat) :
    (chainAt P c k).nextMessageKey P = (messageKeyAt P c k, chainAt P c (k + 1)) := by
  unfold Chain.nextMessageKey chainAt
  rw [UInt32.ofNat_add]
  rfl

section
variable (s : RatchetSession) (newDhSecret d : Key)

theorem theirDhPublic_handleDhRatchet :
    (s.handleDhRatchet P newDhSecret d).theirDhPublic = some d := rfl

theorem receivingChain_handleDhRatchet :
    (s.handleDhRatchet P newDhSecret d).receivingChain = some (chainAt P
      (P.rootKeyRatchet s.rootKey (P.diffieHellman s.ratchetSecret d)).2 0) := rfl

/-- Both chains after a ratchet step whose first half is known: the second half
goes on from the root key of the first. -/
theorem chains_handleDhRatchet {s : RatchetSession} {d root c : Key} (newDhSecret : Key)
    (h : P.rootKeyRatchet s.rootKey (P.diffieHellman s.ratchetSecret d) = (root, c)) :
    (s.handleDhRatchet P newDhSecret d).receivingChain = some (chainAt P c 0) ∧
      ∃ c', P.rootKeyRatchet root (P.diffieHellman newDhSecret d)
          = ((s.handleDhRatchet P newDhSecret d).rootKey, c') ∧
        (s.handleDhRatchet P newDhSecret d).sendingChain = some (chainAt P c' 0) := by
  unfold handleDhRatchet
  rw [h]
  exact ⟨rfl, _, rfl, rfl⟩

theorem skipKeys_chainAt (c : Key) (k : Nat) :
    ∀ (r : Nat) (skipped : SkippedKeys),
      (skipKeys P d k (chainAt P c r) skipped).1 = chainAt P c (r + k) := by
  induction k with
  | zero => intro r skipped; rfl
  | succ k ih =>
    intro r skipped
    rw [skipKeys, nextMessageKey_chainAt]
    rw [ih, Nat.add_assoc, Nat.add_comm 1 k]

theorem mem_of_mem_evictOldest {skipped : SkippedKeys} {key : Key × UInt32}
    (h : key ∈ evictOldest skipped) : key ∈ skipped := by
  unfold evictOldest at h
  split at h
  · grind [AList.mem_erase]
  · exact h

/-- Which keys skipping saves: those of the numbers from the chain's position on. -/
theorem mem_skipKeys_cases (k : Nat) :
    ∀ (chain : Chain) (skipped : SkippedKeys), ∀ key ∈ (skipKeys P d k chain skipped).2,
      key ∈ skipped ∨ ∃ j < k, key = (d, chain.index + UInt32.ofNat j) := by
  induction k with
  | zero => exact fun _ _ _ h => .inl h
  | succ k ih =>
    intro chain skipped key h
    rcases ih _ _ key h with hsaved | ⟨j, hj, rfl⟩
    · rcases (AList.mem_insert _).mp (mem_of_mem_evictOldest hsaved) with rfl | hold
      · refine .inr ⟨0, Nat.succ_pos k, ?_⟩
        show (d, chain.index + 1 - 1) = (d, chain.index + 0)
        rw [UInt32.add_sub_cancel, UInt32.add_zero]
      · exact .inl hold
    · exact .inr ⟨j + 1, Nat.succ_lt_succ hj, Prod.ext rfl (index_next_add P chain j)⟩

/-- Skipping saves keys of this chain only, below the number skipped to. -/
theorem mem_skipKeys (c : Key) (k r : Nat) (skipped : SkippedKeys) (hbound : r + k < 2 ^ 32) :
    ∀ key ∈ (skipKeys P d k (chainAt P c r) skipped).2,
      key ∈ skipped ∨ key.1 = d ∧ key.2.toNat < r + k := by
  intro key h
  rcases mem_skipKeys_cases P d k _ _ key h with hold | ⟨j, hj, rfl⟩
  · exact .inl hold
  · refine .inr ⟨rfl, ?_⟩
    show (UInt32.ofNat r + UInt32.ofNat j).toNat < r + k
    rw [← UInt32.ofNat_add, UInt32.toNat_ofNat', Nat.mod_eq_of_lt (by omega)]
    omega

end

/-- The session reads message `k` of the chain it receives on, and stands after
it. -/
theorem getMessageKey_chainAt {s : RatchetSession} {d c : Key} {r k : Nat}
    (hrecv : s.receivingChain = some (chainAt P c r)) (hr : r ≤ k) (hk : k < 2 ^ 32)
    (hskip : k - r ≤ maxSkipKeys) (hnew : (d, UInt32.ofNat k) ∉ s.skippedKeys) :
    s.getMessageKey P d (UInt32.ofNat k) = (.ok (messageKeyAt P c k),
      { s with receivingChain := some (chainAt P c (k + 1)),
               skippedKeys := (skipKeys P d (k - r) (chainAt P c r) s.skippedKeys).2 }) := by
  have hle : UInt32.ofNat r ≤ UInt32.ofNat k := by
    rw [UInt32.le_iff_toNat_le, UInt32.toNat_ofNat', UInt32.toNat_ofNat']
    omega
  have hsub : (UInt32.ofNat k - UInt32.ofNat r).toNat = k - r := by
    grind [UInt32.toNat_sub_of_le, UInt32.toNat_ofNat']
  unfold getMessageKey
  rw [AList.lookup_eq_none.mpr hnew, hrecv]
  simp only [show (chainAt P c r).index = UInt32.ofNat r from rfl, hsub]
  rw [if_neg (UInt32.not_lt.mpr hle), if_neg (by omega), skipKeys_chainAt,
    show r + (k - r) = k by omega, nextMessageKey_chainAt]

end

/-! ## The network -/

inductive Side where
  | alice
  | bob
  deriving DecidableEq, Repr

def Side.other : Side → Side
  | .alice => .bob
  | .bob => .alice

@[simp] theorem Side.other_other (x : Side) : x.other.other = x := by cases x <;> rfl

theorem Side.other_ne (x : Side) : x.other ≠ x := by cases x <;> decide

theorem Side.eq_or_eq_other (x y : Side) : y = x ∨ y = x.other := by
  cases x <;> cases y <;> decide

/-- An encrypted message on its way; `plaintext` is what the sender put in. -/
structure Packet where
  dh : Key
  number : UInt32
  nonce : Bytes
  ciphertext : Bytes
  aad : Bytes
  plaintext : Bytes
  deriving DecidableEq, Repr

/-- The two sessions, the packets in flight to each side (oldest first), the keys
of the packets a side lost since its last delivery, all packets it ever lost,
and the public keys drawn so far. -/
structure Network where
  session : Side → RatchetSession
  inbox : Side → List Packet
  gap : Side → List Key
  lost : Side → List Packet
  used : List Key

inductive Action where
  | send (sender : Side) (nonce plaintext aad : Bytes)
  | deliver (receiver : Side) (newDhSecret : Key)
  | lose (receiver : Side)
  deriving DecidableEq, Repr

/-- Hand a packet to a session. -/
def Packet.decryptBy (P : Primitives) (newDhSecret : Key) (s : RatchetSession) (p : Packet) :
    Outcome Bytes × RatchetSession :=
  s.decrypt P newDhSecret p.dh.toList p.number p.nonce p.ciphertext p.aad

namespace Network

/-- Fewer than `2^32` messages have been sent on the current chain. -/
def roomToSend (s : RatchetSession) : Bool :=
  s.sendingChain.all fun chain => chain.index.toNat + 1 < 2 ^ 32

/-- One action; `none` when the assumptions on the run rule it out: nonces have
24 bytes, chains stay short of `2^32` messages, drawn keys are fresh and at most
256 packets of one chain are lost in a row. A send that fails sends nothing. -/
def step (P : Primitives) (net : Network) : Action → Option Network
  | .send x nonce plaintext aad =>
    if nonce.length = 24 ∧ roomToSend (net.session x) then
      match (net.session x).encrypt P nonce plaintext aad with
      | (.error _, s) => some { net with session := update net.session x s }
      | (.ok sent, s) => some { net with
          session := update net.session x s
          inbox := update net.inbox x.other (net.inbox x.other ++
            [⟨sent.ourDhPublic, sent.messageNumber, sent.nonce, sent.ciphertext, aad,
              plaintext⟩]) }
    else none
  | .deliver y newDhSecret =>
    match net.inbox y with
    | [] => none
    | p :: rest =>
      if P.publicKey newDhSecret ∉ net.used then
        some { net with
          session := update net.session y (p.decryptBy P newDhSecret (net.session y)).2
          inbox := update net.inbox y rest
          gap := update net.gap y []
          used := P.publicKey newDhSecret :: net.used }
      else none
  | .lose y =>
    match net.inbox y with
    | [] => none
    | p :: rest =>
      if (net.gap y).count p.dh < maxSkipKeys then
        some { net with
          inbox := update net.inbox y rest
          gap := update net.gap y (p.dh :: net.gap y)
          lost := update net.lost y (p :: net.lost y) }
      else none

/-- A run: the actions one after another. -/
def run (P : Primitives) : Network → List Action → Option Network
  | net, [] => some net
  | net, a :: actions =>
    match net.step P a with
    | some net' => run P net' actions
    | none => none

/-- Two identities meet: `alice` starts a session with `bob`. -/
def start (P : Primitives) (aliceKey bobKey aliceSecret bobSecret : Key) : Network where
  session
    | .alice => initAsSender P aliceKey (P.publicKey (P.ed25519ToX25519Secret bobKey)) aliceSecret
    | .bob => initAsReceiver P bobKey (P.publicKey (P.ed25519ToX25519Secret aliceKey)) bobSecret
  inbox _ := []
  gap _ := []
  lost _ := []
  used := [P.publicKey (P.ed25519ToX25519Secret aliceKey),
    P.publicKey (P.ed25519ToX25519Secret bobKey), P.publicKey aliceSecret, P.publicKey bobSecret]

end Network

/-! ## What is in flight -/

/-- The primitives do their job: agreement is symmetric, and what the AEAD seals
it opens. -/
structure Primitives.Correct (P : Primitives) : Prop where
  agree : ∀ s t, P.diffieHellman s (P.publicKey t) = P.diffieHellman t (P.publicKey s)
  opens : ∀ key nonce aad plaintext, ∃ ciphertext,
    P.aeadEncrypt key nonce aad plaintext = some ciphertext ∧
      P.aeadDecrypt key nonce aad ciphertext = some plaintext

section
variable (P : Primitives)

/-- `p` is message `k` of the chain from `c`, sent under the DH key `d`. -/
structure Genuine (c d : Key) (k : Nat) (p : Packet) : Prop where
  dh : p.dh = d
  number : p.number = UInt32.ofNat k
  nonce : p.nonce.length = 24
  opens : P.aeadDecrypt (messageKeyAt P c k) p.nonce p.aad p.ciphertext = some p.plaintext

/-- The packets are messages `k, …, e - 1` of the chain from `c`, in order. -/
def Stream (c d : Key) : Nat → List Packet → Nat → Prop
  | k, [], e => k = e
  | k, p :: ps, e => Genuine P c d k p ∧ Stream c d (k + 1) ps e

variable {c d : Key} {used used' : List Key} {p : Packet} {s : RatchetSession}

theorem Stream.le : ∀ {k e : Nat} {ps : List Packet}, Stream P c d k ps e → k ≤ e
  | _, _, [], h => Nat.le_of_eq h
  | _, _, _ :: _, h => Nat.le_of_succ_le (Stream.le h.2)

theorem Stream.snoc {e : Nat} (hp : Genuine P c d e p) :
    ∀ {k : Nat} {ps : List Packet}, Stream P c d k ps e → Stream P c d k (ps ++ [p]) (e + 1)
  | _, [], h => by
    cases h
    exact ⟨hp, rfl⟩
  | _, _ :: _, h => ⟨h.1, Stream.snoc hp h.2⟩

/-- What lies between the sender's position `j` and the receiver's position `r`
on one chain: `gap` counts what was lost since the last delivery, the packets
are the rest. -/
structure InFlight (used : List Key) (c d : Key) (r : Nat) (gap : List Key) (packets : List Packet)
    (j : Nat) : Prop where
  stream : Stream P c d (r + gap.count d) packets j
  lossy : gap.count d ≤ maxSkipKeys
  bound : j < 2 ^ 32
  known : d ∈ used

variable {P}

namespace InFlight

variable {used : List Key} {c d : Key} {r j : Nat} {gap : List Key} {packets : List Packet}

theorem mono {used' : List Key} (hsub : ∀ k ∈ used, k ∈ used')
    (h : InFlight P used c d r gap packets j) : InFlight P used' c d r gap packets j :=
  ⟨h.stream, h.lossy, h.bound, hsub _ h.known⟩

theorem fresh (hfresh : d ∉ gap) (hknown : d ∈ used) :
    InFlight P used c d 0 gap [] 0 := by
  have hgap : gap.count d = 0 := count_eq_zero.mpr hfresh
  exact ⟨by rw [hgap]; rfl, by rw [hgap]; exact Nat.zero_le _, by decide, hknown⟩

theorem sent {p : Packet} (hp : Genuine P c d j p) (hj : j + 1 < 2 ^ 32)
    (h : InFlight P used c d r gap packets j) :
    InFlight P used c d r gap (packets ++ [p]) (j + 1) :=
  ⟨h.stream.snoc P hp, h.lossy, hj, h.known⟩

theorem lose {p : Packet} (hroom : gap.count p.dh < maxSkipKeys)
    (h : InFlight P used c d r gap (p :: packets) j) :
    InFlight P used c d r (p.dh :: gap) packets j := by
  have hdh : p.dh = d := h.stream.1.dh
  subst hdh
  refine ⟨?_, ?_, h.bound, h.known⟩
  · rw [count_cons_self, ← Nat.add_assoc]
    exact h.stream.2
  · rw [count_cons_self]
    exact hroom

theorem loseOther {d' : Key} (hne : d' ≠ d) (h : InFlight P used c d r gap packets j) :
    InFlight P used c d r (d' :: gap) packets j := by
  refine ⟨?_, ?_, h.bound, h.known⟩
  · rw [count_cons_of_ne hne]
    exact h.stream
  · rw [count_cons_of_ne hne]
    exact h.lossy

end InFlight

/-- Saved keys belong to keys seen before, and those of the current chain lie
behind its position. -/
def SavedBehind (used : List Key) (s : RatchetSession) : Prop :=
  ∀ key ∈ s.skippedKeys, key.1 ∈ used ∧
    (s.theirDhPublic = some key.1 →
      ∀ chain, s.receivingChain = some chain → key.2.toNat < chain.index.toNat)

theorem SavedBehind.not_mem {r k : Nat} (h : SavedBehind used s) (htheir : s.theirDhPublic = some d)
    (hrecv : s.receivingChain = some (chainAt P c r)) (hr : r ≤ k) (hk : k < 2 ^ 32) :
    (d, UInt32.ofNat k) ∉ s.skippedKeys := by
  intro hmem
  have hlt := (h _ hmem).2 htheir _ hrecv
  rw [index_chainAt P c (by omega), UInt32.toNat_ofNat'] at hlt
  omega

/-- The first packet in flight reaches a session that stands on its chain under its key: it
decrypts, and the session stands behind it. -/
theorem decryptBy_inChain {r j : Nat} {gap : List Key} {packets : List Packet} (newDhSecret : Key)
    (htheir : s.theirDhPublic = some d) (hrecv : s.receivingChain = some (chainAt P c r))
    (hfly : InFlight P used c d r gap (p :: packets) j) (hsaved : SavedBehind used s) :
    ∃ skipped, p.decryptBy P newDhSecret s = (.ok p.plaintext, { s with
        receivingChain := some (chainAt P c (r + gap.count d + 1)), skippedKeys := skipped }) ∧
      (∀ key ∈ skipped, key ∈ s.skippedKeys ∨ key.1 = d) ∧
      SavedBehind used { s with
        receivingChain := some (chainAt P c (r + gap.count d + 1)), skippedKeys := skipped } ∧
      InFlight P used c d (r + gap.count d + 1) [] packets j := by
  have hrest : InFlight P used c d (r + gap.count d + 1) [] packets j :=
    ⟨hfly.stream.2, Nat.zero_le _, hfly.bound, hfly.known⟩
  have hk := hfly.stream.2.le.trans_lt hfly.bound
  have hskip : r + gap.count d - r ≤ maxSkipKeys :=
    (Nat.add_sub_cancel_left r _).trans_le hfly.lossy
  have hr : r ≤ r + gap.count d := Nat.le_add_right _ _
  have hp := hfly.stream.1
  generalize r + gap.count d = k at hrest hk hskip hr hp ⊢
  have hrlt : (chainAt P c r).index.toNat = r := index_chainAt P c (by omega)
  have hnew := hsaved.not_mem htheir hrecv hr (by omega)
  have hget := getMessageKey_chainAt P hrecv hr (by omega) hskip hnew
  refine ⟨(skipKeys P d (k - r) (chainAt P c r) s.skippedKeys).2, ?_, ?_, ?_, hrest⟩
  · unfold Packet.decryptBy
    rw [hp.dh, hp.number, decrypt_of_ok htheir hget hp.nonce, hp.opens]
  · intro key hmem
    rcases mem_skipKeys P d c (k - r) r _ (by omega) key hmem with hold | ⟨heq, _⟩
    · exact .inl hold
    · exact .inr heq
  · intro key hmem
    have hklt : ∀ chain, some (chainAt P c (k + 1)) = some chain → chain.index.toNat = k + 1 := by
      simp_all [index_chainAt]
    rcases mem_skipKeys P d c (k - r) r _ (by omega) key hmem with hold | ⟨heq, hlt⟩
    · refine ⟨(hsaved key hold).1, fun htheir' chain hchain => ?_⟩
      have hbehind := (hsaved key hold).2 htheir' _ hrecv
      rw [hklt chain hchain]
      omega
    · refine ⟨heq ▸ hfly.known, fun _ chain hchain => ?_⟩
      rw [hklt chain hchain]
      omega

/-- A packet with a new key is read by the session that has ratcheted to it. -/
theorem decryptBy_ratchet (newDhSecret : Key) (hne : s.theirDhPublic ≠ some p.dh) :
    p.decryptBy P newDhSecret s
      = p.decryptBy P newDhSecret (s.handleDhRatchet P newDhSecret p.dh) := by
  have hchanged : s.dhChanged p.dh = true := by simpa [dhChanged] using hne
  unfold Packet.decryptBy
  rw [decrypt_ratchetTo, ratchetTo, if_pos hchanged]

/-! ## One side is ahead -/

variable (P)

/-- The side that is behind sends on a chain the side ahead receives on, or
cannot send yet. -/
def Replies (used : List Key) (X Y : RatchetSession) (inbox : List Packet) (gap : List Key) :
    Prop :=
  Y.sendingChain = none ∧ X.receivingChain = none ∧ inbox = [] ∨
    ∃ c j r, Y.sendingChain = some (chainAt P c j) ∧ Y.ourIdentitySecret = none ∧
      Y.ourDhPublic = P.publicKey Y.ourDhSecret ∧ X.receivingChain = some (chainAt P c r) ∧
      InFlight P used c Y.ourDhPublic r gap inbox j

/-- What is left in flight of the chain a session receives on, the sender having
moved on. -/
def Leftover (used : List Key) (Y : RatchetSession) (old : List Packet) (gap : List Key) : Prop :=
  Y.receivingChain = none ∧ old = [] ∨
    ∃ c d r e, Y.theirDhPublic = some d ∧ Y.receivingChain = some (chainAt P c r) ∧
      InFlight P used c d r gap old e

/-- `X` took the last ratchet step and `Y` has not seen it. The root keys are one
step apart, `X` sends on the chain of that step, and what is in flight to `Y` is
a leftover of its current chain followed by packets of the new one. -/
structure Ahead (used : List Key) (X Y : RatchetSession) (inboxX inboxY : List Packet)
    (gapX gapY : List Key) : Prop where
  their : X.theirDhPublic = some (P.publicKey Y.ratchetSecret)
  identity : X.ourIdentitySecret = none
  public_eq : X.ourDhPublic = P.publicKey X.ourDhSecret
  unseen : Y.theirDhPublic ≠ some X.ourDhPublic
  pending : ∃ c i old cur,
    P.rootKeyRatchet Y.rootKey (P.diffieHellman X.ourDhSecret (P.publicKey Y.ratchetSecret))
        = (X.rootKey, c) ∧
      X.sendingChain = some (chainAt P c i) ∧ inboxY = old ++ cur ∧
      Leftover P used Y old gapY ∧ InFlight P used c X.ourDhPublic 0 gapY cur i ∧
      (old ≠ [] → gapY.count X.ourDhPublic = 0)
  replies : Replies P used X Y inboxX gapX
  savedX : SavedBehind used X
  savedY : SavedBehind used Y
  unsaved : ∀ key ∈ Y.skippedKeys, key.1 ≠ X.ourDhPublic
  usedY : P.publicKey Y.ratchetSecret ∈ used
  usedGapX : ∀ d ∈ gapX, d ∈ used
  usedGapY : ∀ d ∈ gapY, d ∈ used

variable {P}

section
variable (hsub : ∀ k ∈ used, k ∈ used')
include hsub

theorem SavedBehind.mono (h : SavedBehind used s) :
    SavedBehind used' s :=
  fun key hmem => ⟨hsub _ (h key hmem).1, (h key hmem).2⟩

theorem Replies.mono {X Y : RatchetSession} {inbox : List Packet} {gap : List Key}
    (h : Replies P used X Y inbox gap) :
    Replies P used' X Y inbox gap := by
  rcases h with hnone | ⟨c, j, r, hsend, hid, hpub, hrecv, hfly⟩
  · exact .inl hnone
  · exact .inr ⟨c, j, r, hsend, hid, hpub, hrecv, hfly.mono hsub⟩

theorem Leftover.mono {Y : RatchetSession} {old : List Packet} {gap : List Key}
    (h : Leftover P used Y old gap) :
    Leftover P used' Y old gap := by
  rcases h with hnone | ⟨c, d, r, e, htheir, hrecv, hfly⟩
  · exact .inl hnone
  · exact .inr ⟨c, d, r, e, htheir, hrecv, hfly.mono hsub⟩

end

namespace Ahead

variable {used : List Key} {X Y : RatchetSession} {inboxX inboxY : List Packet}
  {gapX gapY : List Key}

section
variable (h : Ahead P used X Y inboxX inboxY gapX gapY)
include h

theorem mono {used' : List Key} (hsub : ∀ k ∈ used, k ∈ used') :
    Ahead P used' X Y inboxX inboxY gapX gapY := by
  obtain ⟨c, i, old, cur, hroot, hsend, hin, hold, hcur, hfirst⟩ := h.pending
  exact { h with
    pending := ⟨c, i, old, cur, hroot, hsend, hin, hold.mono hsub, hcur.mono hsub, hfirst⟩
    replies := h.replies.mono hsub
    savedX := h.savedX.mono hsub
    savedY := h.savedY.mono hsub
    usedY := hsub _ h.usedY
    usedGapX := fun d hd => hsub _ (h.usedGapX d hd)
    usedGapY := fun d hd => hsub _ (h.usedGapY d hd) }

theorem sendX :
    ∃ c i, X.sendingChain = some (chainAt P c i) ∧ i < 2 ^ 32 ∧
      ∀ p, Genuine P c X.ourDhPublic i p → i + 1 < 2 ^ 32 →
        Ahead P used { X with sendingChain := some (chainAt P c (i + 1)) } Y inboxX
          (inboxY ++ [p]) gapX gapY := by
  obtain ⟨c, i, old, cur, hroot, hsend, hin, hold, hcur, hfirst⟩ := h.pending
  refine ⟨c, i, hsend, hcur.bound, fun p hp hi => ?_⟩
  exact { h with
    pending := ⟨c, i + 1, old, cur ++ [p], hroot, rfl, by rw [hin, append_assoc], hold,
      hcur.sent hp hi, hfirst⟩ }

theorem sendY :
    Y.sendingChain = none ∨
      ∃ c j, Y.sendingChain = some (chainAt P c j) ∧ j < 2 ^ 32 ∧
        ∀ p, Genuine P c Y.ourDhPublic j p → j + 1 < 2 ^ 32 →
          Ahead P used X { Y with sendingChain := some (chainAt P c (j + 1)) } (inboxX ++ [p])
            inboxY gapX gapY := by
  rcases h.replies with ⟨hnone, _, _⟩ | ⟨c, j, r, hsend, hid, hpub, hrecv, hfly⟩
  · exact .inl hnone
  · refine .inr ⟨c, j, hsend, hfly.bound, fun p hp hj => ?_⟩
    exact { h with
      replies := .inr ⟨c, j + 1, r, rfl, hid, hpub, hrecv, hfly.sent hp hj⟩ }

end

variable {rest : List Packet} {p : Packet}

theorem loseX (hroom : gapX.count p.dh < maxSkipKeys)
    (h : Ahead P used X Y (p :: rest) inboxY gapX gapY) :
    Ahead P used X Y rest inboxY (p.dh :: gapX) gapY := by
  rcases h.replies with ⟨_, _, hnil⟩ | ⟨c, j, r, hsend, hid, hpub, hrecv, hfly⟩
  · cases hnil
  · have hdh : p.dh = Y.ourDhPublic := hfly.stream.1.dh
    exact { h with
      replies := .inr ⟨c, j, r, hsend, hid, hpub, hrecv, hfly.lose hroom⟩
      usedGapX := forall_mem_cons.mpr ⟨hdh ▸ hfly.known, h.usedGapX⟩ }

/-- The side behind loses a packet, of its current chain or of the new one. -/
theorem loseY (hroom : gapY.count p.dh < maxSkipKeys)
    (h : Ahead P used X Y inboxX (p :: rest) gapX gapY) :
    Ahead P used X Y inboxX rest gapX (p.dh :: gapY) := by
  obtain ⟨c, i, old, cur, hroot, hsend, hin, hold, hcur, hfirst⟩ := h.pending
  have hunseen := h.unseen
  cases old with
  | nil =>
    rw [nil_append] at hin
    subst hin
    have hdh : p.dh = X.ourDhPublic := hcur.stream.1.dh
    refine { h with
      pending := ⟨c, i, [], rest, hroot, hsend, rfl, ?_, hcur.lose hroom, fun hne => absurd rfl hne⟩
      usedGapY := forall_mem_cons.mpr ⟨hdh ▸ hcur.known, h.usedGapY⟩ }
    rcases hold with hnone | ⟨c', d, r, e, htheir, hrecv, hfly⟩
    · exact .inl hnone
    · refine .inr ⟨c', d, r, e, htheir, hrecv, hfly.loseOther fun heq => hunseen ?_⟩
      rw [htheir, ← hdh, heq]
  | cons q old =>
    rw [cons_append, List.cons.injEq] at hin
    obtain ⟨rfl, rfl⟩ := hin
    rcases hold with ⟨_, hnil⟩ | ⟨c', d, r, e, htheir, hrecv, hfly⟩
    · cases hnil
    · have hdh : p.dh = d := hfly.stream.1.dh
      have hne : p.dh ≠ X.ourDhPublic := fun heq => hunseen (by rw [htheir, ← hdh, heq])
      refine { h with
        pending := ⟨c, i, old, cur, hroot, hsend, rfl,
          .inr ⟨c', d, r, e, htheir, hrecv, hfly.lose hroom⟩, hcur.loseOther hne, fun _ => ?_⟩
        usedGapY := forall_mem_cons.mpr ⟨hdh ▸ hfly.known, h.usedGapY⟩ }
      grind

theorem deliverX (newDhSecret : Key) (h : Ahead P used X Y (p :: rest) inboxY gapX gapY) :
    ∃ X', p.decryptBy P newDhSecret X = (.ok p.plaintext, X') ∧
      Ahead P used X' Y rest inboxY [] gapY := by
  rcases h.replies with ⟨_, _, hnil⟩ | ⟨c, j, r, hsend, hid, hpub, hrecv, hfly⟩
  · cases hnil
  · have htheir : X.theirDhPublic = some Y.ourDhPublic := by
      rw [h.their, hpub, ratchetSecret, hid]
      rfl
    obtain ⟨skipped, hdec, _, hsaved, hrest⟩ :=
      decryptBy_inChain newDhSecret htheir hrecv hfly h.savedX
    exact ⟨_, hdec, { h with
      replies := .inr ⟨c, j, _, hsend, hid, hpub, rfl, hrest⟩
      savedX := hsaved
      usedGapX := nofun }⟩

section
variable {c : Key} {i : Nat} {old cur : List Packet}

/-- A leftover packet reaches the side behind: the old chain moves on. -/
theorem deliverOld (newDhSecret : Key) (hroot : P.rootKeyRatchet Y.rootKey
      (P.diffieHellman X.ourDhSecret (P.publicKey Y.ratchetSecret)) = (X.rootKey, c))
    (hsend : X.sendingChain = some (chainAt P c i)) (hold : Leftover P used Y (p :: old) gapY)
    (hcur : InFlight P used c X.ourDhPublic 0 gapY cur i) (hfirst : gapY.count X.ourDhPublic = 0)
    (h : Ahead P used X Y inboxX (p :: (old ++ cur)) gapX gapY) :
    ∃ Y', p.decryptBy P newDhSecret Y = (.ok p.plaintext, Y') ∧
      Ahead P used X Y' inboxX (old ++ cur) gapX [] := by
  rcases hold with ⟨_, hnil⟩ | ⟨c', d, r, e, htheir, hrecv, hfly⟩
  · cases hnil
  · obtain ⟨skipped, hdec, hmem, hsaved, hrest⟩ :=
      decryptBy_inChain newDhSecret htheir hrecv hfly h.savedY
    have hstream := hcur.stream
    rw [hfirst] at hstream
    refine ⟨_, hdec, { h with
      pending := ⟨c, i, old, cur, hroot, hsend, rfl, .inr ⟨c', d, _, e, htheir, rfl, hrest⟩,
        ⟨hstream, Nat.zero_le _, hcur.bound, hcur.known⟩, fun _ => rfl⟩
      savedY := hsaved
      unsaved := fun key hkey => ?_
      usedGapY := nofun }⟩
    rcases hmem key hkey with hin | heq
    · exact h.unsaved key hin
    · intro hpub
      exact h.unseen (by rw [htheir, ← heq, hpub])

/-- What was in flight to the side ahead is what is left over once it is behind. -/
theorem leftover (h : Ahead P used X Y inboxX inboxY gapX gapY) :
    Leftover P used X inboxX gapX := by
  rcases h.replies with ⟨_, hrecv, hnil⟩ | ⟨c, j, r, _, hid, hpub, hrecv, hfly⟩
  · exact .inl ⟨hrecv, hnil⟩
  · refine .inr ⟨c, Y.ourDhPublic, r, j, ?_, hrecv, hfly⟩
    rw [h.their, hpub, ratchetSecret, hid]
    rfl

/-- A packet of the new key reaches the side behind: it ratchets to it, with the
secret the other side agreed with, and is ahead from now on. -/
theorem deliverNew {newDhSecret : Key}
    (hagree : ∀ s t, P.diffieHellman s (P.publicKey t) = P.diffieHellman t (P.publicKey s))
    (hfresh : P.publicKey newDhSecret ∉ used) (hroot : P.rootKeyRatchet Y.rootKey
      (P.diffieHellman X.ourDhSecret (P.publicKey Y.ratchetSecret)) = (X.rootKey, c))
    (hsend : X.sendingChain = some (chainAt P c i))
    (hcur : InFlight P used c X.ourDhPublic 0 gapY (p :: cur) i)
    (h : Ahead P used X Y inboxX (p :: cur) gapX gapY) :
    ∃ Y', p.decryptBy P newDhSecret Y = (.ok p.plaintext, Y') ∧
      Ahead P (P.publicKey newDhSecret :: used) Y' X cur inboxX [] gapX := by
  have hdh : p.dh = X.ourDhPublic := hcur.stream.1.dh
  have hsecret : X.ratchetSecret = X.ourDhSecret := by rw [ratchetSecret, h.identity]; rfl
  have hpub : P.publicKey X.ratchetSecret = X.ourDhPublic := by rw [hsecret, h.public_eq]
  have hsub : ∀ k ∈ used, k ∈ P.publicKey newDhSecret :: used :=
    fun k hk => mem_cons_of_mem _ hk
  have hgap : P.publicKey newDhSecret ∉ gapX := fun hmem => hfresh (h.usedGapX _ hmem)
  -- both ends computed the same agreement
  have hstep : P.rootKeyRatchet Y.rootKey (P.diffieHellman Y.ratchetSecret X.ourDhPublic)
      = (X.rootKey, c) := by
    rw [h.public_eq, ← hagree X.ourDhSecret, hroot]
  obtain ⟨hrecv, c', hnext, hsend'⟩ := chains_handleDhRatchet P newDhSecret hstep
  have hsavedR : SavedBehind used (Y.handleDhRatchet P newDhSecret X.ourDhPublic) :=
    fun key hkey => ⟨(h.savedY key hkey).1, fun htheir =>
      absurd (Option.some.inj htheir).symm (h.unsaved key hkey)⟩
  rw [decryptBy_ratchet newDhSecret (hdh ▸ h.unseen), hdh]
  obtain ⟨skipped, hdec, _, hsaved, hrest⟩ :=
    decryptBy_inChain newDhSecret rfl hrecv hcur hsavedR
  refine ⟨_, hdec, ?_⟩
  exact {
    their := by rw [hpub]; rfl
    identity := rfl
    public_eq := rfl
    unseen := by
      rw [h.their]
      intro heq
      have hold : P.publicKey Y.ratchetSecret = P.publicKey newDhSecret := Option.some.inj heq
      exact hfresh (hold ▸ h.usedY)
    pending := ⟨_, 0, inboxX, [], by rw [hpub]; exact hnext, hsend', (append_nil _).symm,
      h.leftover.mono hsub, .fresh hgap mem_cons_self,
      fun _ => count_eq_zero.mpr hgap⟩
    replies := .inr ⟨c, i, _, hsend, h.identity, h.public_eq, rfl, hrest.mono hsub⟩
    savedX := hsaved.mono hsub
    savedY := h.savedX.mono hsub
    unsaved := fun key hkey heq => by
      have hold : key.1 = P.publicKey newDhSecret := heq
      exact hfresh (hold ▸ (h.savedX key hkey).1)
    usedY := by rw [hpub]; exact hsub _ hcur.known
    usedGapX := nofun
    usedGapY := fun d hd => hsub _ (h.usedGapX d hd) }

end

end Ahead

/-! ## Along a run -/

section
variable (hP : P.Correct) {s' : RatchetSession} {nonce plaintext aad : Bytes} {e : String}
include hP

/-- A failed send leaves the session as it was; a successful one takes the next
message of the chain. -/
theorem encrypt_error (h : s.encrypt P nonce plaintext aad = (.error e, s')) : s' = s := by
  unfold encrypt at h
  split at h
  next => cases h; rfl
  next chain _ =>
    split at h
    next => cases h; rfl
    obtain ⟨ciphertext, hct, _⟩ := hP.opens (chain.nextMessageKey P).1 nonce aad plaintext
    simp only [hct] at h
    cases h

theorem encrypt_chainAt {sent : RatchetEncryptResult} {i : Nat} (hnonce : nonce.length = 24)
    (hsend : s.sendingChain = some (chainAt P c i))
    (h : s.encrypt P nonce plaintext aad = (.ok sent, s')) :
    s' = { s with sendingChain := some (chainAt P c (i + 1)) } ∧
      Genuine P c s.ourDhPublic i
        ⟨sent.ourDhPublic, sent.messageNumber, sent.nonce, sent.ciphertext, aad, plaintext⟩ := by
  unfold encrypt at h
  rw [hsend] at h
  simp only [nextMessageKey_chainAt] at h
  split at h
  next => cases h
  obtain ⟨ciphertext, hct, hopen⟩ := hP.opens (messageKeyAt P c i) nonce aad plaintext
  rw [hct] at h
  cases h
  exact ⟨rfl, rfl, index_pred_chainAt P c i, hnonce, hopen⟩

end

namespace Network

variable {net net' : Network}

variable (P) in
/-- `x` is ahead. -/
def AheadAt (net : Network) (x : Side) : Prop :=
  Ahead P net.used (net.session x) (net.session x.other) (net.inbox x) (net.inbox x.other)
    (net.gap x) (net.gap x.other)

theorem start_ahead (hP : P.Correct) (aliceKey bobKey aliceSecret bobSecret : Key) :
    (start P aliceKey bobKey aliceSecret bobSecret).AheadAt P .alice := by
  have hempty : ∀ s : RatchetSession, s.skippedKeys = ∅ → ∀ used, SavedBehind used s :=
    fun s hs used key hkey => by rw [hs] at hkey; cases hkey
  have hbob : P.publicKey (P.ed25519ToX25519Secret bobKey)
      ∈ (start P aliceKey bobKey aliceSecret bobSecret).used := by simp [start]
  exact {
    their := rfl
    identity := rfl
    public_eq := rfl
    unseen := by intro heq; cases heq
    pending := by
      refine ⟨_, 0, [], [], ?_, rfl, rfl, .inl ⟨rfl, rfl⟩,
        ⟨rfl, Nat.zero_le _, by decide, by simp [start, initAsSender]⟩, fun _ => rfl⟩
      -- the two ends start from one shared secret
      show P.rootKeyRatchet (P.deriveRootKey _ (P.diffieHellman (P.ed25519ToX25519Secret bobKey)
        (P.publicKey (P.ed25519ToX25519Secret aliceKey)))) _ = _
      rw [hP.agree]
      rfl
    replies := .inl ⟨rfl, rfl, rfl⟩
    savedX := hempty _ rfl _
    savedY := hempty _ rfl _
    unsaved := fun key hkey => by cases hkey
    usedY := hbob
    usedGapX := nofun
    usedGapY := nofun }

variable {x y : Side}

/-- The next packet to either side decrypts, and some side is ahead afterwards. -/
theorem deliver_ahead (hP : P.Correct) {p : Packet} {rest : List Packet} {newDhSecret : Key}
    (h : net.AheadAt P x) (hin : net.inbox y = p :: rest)
    (hfresh : P.publicKey newDhSecret ∉ net.used) :
    ∃ s', p.decryptBy P newDhSecret (net.session y) = (.ok p.plaintext, s') ∧
      ∃ x', AheadAt P { net with
        session := update net.session y s'
        inbox := update net.inbox y rest
        gap := update net.gap y []
        used := P.publicKey newDhSecret :: net.used } x' := by
  have hsub : ∀ k ∈ net.used, k ∈ P.publicKey newDhSecret :: net.used :=
    fun k hk => mem_cons_of_mem _ hk
  have hne : x.other ≠ x := x.other_ne
  unfold AheadAt at h ⊢
  rcases x.eq_or_eq_other y with rfl | rfl
  · rw [hin] at h
    obtain ⟨s', hdec, hahead⟩ := h.deliverX newDhSecret
    refine ⟨s', hdec, y, ?_⟩
    simpa [update_of_ne hne] using hahead.mono hsub
  · rw [hin] at h
    obtain ⟨c, i, old, cur, hroot, hsend, happ, hold, hcur, hfirst⟩ := h.pending
    cases old with
    | nil =>
      obtain ⟨s', hdec, hahead⟩ :=
        h.deliverNew hP.agree hfresh hroot hsend (happ ▸ hcur)
      refine ⟨s', hdec, x.other, ?_⟩
      simpa [update_of_ne hne.symm] using hahead
    | cons q old =>
      obtain ⟨rfl, rfl⟩ := happ
      obtain ⟨s', hdec, hahead⟩ :=
        h.deliverOld newDhSecret hroot hsend hold hcur (hfirst (by simp))
      refine ⟨s', hdec, x, ?_⟩
      simpa [update_of_ne hne.symm] using hahead.mono hsub

theorem lose_ahead {p : Packet} {rest : List Packet} (h : net.AheadAt P x)
    (hin : net.inbox y = p :: rest) (hroom : (net.gap y).count p.dh < maxSkipKeys) :
    AheadAt P { net with
      inbox := update net.inbox y rest
      gap := update net.gap y (p.dh :: net.gap y)
      lost := update net.lost y (p :: net.lost y) } x := by
  have hne : x.other ≠ x := x.other_ne
  unfold AheadAt at h ⊢
  rcases x.eq_or_eq_other y with rfl | rfl
  · rw [hin] at h
    simpa [update_of_ne hne] using h.loseX hroom
  · rw [hin] at h
    simpa [update_of_ne hne.symm] using h.loseY hroom

theorem send_ahead (hP : P.Correct) {nonce plaintext aad : Bytes} {sent : RatchetEncryptResult}
    {s' : RatchetSession} (h : net.AheadAt P x) (hnonce : nonce.length = 24)
    (hroom : roomToSend (net.session y))
    (henc : (net.session y).encrypt P nonce plaintext aad = (.ok sent, s')) :
    AheadAt P { net with
      session := update net.session y s'
      inbox := update net.inbox y.other (net.inbox y.other ++
        [⟨sent.ourDhPublic, sent.messageNumber, sent.nonce, sent.ciphertext, aad, plaintext⟩]) }
      x := by
  have hne : x.other ≠ x := x.other_ne
  have hindex {c : Key} {i : Nat} (hi : i < 2 ^ 32)
      (hsend : (net.session y).sendingChain = some (chainAt P c i)) : i + 1 < 2 ^ 32 := by
    grind [roomToSend, chainAt, UInt32.toNat_ofNat']
  unfold AheadAt at h ⊢
  rcases x.eq_or_eq_other y with rfl | rfl
  · obtain ⟨c, i, hsend, hi, hnext⟩ := h.sendX
    obtain ⟨rfl, hp⟩ := encrypt_chainAt hP hnonce hsend henc
    simpa [update_of_ne hne, update_of_ne hne.symm]
      using hnext _ hp (hindex hi hsend)
  · rcases h.sendY with hnone | ⟨c, j, hsend, hj, hnext⟩
    · rw [encrypt, hnone] at henc
      cases henc
    · obtain ⟨rfl, hp⟩ := encrypt_chainAt hP hnonce hsend henc
      simpa [update_of_ne hne, update_of_ne hne.symm]
        using hnext _ hp (hindex hj hsend)

variable (P) in
/-- What one action can do. -/
inductive Stepped (net : Network) : Network → Prop
  | failed {y : Side} {nonce plaintext aad : Bytes} {e : String} {s' : RatchetSession} :
      (net.session y).encrypt P nonce plaintext aad = (.error e, s') →
      Stepped net { net with session := update net.session y s' }
  | sent {y : Side} {nonce plaintext aad : Bytes} {sent : RatchetEncryptResult}
      {s' : RatchetSession} : nonce.length = 24 → roomToSend (net.session y) →
      (net.session y).encrypt P nonce plaintext aad = (.ok sent, s') →
      Stepped net { net with
        session := update net.session y s'
        inbox := update net.inbox y.other (net.inbox y.other ++
          [⟨sent.ourDhPublic, sent.messageNumber, sent.nonce, sent.ciphertext, aad, plaintext⟩]) }
  | delivered {y : Side} {p : Packet} {rest : List Packet} {newDhSecret : Key} :
      net.inbox y = p :: rest → P.publicKey newDhSecret ∉ net.used →
      Stepped net { net with
        session := update net.session y (p.decryptBy P newDhSecret (net.session y)).2
        inbox := update net.inbox y rest
        gap := update net.gap y []
        used := P.publicKey newDhSecret :: net.used }
  | lost {y : Side} {p : Packet} {rest : List Packet} :
      net.inbox y = p :: rest → (net.gap y).count p.dh < maxSkipKeys →
      Stepped net { net with
        inbox := update net.inbox y rest
        gap := update net.gap y (p.dh :: net.gap y)
        lost := update net.lost y (p :: net.lost y) }

theorem stepped_of_step {a : Action} (hstep : net.step P a = some net') : Stepped P net net' := by
  cases a with
  | send y nonce plaintext aad =>
    simp only [step] at hstep
    split at hstep
    next hguard =>
      split at hstep
      next s' henc =>
        cases hstep
        exact .failed henc
      next sent s' henc =>
        cases hstep
        exact .sent hguard.1 hguard.2 henc
    next => cases hstep
  | deliver y newDhSecret =>
    simp only [step] at hstep
    split at hstep
    next => cases hstep
    next p rest hin =>
      split at hstep
      next hfresh =>
        cases hstep
        exact .delivered hin hfresh
      next => cases hstep
  | lose y =>
    simp only [step] at hstep
    split at hstep
    next => cases hstep
    next p rest hin =>
      split at hstep
      next hroom =>
        cases hstep
        exact .lost hin hroom
      next => cases hstep

theorem step_ahead (hP : P.Correct) {a : Action} (h : net.AheadAt P x)
    (hstep : net.step P a = some net') : ∃ x', net'.AheadAt P x' := by
  cases stepped_of_step hstep with
  | failed henc =>
    have hsame := encrypt_error hP henc
    refine ⟨x, ?_⟩
    rw [hsame, update_eq_self]
    exact h
  | sent hnonce hroom henc => exact ⟨x, send_ahead hP h hnonce hroom henc⟩
  | delivered hin hfresh => grind [deliver_ahead]
  | lost hin hroom => exact ⟨x, lose_ahead h hin hroom⟩

theorem run_keeps {Q : Network → Prop}
    (hstep : ∀ {net net' : Network} {a : Action}, Q net → net.step P a = some net' → Q net')
    (actions : List Action) :
    ∀ {net net' : Network}, Q net → run P net actions = some net' → Q net' := by
  induction actions with
  | nil =>
    intro net net' h hrun
    cases hrun
    exact h
  | cons a actions ih =>
    intro net net' h hrun
    rw [run] at hrun
    split at hrun
    next mid hmid => exact ih (hstep h hmid) hrun
    next => cases hrun

theorem run_ahead (hP : P.Correct) (actions : List Action) (h : net.AheadAt P x)
    (hrun : run P net actions = some net') : ∃ x', net'.AheadAt P x' := by
  refine run_keeps (Q := fun net => ∃ x, net.AheadAt P x) (fun hmid hstep => ?_) actions ⟨x, h⟩ hrun
  obtain ⟨y, hy⟩ := hmid
  exact step_ahead hP hy hstep

/-- **Every delivered packet decrypts to its own plaintext**, in any interleaving
of sends, in-order deliveries and losses (at most 256 in a row inside one chain)
on a pair of sessions made from two matching identities. -/
theorem delivered_decrypts (P : Primitives) (hP : P.Correct)
    (aliceKey bobKey aliceSecret bobSecret : Key) (actions : List Action) (net : Network)
    (hrun : run P (start P aliceKey bobKey aliceSecret bobSecret) actions = some net) (y : Side)
    (p : Packet) (rest : List Packet) (hin : net.inbox y = p :: rest) (newDhSecret : Key)
    (hfresh : P.publicKey newDhSecret ∉ net.used) :
    (p.decryptBy P newDhSecret (net.session y)).1 = .ok p.plaintext := by
  obtain ⟨x, hx⟩ := run_ahead hP actions (start_ahead hP _ _ _ _) hrun
  obtain ⟨s', hdec, _⟩ := deliver_ahead hP hx hin hfresh
  rw [hdec]

end Network

end

/-! ## A small run -/

theorem demoPrimitives_correct : demoPrimitives.Correct where
  agree s t := by
    apply Vector.ext
    intro i hi
    simp [demoPrimitives, UInt8.add_comm]
  opens key nonce aad plaintext := by
    refine ⟨key.toList ++ plaintext, rfl, ?_⟩
    show (if (key.toList ++ plaintext).take 32 = key.toList then _ else _) = _
    rw [List.take_left' (by simp), if_pos rfl, List.drop_left' (by simp)]

namespace Network

def demoStart : Network :=
  start demoPrimitives (keyOfByte 1) (keyOfByte 2) (keyOfByte 3) (keyOfByte 4)

/-- Alice's first packet is lost, the second arrives, Bob answers, Alice ratchets
and sends again. -/
def demoActions : List Action :=
  [.send .alice demoNonce [1] [], .send .alice demoNonce [2] [], .lose .bob,
    .deliver .bob (keyOfByte 10), .send .bob demoNonce [3] [], .deliver .alice (keyOfByte 11),
    .send .alice demoNonce [4] []]

theorem delivered_decrypts_demo :
    ∃ net p, run demoPrimitives demoStart demoActions = some net ∧ net.inbox .bob = [p] ∧
      p.plaintext = [4] ∧
      (p.decryptBy demoPrimitives (keyOfByte 12) (net.session .bob)).1 = .ok p.plaintext := by
  have hview : ((run demoPrimitives demoStart demoActions).map fun net =>
      ((net.inbox .bob).map Packet.plaintext, decide (keyOfByte 12 ∈ net.used)))
        = some ([[4]], false) := by decide +kernel
  obtain ⟨net, hrun, hnet⟩ := Option.map_eq_some_iff.mp hview
  rw [Prod.mk.injEq, map_eq_singleton_iff, decide_eq_false_iff_not] at hnet
  obtain ⟨⟨p, hin, hp⟩, hfresh⟩ := hnet
  exact ⟨net, p, hrun, hin, hp,
    delivered_decrypts demoPrimitives demoPrimitives_correct _ _ _ _ _ net
    hrun .bob p [] hin (keyOfByte 12) hfresh⟩

end Network

end Scm.Crypto
