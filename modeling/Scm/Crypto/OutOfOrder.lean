import Scm.Crypto.Conversation
import Scm.DeliveryWindow

/-!
# One sending chain, delivered in any order

The messages of one chain may arrive in any order and more than once. The receiver
keeps the keys it passes (`getMessageKey`) and takes each out when its message comes. What
it holds after any deliveries is determined by the numbers seen (`Holds`): the receiving
chain stands at their `position`, and the saved keys under this DH key are those of the
`outstanding` numbers. As long as the deliveries are `InWindow`, nothing is evicted.

The two sessions only have to be in step when the chain begins (`Faces`), which they are
in every state that the network of `Conversation` reaches (`faces_of_aheadAt`).
-/

namespace Scm.Crypto

open AList Bytes Collections DeliveryWindow RatchetSession

section
variable {P : Primitives}

/-! ## Skipping without eviction -/

theorem evictOldest_of_le {skipped : SkippedKeys} (h : len skipped ≤ maxSkipKeys) :
    evictOldest skipped = skipped := if_neg (Nat.not_lt.mpr h)

theorem ofNat_inj {m n : Nat} (hm : m < 2 ^ 32) (hn : n < 2 ^ 32)
    (h : UInt32.ofNat m = UInt32.ofNat n) : m = n := by
  have htoNat := congrArg UInt32.toNat h
  rw [UInt32.toNat_ofNat', UInt32.toNat_ofNat', Nat.mod_eq_of_lt hm, Nat.mod_eq_of_lt hn] at htoNat
  exact htoNat

/-- With room for all of them, skipping saves the key of every number it passes. -/
theorem skipKeys_room (d c : Key) (k : Nat) :
    ∀ (r : Nat) (skipped : SkippedKeys), r + k < 2 ^ 32 → len skipped + k ≤ maxSkipKeys →
      (∀ n, r ≤ n → n < r + k → (d, UInt32.ofNat n) ∉ skipped) →
      len (skipKeys P d k (chainAt P c r) skipped).2 = len skipped + k ∧
      ∀ n < 2 ^ 32, (skipKeys P d k (chainAt P c r) skipped).2.lookup (d, UInt32.ofNat n)
        = if r ≤ n ∧ n < r + k then some (messageKeyAt P c n)
          else skipped.lookup (d, UInt32.ofNat n) := by
  induction k with
  | zero =>
    intro r skipped _ _ _
    refine ⟨rfl, fun n _ => ?_⟩
    rw [if_neg (by omega)]
    rfl
  | succ k ih =>
    intro r skipped hbound hroom hnew
    have hfirst : (d, UInt32.ofNat r) ∉ skipped := hnew r (Nat.le_refl r) (by omega)
    have hlen := len_insert_of_notMem (messageKeyAt P c r) hfirst
    rw [skipKeys, nextMessageKey_chainAt]
    dsimp only
    rw [index_pred_chainAt, evictOldest_of_le (by omega)]
    obtain ⟨hsize, hlookup⟩ := ih (r + 1) (skipped.insert (d, UInt32.ofNat r) (messageKeyAt P c r))
      (by omega) (by omega) (by
        intro n hlow hhigh hmem
        rcases (mem_insert _).mp hmem with heq | hold
        · have := ofNat_inj (by omega) (by omega) (congrArg Prod.snd heq)
          omega
        · exact hnew n (by omega) (by omega) hold)
    refine ⟨by rw [hsize, hlen]; omega, fun n hn => ?_⟩
    rw [hlookup n hn]
    by_cases hnr : n = r
    · rw [hnr, if_neg (by omega), if_pos (by omega), lookup_insert]
    · have hother : (d, UInt32.ofNat n) ≠ (d, UInt32.ofNat r) :=
        fun heq => hnr (ofNat_inj hn (by omega) (congrArg Prod.snd heq))
      rw [lookup_insert_ne hother]
      by_cases hlater : r + 1 ≤ n ∧ n < r + 1 + k
      · rw [if_pos hlater, if_pos (by omega)]
      · rw [if_neg hlater, if_neg (by omega)]

/-! ## What the receiver holds -/

variable (P)

/-- The receiver of the chain from `c` under the DH key `d`, after the numbers `seen`. -/
structure Holds (c d : Key) (base : Nat) (seen : List Nat) (s : RatchetSession) : Prop where
  their : s.theirDhPublic = some d
  chain : s.receivingChain = some (chainAt P c (position seen))
  saved : ∀ n < 2 ^ 32, s.skippedKeys.lookup (d, UInt32.ofNat n)
    = if n ∈ outstanding seen then some (messageKeyAt P c n) else none
  size : len s.skippedKeys = base + (outstanding seen).card

variable {P}

namespace Holds

variable {c d : Key} {base k : Nat} {seen : List Nat} {s : RatchetSession}

section
variable (h : Holds P c d base seen s)
include h

theorem repeated (hk : k < 2 ^ 32) (hposition : position seen < 2 ^ 32) (hseen : k ∈ seen) :
    s.getMessageKey P d (UInt32.ofNat k)
        = (.error "Message number is behind current chain position", s) ∧
      Holds P c d base (k :: seen) s := by
  have hsame := outstanding_cons_of_mem hseen
  have hgone : k ∉ outstanding seen := fun hmem => (mem_outstanding.mp hmem).2 hseen
  have hbehind : UInt32.ofNat k < (chainAt P c (position seen)).index := by
    rw [UInt32.lt_iff_toNat_lt, index_chainAt P c hposition, UInt32.toNat_ofNat',
      Nat.mod_eq_of_lt hk]
    exact lt_position hseen
  constructor
  · unfold getMessageKey
    rw [h.saved k hk, if_neg hgone, h.chain]
    dsimp only
    rw [if_pos hbehind]
  · refine ⟨h.their, ?_, ?_, ?_⟩
    · rw [position_cons_of_lt (lt_position hseen)]
      exact h.chain
    · rw [hsame]
      exact h.saved
    · rw [hsame]
      exact h.size

/-- A number that was passed: its key was saved, and is taken out. -/
theorem filled (hk : k < 2 ^ 32) (hgap : k ∈ outstanding seen) :
    ∃ s', s.getMessageKey P d (UInt32.ofNat k) = (.ok (messageKeyAt P c k), s') ∧
      Holds P c d base (k :: seen) s' := by
  have hsaved := h.saved k hk
  rw [if_pos hgap] at hsaved
  have hcard := card_outstanding_of_mem hgap
  have hmem : (d, UInt32.ofNat k) ∈ s.skippedKeys :=
    lookup_isSome.mp (Option.isSome_of_eq_some hsaved)
  refine ⟨{ s with skippedKeys := s.skippedKeys.erase (d, UInt32.ofNat k) }, ?_, h.their, ?_,
    fun n hn => ?_, ?_⟩
  · unfold getMessageKey
    rw [hsaved]
  · rw [position_cons_of_lt (mem_outstanding.mp hgap).1]
    exact h.chain
  · have houtstanding : n ∈ outstanding (k :: seen) ↔ n ≠ k ∧ n ∈ outstanding seen := by
      rw [mem_outstanding, mem_outstanding, position_cons_of_lt (mem_outstanding.mp hgap).1,
        List.mem_cons, not_or]
      exact and_left_comm
    show (s.skippedKeys.erase (d, UInt32.ofNat k)).lookup (d, UInt32.ofNat n) = _
    by_cases hnk : n = k
    · rw [hnk, lookup_erase, if_neg fun hin => (mem_outstanding.mp hin).2 List.mem_cons_self]
    · have hother : (d, UInt32.ofNat n) ≠ (d, UInt32.ofNat k) :=
        fun heq => hnk (ofNat_inj hn hk (congrArg Prod.snd heq))
      rw [lookup_erase_ne hother, h.saved n hn]
      by_cases hin : n ∈ outstanding seen
      · rw [if_pos hin, if_pos (houtstanding.mpr ⟨hnk, hin⟩)]
      · rw [if_neg hin, if_neg fun hnew => hin (houtstanding.mp hnew).2]
  · show len (s.skippedKeys.erase (d, UInt32.ofNat k)) = _
    rw [len_erase hmem, h.size]
    omega

/-- A number ahead: the keys before it are saved, with room for all of them. -/
theorem ahead (hk : k + 1 < 2 ^ 32) (hahead : position seen ≤ k)
    (hroom : base + (outstanding (k :: seen)).card ≤ maxSkipKeys) :
    ∃ s', s.getMessageKey P d (UInt32.ofNat k) = (.ok (messageKeyAt P c k), s') ∧
      Holds P c d base (k :: seen) s' := by
  have hcard := card_outstanding_of_le hahead
  have hsize := h.size
  have hnew : ∀ n, position seen ≤ n → n < 2 ^ 32 → (d, UInt32.ofNat n) ∉ s.skippedKeys := by
    intro n hlow hn
    rw [← lookup_eq_none, h.saved n hn, if_neg]
    intro hin
    have := (mem_outstanding.mp hin).1
    omega
  have hget := getMessageKey_chainAt P h.chain hahead (by omega) (by omega)
    (hnew k hahead (by omega))
  obtain ⟨hlen, hlookup⟩ := skipKeys_room (P := P) d c (k - position seen) (position seen)
    s.skippedKeys (by omega) (by omega) fun n hlow hhigh => hnew n hlow (by omega)
  refine ⟨_, hget, h.their, ?_, fun n hn => ?_, ?_⟩
  · rw [position_cons_of_le hahead]
  · show (skipKeys P d _ _ s.skippedKeys).2.lookup (d, UInt32.ofNat n) = _
    rw [hlookup n hn, h.saved n hn]
    have houtstanding : n ∈ outstanding (k :: seen) ↔
        (position seen ≤ n ∧ n < position seen + (k - position seen)) ∨ n ∈ outstanding seen := by
      rw [mem_outstanding, mem_outstanding, position_cons_of_le hahead, List.mem_cons, not_or]
      constructor
      · rintro ⟨hlt, hne, hunseen⟩
        by_cases hpassed : n < position seen
        · exact .inr ⟨hpassed, hunseen⟩
        · exact .inl ⟨by omega, by omega⟩
      · rintro (⟨hlow, hhigh⟩ | ⟨hlt, hunseen⟩)
        · refine ⟨by omega, by omega, fun hmem => ?_⟩
          have := lt_position hmem
          omega
        · exact ⟨by omega, by omega, hunseen⟩
    by_cases hpassed : position seen ≤ n ∧ n < position seen + (k - position seen)
    · rw [if_pos hpassed, if_pos (houtstanding.mpr (.inl hpassed))]
    · grind
  · grind

end

end Holds

/-! ## Deliveries -/

/-- What should become of packet `k` after the numbers `seen`: it is read, or it is a
repetition. -/
def verdict (seen : List Nat) (k : Nat) (p : Packet) : Outcome Bytes :=
  if k ∈ seen then .err "Message number is behind current chain position" else .ok p.plaintext

theorem Holds.deliver {c d : Key} {base k : Nat} {seen : List Nat} {s : RatchetSession} {p : Packet}
    (h : Holds P c d base seen s) (newDhSecret : Key) (hp : Genuine P c d k p) (hk : k + 1 < 2 ^ 32)
    (hposition : position seen < 2 ^ 32)
    (hroom : base + (outstanding (k :: seen)).card ≤ maxSkipKeys) :
    (p.decryptBy P newDhSecret s).1 = verdict seen k p ∧
      Holds P c d base (k :: seen) (p.decryptBy P newDhSecret s).2 := by
  unfold Packet.decryptBy
  rw [hp.dh, hp.number, verdict]
  by_cases hseen : k ∈ seen
  · obtain ⟨hget, hholds⟩ := h.repeated (by omega) hposition hseen
    rw [decrypt_of_error h.their hget, if_pos hseen]
    exact ⟨rfl, hholds⟩
  · have hread : ∃ s', s.getMessageKey P d (UInt32.ofNat k) = (.ok (messageKeyAt P c k), s') ∧
        Holds P c d base (k :: seen) s' := by
      by_cases hahead : position seen ≤ k
      · exact h.ahead hk hahead hroom
      · exact h.filled (by omega) (mem_outstanding.mpr ⟨by omega, hseen⟩)
    obtain ⟨s', hget, hholds⟩ := hread
    rw [decrypt_of_ok h.their hget hp.nonce, hp.opens, if_neg hseen]
    exact ⟨rfl, hholds⟩

/-- Packets are handed to a session one after another, each with the secret that would be
drawn. -/
def outcomes (P : Primitives) (packets : List Packet) :
    RatchetSession → List (Fin packets.length × Key) → List (Outcome Bytes)
  | _, [] => []
  | s, (k, newDhSecret) :: deliveries =>
    ((packets.get k).decryptBy P newDhSecret s).1 ::
      outcomes P packets ((packets.get k).decryptBy P newDhSecret s).2 deliveries

/-- What should become of them. -/
def verdicts (packets : List Packet) :
    List Nat → List (Fin packets.length × Key) → List (Outcome Bytes)
  | _, [] => []
  | seen, (k, _) :: deliveries =>
    verdict seen k (packets.get k) :: verdicts packets (k :: seen) deliveries

/-- From a session that holds what it should, every delivery ends as it should. -/
theorem Holds.outcomes_eq {c d : Key} {base : Nat} {packets : List Packet}
    (hgenuine : ∀ k : Fin packets.length, Genuine P c d k (packets.get k))
    (hlength : packets.length < 2 ^ 32) (deliveries : List (Fin packets.length × Key)) :
    ∀ (seen : List Nat) (s : RatchetSession), Holds P c d base seen s →
      (∀ k ∈ seen, k < packets.length) →
      InWindow maxSkipKeys base seen (deliveries.map fun delivery => delivery.1.val) →
      outcomes P packets s deliveries = verdicts packets seen deliveries := by
  induction deliveries with
  | nil => exact fun _ _ _ _ _ => rfl
  | cons delivery deliveries ih =>
    intro seen s h hseen hwindow
    obtain ⟨k, newDhSecret⟩ := delivery
    obtain ⟨_, hroom, hrest⟩ := hwindow
    have hk := k.isLt
    have hposition := position_le hseen
    obtain ⟨houtcome, hholds⟩ := h.deliver newDhSecret (hgenuine k) (by omega) (by omega) hroom
    rw [outcomes, verdicts, houtcome,
      ih (k.val :: seen) _ hholds (List.forall_mem_cons.mpr ⟨hk, hseen⟩) hrest]

/-! ## The beginning of a chain -/

variable (P)

/-- `X` has a new sending chain, and `Y` is in step: it has not seen the key of that chain,
and ratcheting to it leads to the same chain. -/
structure Faces (X Y : RatchetSession) : Prop where
  chain : X.sendingChain = some (chainAt P (P.rootKeyRatchet Y.rootKey
    (P.diffieHellman Y.ratchetSecret X.ourDhPublic)).2 0)
  unseen : Y.theirDhPublic ≠ some X.ourDhPublic
  unsaved : ∀ key ∈ Y.skippedKeys, key.1 ≠ X.ourDhPublic

variable {P}

/-- The first packet finds the peer as it should be, once it has ratcheted. -/
theorem Faces.holds {X Y : RatchetSession} (h : Faces P X Y) (newDhSecret : Key) :
    Holds P (P.rootKeyRatchet Y.rootKey (P.diffieHellman Y.ratchetSecret X.ourDhPublic)).2
      X.ourDhPublic (len Y.skippedKeys) [] (Y.handleDhRatchet P newDhSecret X.ourDhPublic) where
  their := rfl
  chain := rfl
  saved n _ := by
    exact lookup_eq_none.mpr fun hmem => h.unsaved _ hmem rfl
  size := rfl

/-- What is put into a message; the nonce is drawn. -/
structure Draft where
  nonce : Vector UInt8 24
  plaintext : Bytes
  aad : Bytes

/-- The packets of a sequence of sends; a send that fails sends nothing. -/
def sendAll (P : Primitives) : RatchetSession → List Draft → List Packet
  | _, [] => []
  | s, draft :: drafts =>
    match s.encrypt P draft.nonce.toList draft.plaintext draft.aad with
    | (.error _, s) => sendAll P s drafts
    | (.ok sent, s) =>
      ⟨sent.ourDhPublic, sent.messageNumber, sent.nonce, sent.ciphertext, draft.aad,
        draft.plaintext⟩ :: sendAll P s drafts

theorem length_sendAll_le (drafts : List Draft) :
    ∀ s : RatchetSession, (sendAll P s drafts).length ≤ drafts.length := by
  induction drafts with
  | nil => exact fun s => Nat.le_refl 0
  | cons draft drafts ih => grind [sendAll]

theorem sendAll_genuine (hP : P.Correct) {c : Key} (drafts : List Draft) :
    ∀ (s : RatchetSession) (i : Nat), s.sendingChain = some (chainAt P c i) →
      ∀ k p, (sendAll P s drafts)[k]? = some p → Genuine P c s.ourDhPublic (i + k) p := by
  induction drafts with
  | nil => exact fun s i _ k p hp => by cases hp
  | cons draft drafts ih =>
    intro s i hsend k p hp
    unfold sendAll at hp
    split at hp
    next e s' henc => grind [encrypt_error]
    next sent s' henc =>
      obtain ⟨rfl, hfirst⟩ := encrypt_chainAt hP (by simp) hsend henc
      cases k with
      | zero =>
        cases hp
        exact hfirst
      | succ k =>
        rw [← Nat.add_assoc, Nat.add_right_comm]
        exact ih { s with sendingChain := some (chainAt P c (i + 1)) } (i + 1) rfl k p hp

/-- **Any delivery order.** Two sessions are in step when a sending chain begins. Fewer than
`2^32` messages are sent on it and delivered in any order and any number of times, no
delivery more than 256 ahead of the receiving chain, and at most 256 skipped keys
outstanding, earlier ones included. Then the first delivery of each message decrypts to its
plaintext and every other delivery is refused. -/
theorem any_order_decrypts (hP : P.Correct) {X Y : RatchetSession} (h : Faces P X Y)
    (drafts : List Draft) (hroom : drafts.length < 2 ^ 32)
    (deliveries : List (Fin (sendAll P X drafts).length × Key))
    (hwindow : InWindow maxSkipKeys (len Y.skippedKeys) []
      (deliveries.map fun delivery => delivery.1.val)) :
    outcomes P (sendAll P X drafts) Y deliveries = verdicts (sendAll P X drafts) [] deliveries := by
  have hlength := length_sendAll_le (P := P) drafts X
  have hsent := sendAll_genuine hP drafts X 0 h.chain
  generalize sendAll P X drafts = packets at hlength hsent deliveries ⊢
  have hgenuine : ∀ k : Fin packets.length, Genuine P (P.rootKeyRatchet Y.rootKey
      (P.diffieHellman Y.ratchetSecret X.ourDhPublic)).2 X.ourDhPublic k (packets.get k) := by grind
  cases deliveries with
  | nil => rfl
  | cons delivery deliveries =>
    obtain ⟨k, newDhSecret⟩ := delivery
    have hdh := (hgenuine k).dh
    -- the first packet makes the peer ratchet; the rest of the run starts from there
    have hfirst : outcomes P packets Y ((k, newDhSecret) :: deliveries)
        = outcomes P packets (Y.handleDhRatchet P newDhSecret X.ourDhPublic)
            ((k, newDhSecret) :: deliveries) := by
      unfold outcomes
      rw [decryptBy_ratchet newDhSecret (hdh ▸ h.unseen), hdh]
    rw [hfirst]
    exact Holds.outcomes_eq hgenuine (by omega) _ [] _ (h.holds newDhSecret) nofun hwindow

/-- In every state that two sessions reach over a network, they are in step when the side
ahead has a new chain. -/
theorem faces_of_aheadAt (hP : P.Correct) {net : Network} {x : Side} (h : net.AheadAt P x)
    {chain : Chain} (hchain : (net.session x).sendingChain = some chain) (hnew : chain.index = 0) :
    Faces P (net.session x) (net.session x.other) := by
  unfold Network.AheadAt at h
  obtain ⟨c, i, old, cur, hroot, hsend, _, _, hcur, _⟩ := h.pending
  cases hchain.symm.trans hsend
  have hi : i = 0 := by
    have hindex := index_chainAt P c hcur.bound
    rw [hnew] at hindex
    exact hindex.symm
  refine ⟨?_, h.unseen, h.unsaved⟩
  rw [hsend, hi, h.public_eq, ← hP.agree, hroot]

/-! ## A small run -/

def demoDraft (b : UInt8) : Draft := ⟨.replicate 24 0, [b], []⟩

def demoPackets : List Packet :=
  sendAll demoPrimitives demoSender [demoDraft 1, demoDraft 2, demoDraft 3]

/-- The third message comes first, and again after the first; then the second, and the
first once more. -/
def demoDeliveries : List (Fin demoPackets.length × Key) :=
  [(⟨2, by decide⟩, keyOfByte 10), (⟨0, by decide⟩, keyOfByte 11), (⟨2, by decide⟩, keyOfByte 12),
    (⟨1, by decide⟩, keyOfByte 13), (⟨0, by decide⟩, keyOfByte 14)]

theorem any_order_decrypts_demo :
    InWindow maxSkipKeys (len demoFresh.skippedKeys) []
        (demoDeliveries.map fun delivery => delivery.1.val) ∧
      outcomes demoPrimitives demoPackets demoFresh demoDeliveries
        = [.ok [3], .ok [1], .err "Message number is behind current chain position", .ok [2],
          .err "Message number is behind current chain position"] := by
  have hahead :=
    Network.start_ahead demoPrimitives_correct (keyOfByte 1) (keyOfByte 2) (keyOfByte 3)
    (keyOfByte 4)
  have hfaces : Faces demoPrimitives demoSender demoFresh :=
    faces_of_aheadAt demoPrimitives_correct hahead rfl rfl
  have hwindow : InWindow maxSkipKeys (len demoFresh.skippedKeys) []
      (demoDeliveries.map fun delivery => delivery.1.val) := by decide
  exact ⟨hwindow, (any_order_decrypts demoPrimitives_correct hfaces _ (by decide) demoDeliveries
    hwindow).trans (by decide +kernel)⟩

end

end Scm.Crypto
