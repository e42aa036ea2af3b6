import Scm.Core.Contacts
import Scm.Floats
import Scm.Store.Blocked

/-!
# Spam detection — `core/src/abuse/spam_detection.rs`

`detect_spam` weighs two things about a peer. One is heuristic: how often the peer has sent of
late, how often the same content, and how much of it to strangers; this is read from the
peer's own track. The other is called the community's judgement. It goes through our contacts
and counts those that are on our own block list, and compares the share with a threshold. The
peer that is being judged does not come into it (`community`): every peer gets the same
verdict.

So blocking somebody can change what is found about everybody else (`detectSpam_eq_iff`).

Floating-point arithmetic is a parameter (`FloatOps`): no result here rests on how it rounds.
Instants are nanoseconds. The accumulator of signals, which nothing reads, is left out.
-/

namespace Scm.Abuse

open Collections Scm.Core Floats

inductive SpamSignal where
  | communityBlocked
  | contentPattern
  | flooding
  | massDistribution
  | coldContactSpam
  deriving DecidableEq, Repr

/-- `SpamDetectionConfig`, as far as `detect_spam` reads it. -/
structure SpamDetectionConfig (F : Type) where
  minContactsForDetection : Nat
  smallNetworkSpamThreshold : F
  largeNetworkSpamThreshold : F
  minSpamThreshold : F
  massDistributionRepeatThreshold : Nat
  floodingWindowSecs : Nat
  floodingMaxInWindow : Nat
  coldContactThreshold : F
  deriving DecidableEq, Repr

structure SpamDetectionResult (F : Type) where
  isSpam : Bool
  confidence : F
  totalContacts : Nat
  blockedByCount : Nat
  blockPercentage : F
  contributingSignals : List SpamSignal
  deriving DecidableEq, Repr

structure PeerMessageTrack where
  contentFingerprints : AList fun _ : UInt64 => Nat
  recentMessageTimes : List Nat
  coldContactSends : Nat
  totalSends : Nat

/-- `SpamDetectionEngine`; the managers are what they hold at the moment. -/
structure SpamDetectionEngine (F : Type) where
  config : SpamDetectionConfig F
  contactManager : Option ContactManager
  blockedManager : Option BlockedStore
  peerTracks : AList fun _ : String => PeerMessageTrack

/-- `blocked_only_peer_ids`. -/
def blockedOnlyPeerIds (blocked : BlockedManager) : List String :=
  ((blocked.entries.map Sigma.snd).filter fun entry => !entry.isDeleted).map BlockedIdentity.peerId

/-- The test `detect_spam` makes of a contact. -/
def onBlockList (blocked : BlockedStore) (peerId : String) : Bool :=
  decide (peerId ∈ blockedOnlyPeerIds blocked.entries) || isBlocked blocked.entries peerId none

/-- How many contacts are on the block list. -/
def blockedContacts (contacts : ContactManager) (blocked : BlockedStore) : Nat :=
  contacts.list.countP fun contact => onBlockList blocked contact.peerId

section
variable {F : Type} (A : FloatOps F)

/-- `SpamDetectionConfig::default`. -/
def SpamDetectionConfig.default : SpamDetectionConfig F where
  minContactsForDetection := 3
  smallNetworkSpamThreshold := A.lit (3 / 4)
  largeNetworkSpamThreshold := A.lit (1 / 10)
  minSpamThreshold := A.lit (1 / 10)
  massDistributionRepeatThreshold := 5
  floodingWindowSecs := 60
  floodingMaxInWindow := 30
  coldContactThreshold := A.lit (4 / 5)

/-- The effective threshold for a number of contacts. -/
def effectiveThreshold (config : SpamDetectionConfig F) (totalContacts : Nat) : F :=
  A.max
    (if totalContacts < 10 then config.smallNetworkSpamThreshold
      else config.largeNetworkSpamThreshold)
    config.minSpamThreshold

/-- What the community part of `detect_spam` computes: contacts, blocked ones, and their
share. -/
def community (engine : SpamDetectionEngine F) : Nat × Nat × F :=
  match engine.contactManager, engine.blockedManager with
  | some contacts, some blocked =>
    let totalContacts := contacts.list.length
    if totalContacts ≥ engine.config.minContactsForDetection then
      let blockedByCount := blockedContacts contacts blocked
      (totalContacts, blockedByCount,
        if totalContacts = 0 then A.lit 0
        else A.div (A.ofNat blockedByCount) (A.ofNat totalContacts))
    else (totalContacts, 0, A.lit 0)
  | _, _ => (0, 0, A.lit 0)

/-- `CommunityBlocked` is signalled. -/
def communitySignals (engine : SpamDetectionEngine F) : List SpamSignal :=
  match engine.contactManager, engine.blockedManager with
  | some contacts, some _ =>
    let totalContacts := contacts.list.length
    if totalContacts ≥ engine.config.minContactsForDetection then
      if A.le (effectiveThreshold A engine.config totalContacts) (community A engine).2.2 then
        [.communityBlocked]
      else []
    else []
  | _, _ => []

/-- The signals from a peer's own track. -/
def heuristicSignals (config : SpamDetectionConfig F) (now : Nat) (track : PeerMessageTrack) :
    List SpamSignal :=
  let recentCount := track.recentMessageTimes.countP fun t =>
    now - t < config.floodingWindowSecs * 1000000000
  let maxRepeats := (track.contentFingerprints.entries.map Sigma.snd).foldl Nat.max 0
  let coldRatio := A.div (A.ofNat track.coldContactSends) (A.ofNat track.totalSends)
  (if recentCount ≥ config.floodingMaxInWindow then [.flooding] else []) ++
  (if maxRepeats ≥ config.massDistributionRepeatThreshold then [.massDistribution] else []) ++
  (if track.totalSends > 0 ∧ A.le config.coldContactThreshold coldRatio = true ∧
      track.totalSends ≥ 5 then [.coldContactSpam] else [])

/-- `detect_spam`. -/
def detectSpam (engine : SpamDetectionEngine F) (now : Nat) (peerId : String) :
    SpamDetectionResult F :=
  let found := community A engine
  let totalContacts := found.1
  let blockPercentage := found.2.2
  let signals := communitySignals A engine ++
    match engine.peerTracks.lookup peerId with
    | some track => heuristicSignals A engine.config now track
    | none => []
  let threshold := effectiveThreshold A engine.config totalContacts
  let communityConfidence :=
    if A.lt (A.lit 0) blockPercentage then
      if A.le threshold blockPercentage then A.min (A.div blockPercentage threshold) (A.lit 1)
      else A.lit 0
    else A.lit 0
  let heuristicConfidence :=
    A.mul (A.ofNat (signals.countP fun signal => signal ≠ .communityBlocked)) (A.lit (3 / 10))
  { isSpam := !signals.isEmpty
    confidence := A.min (A.add communityConfidence heuristicConfidence) (A.lit 1)
    totalContacts := totalContacts
    blockedByCount := found.2.1
    blockPercentage := blockPercentage
    contributingSignals := signals }

/-- `spam_score`. -/
def spamScore (engine : SpamDetectionEngine F) (now : Nat) (peerId : String) : F :=
  let result := detectSpam A engine now peerId
  if result.isSpam then result.confidence else A.lit 0

end

/-! ## Another block list -/

section
variable {F : Type} (A : FloatOps F) (engine : SpamDetectionEngine F)

/-- The engine when its block list has been changed. -/
def SpamDetectionEngine.withBlocks (change : BlockedStore → BlockedStore) : SpamDetectionEngine F :=
  { engine with blockedManager := engine.blockedManager.map change }

/-- The number of blocked contacts is used, and the change changes it. -/
def CountChanges (change : BlockedStore → BlockedStore) : Prop :=
  ∃ contacts blocked, engine.contactManager = some contacts ∧ engine.blockedManager = some blocked ∧
    engine.config.minContactsForDetection ≤ contacts.list.length ∧
    blockedContacts contacts (change blocked) ≠ blockedContacts contacts blocked

variable {A}

theorem blockedByCount_detectSpam {contacts : ContactManager} {blocked : BlockedStore}
    (hcontacts : engine.contactManager = some contacts)
    (hblocked : engine.blockedManager = some blocked)
    (henough : engine.config.minContactsForDetection ≤ contacts.list.length) (now : Nat)
    (peerId : String) :
    (detectSpam A engine now peerId).blockedByCount = blockedContacts contacts blocked := by
  show (community A engine).2.1 = _
  rw [community, hcontacts, hblocked]
  dsimp only
  rw [if_pos henough]

variable {engine} {change : BlockedStore → BlockedStore}

theorem community_withBlocks (h : ¬ CountChanges engine change) :
    community A (engine.withBlocks change) = community A engine := by
  unfold community SpamDetectionEngine.withBlocks
  cases hcontacts : engine.contactManager with
  | none => cases engine.blockedManager <;> rfl
  | some contacts =>
    cases hblocked : engine.blockedManager with
    | none => rfl
    | some blocked =>
      dsimp only [Option.map_some]
      by_cases henough : contacts.list.length ≥ engine.config.minContactsForDetection
      · have hcount :
            blockedContacts contacts (change blocked) = blockedContacts contacts blocked := by
          by_contra hne
          exact h ⟨contacts, blocked, hcontacts, hblocked, henough, hne⟩
        rw [if_pos henough, if_pos henough, hcount]
      · rw [if_neg henough, if_neg henough]

theorem communitySignals_withBlocks (h : ¬ CountChanges engine change) :
    communitySignals A (engine.withBlocks change) = communitySignals A engine := by
  have hfound := community_withBlocks (A := A) h
  unfold communitySignals
  rw [hfound]
  dsimp only [SpamDetectionEngine.withBlocks]
  cases engine.contactManager with
  | none => cases engine.blockedManager <;> rfl
  | some contacts => cases engine.blockedManager <;> rfl

/-- **A change of the block list shows in the result for a peer** exactly when it changes the
number of blocked contacts, and there are enough contacts for it to be used. Which peer it is
makes no difference. -/
theorem detectSpam_eq_iff (now : Nat) (peerId : String) :
    detectSpam A (engine.withBlocks change) now peerId = detectSpam A engine now peerId ↔
      ¬ CountChanges engine change := by
  constructor
  · rintro h ⟨contacts, blocked, hcontacts, hblocked, henough, hne⟩
    have hcount := congrArg SpamDetectionResult.blockedByCount h
    have hafter : (engine.withBlocks change).blockedManager = some (change blocked) := by
      rw [SpamDetectionEngine.withBlocks, hblocked, Option.map_some]
    rw [blockedByCount_detectSpam engine hcontacts hblocked henough,
      blockedByCount_detectSpam (engine.withBlocks change) hcontacts hafter henough] at hcount
    exact hne hcount
  · intro h
    have hsignals := communitySignals_withBlocks (A := A) h
    rw [detectSpam, community_withBlocks h, hsignals]
    rfl

end

end Scm.Abuse
