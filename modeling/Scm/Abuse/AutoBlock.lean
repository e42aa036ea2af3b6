import Scm.Abuse.SpamDetection

/-!
# Automatic blocking — `core/src/abuse/{reputation,auto_block}.rs`

`evaluate_and_block` blocks a peer whose reputation is low or whose spam score is high. The
score is `detect_spam`'s, and with it comes the count of our own blocked contacts: each peer
that the user blocks moves every other peer towards being blocked as well
(`blocking_others_iff`).

The block list is shared: a change of it is seen by the detector and by this engine. Of a
peer's reputation only the score is kept, as nothing else is read. Backends do not fail.
-/

namespace Scm.Abuse

open Collections Scm.Core Floats

/-- `EnhancedAbuseReputationManager`; the base manager as its scores. -/
structure EnhancedAbuseReputationManager (F : Type) where
  baseManager : AList fun _ : String => F
  spamDetector : SpamDetectionEngine F

structure EnhancedReputationScore (F : Type) where
  baseScore : F
  spamConfidence : F
  isCommunityFlagged : Bool
  deriving DecidableEq, Repr

structure AutoBlockConfig (F : Type) where
  reputationThreshold : F
  spamConfidenceThreshold : F
  enabled : Bool
  exemptPeerIds : List String
  maxAuditEntries : Nat
  deriving DecidableEq, Repr

inductive AutoBlockReason where
  | lowReputation
  | highSpamConfidence
  | combinedAbuse
  deriving DecidableEq, Repr

structure AutoBlockAuditEntry (F : Type) where
  peerId : String
  reason : AutoBlockReason
  reputationScore : F
  spamConfidence : F
  timestampSecs : Nat
  wasAutomatic : Bool
  deriving DecidableEq, Repr

structure AutoBlockResult (F : Type) where
  shouldBlock : Bool
  reason : Option AutoBlockReason
  reputationScore : F
  spamConfidence : F
  deriving DecidableEq, Repr

structure AutoBlockEngine (F : Type) where
  config : AutoBlockConfig F
  blockedManager : BlockedStore
  reputationManager : EnhancedAbuseReputationManager F
  auditLog : List (AutoBlockAuditEntry F)

section
variable {F : Type} (A : FloatOps F)

/-- `AutoBlockConfig::default`. -/
def AutoBlockConfig.default : AutoBlockConfig F where
  reputationThreshold := A.lit 10
  spamConfidenceThreshold := A.lit (4 / 5)
  enabled := true
  exemptPeerIds := []
  maxAuditEntries := 1024

/-- `get_score`; an unknown peer is neutral. -/
def EnhancedAbuseReputationManager.getScore (manager : EnhancedAbuseReputationManager F)
    (peerId : String) : F :=
  (manager.baseManager.lookup peerId).getD (A.lit 50)

/-- `get_enhanced_score`. -/
def EnhancedAbuseReputationManager.getEnhancedScore (manager : EnhancedAbuseReputationManager F)
    (now : Nat) (peerId : String) : EnhancedReputationScore F :=
  let spam := spamScore A manager.spamDetector now peerId
  { baseScore := manager.getScore A peerId
    spamConfidence := spam
    isCommunityFlagged := A.lt (A.lit (1 / 2)) spam }

/-- `overall_score`. -/
def EnhancedReputationScore.overallScore (score : EnhancedReputationScore F) : F :=
  A.mul score.baseScore (A.sub (A.lit 1) (A.mul score.spamConfidence (A.lit (4 / 5))))

namespace AutoBlockEngine

/-- A change of the block list, which the detector shares. -/
def withBlocks (engine : AutoBlockEngine F) (change : BlockedStore → BlockedStore) :
    AutoBlockEngine F :=
  { engine with
    blockedManager := change engine.blockedManager
    reputationManager := { engine.reputationManager with
      spamDetector := engine.reputationManager.spamDetector.withBlocks change } }

/-- `evaluate`. -/
def evaluate (engine : AutoBlockEngine F) (now : Nat) (peerId : String) : AutoBlockResult F :=
  if !engine.config.enabled then ⟨false, none, A.lit 0, A.lit 0⟩
  else
    let enhanced := engine.reputationManager.getEnhancedScore A now peerId
    let overall := enhanced.overallScore A
    if peerId ∈ engine.config.exemptPeerIds then ⟨false, none, overall, A.lit 0⟩
    else
      let lowRep := A.lt overall engine.config.reputationThreshold
      let highSpam := A.le engine.config.spamConfidenceThreshold enhanced.spamConfidence
      let (shouldBlock, reason) :=
        if lowRep && highSpam then (true, some .combinedAbuse)
        else if lowRep then (true, some .lowReputation)
        else if highSpam then (true, some .highSpamConfidence)
        else (false, none)
      ⟨shouldBlock, reason, overall, enhanced.spamConfidence⟩

/-- `evaluate_and_block` at `seconds` of the wall clock. -/
def evaluateAndBlock (engine : AutoBlockEngine F) (now seconds : Nat) (peerId : String) :
    Bool × AutoBlockEngine F :=
  let result := engine.evaluate A now peerId
  if !result.shouldBlock then (false, engine)
  else
    let entry : AutoBlockAuditEntry F :=
      { peerId := peerId
        reason := result.reason.getD .combinedAbuse
        reputationScore := result.reputationScore
        spamConfidence := result.spamConfidence
        timestampSecs := seconds
        wasAutomatic := true }
    let audit := engine.auditLog ++ [entry]
    (true,
      { engine.withBlocks fun blocked => blocked.block (.new seconds peerId) with
        auditLog := audit.drop (audit.length - engine.config.maxAuditEntries) })

end AutoBlockEngine

end

/-! ## Two runs -/

section
variable {F : Type} (A : FloatOps F) (engine : AutoBlockEngine F)

theorem evaluateAndBlock_fst (now seconds : Nat) (peerId : String) :
    (engine.evaluateAndBlock A now seconds peerId).1
      = (engine.evaluate A now peerId).shouldBlock := by
  unfold AutoBlockEngine.evaluateAndBlock
  cases h : (engine.evaluate A now peerId).shouldBlock <;> simp [h]

variable {engine} {change : BlockedStore → BlockedStore}

/-- With the same spam score for the peer, the evaluation is the same. -/
theorem evaluate_withBlocks {now : Nat} {peerId : String}
    (h : detectSpam A (engine.reputationManager.spamDetector.withBlocks change) now peerId
      = detectSpam A engine.reputationManager.spamDetector now peerId) :
    (engine.withBlocks change).evaluate A now peerId = engine.evaluate A now peerId := by
  have hscore : (engine.withBlocks change).reputationManager.getEnhancedScore A now peerId
      = engine.reputationManager.getEnhancedScore A now peerId := by
    unfold EnhancedAbuseReputationManager.getEnhancedScore spamScore
    dsimp only [AutoBlockEngine.withBlocks]
    rw [h]
    rfl
  unfold AutoBlockEngine.evaluate
  rw [hscore]
  rfl

/-- **What blocking a peer does to the others.** Take any engine, whatever its contacts, block
list, tracks and scores, any peer, and any call on the block list. The call leaves the peer's
spam detection result and the answer of `evaluate_and_block` for the peer as they were, if and
only if the number of blocked contacts does not change or is not used. Whom the call is about
makes no difference. -/
theorem blocking_others_iff (engine : AutoBlockEngine F) (call : BlockedCall) (p : String)
    (now seconds : Nat) :
    (detectSpam A (engine.withBlocks (·.step call)).reputationManager.spamDetector now p
        = detectSpam A engine.reputationManager.spamDetector now p ∧
      ((engine.withBlocks (·.step call)).evaluateAndBlock A now seconds p).1
        = (engine.evaluateAndBlock A now seconds p).1) ↔
      ¬ CountChanges engine.reputationManager.spamDetector (·.step call) := by
  refine ⟨fun h => (detectSpam_eq_iff now p).mp h.1, fun h => ?_⟩
  have hsame := (detectSpam_eq_iff (A := A) now p).mpr h
  refine ⟨hsame, ?_⟩
  simp only [evaluateAndBlock_fst, evaluate_withBlocks A hsame]

end

/-! ## Three contacts -/

def contactNamed (peerId : String) : ContactRecord where
  lastKnownDeviceId := none
  peerId := peerId
  nickname := none
  localNickname := none
  publicKey := ""
  addedAt := 0
  lastSeen := none
  notes := none

def contactsABQ : ContactManager :=
  ["q", "b", "a"].foldl (fun contacts peerId => contacts.add (contactNamed peerId)) ∅

/-- Contacts `a`, `b` and `q`, of which the user has blocked `a` and `b`; nothing is known of
anybody else. The configurations are the default ones. -/
def threeContacts : AutoBlockEngine ℚ where
  config := .default exact
  blockedManager := (BlockedStore.new.block (.new 1 "a")).block (.new 2 "b")
  reputationManager :=
    { baseManager := ∅
      spamDetector :=
        { config := .default exact
          contactManager := some contactsABQ
          blockedManager := some ((BlockedStore.new.block (.new 1 "a")).block (.new 2 "b"))
          peerTracks := ∅ } }
  auditLog := []

/-- The user blocks `q`, and with that `p`, who has done nothing, is blocked automatically. -/
theorem blocked_with_the_others :
    (threeContacts.evaluateAndBlock exact 0 3 "p").1 = false ∧
      ((threeContacts.withBlocks (·.step (.block (.new 3 "q")))).evaluateAndBlock exact 0 3 "p").1
        = true := by
  have hlist : contactsABQ.list = [contactNamed "a", contactNamed "b", contactNamed "q"] :=
    List.mergeSort_of_pairwise (by decide +kernel)
  simp only [evaluateAndBlock_fst]
  simp only [AutoBlockEngine.evaluate, AutoBlockEngine.withBlocks,
    EnhancedAbuseReputationManager.getEnhancedScore, spamScore, detectSpam, community,
    communitySignals, blockedContacts, threeContacts, SpamDetectionEngine.withBlocks, hlist,
    Option.map_some]
  decide +kernel

end Scm.Abuse
