import Kinetick.Js
import Mathlib.Algebra.Order.Floor.Ring
import Mathlib.Data.Rat.Floor

/-!
# Thread Goals

A Session has at most one Goal, an objective that outlives its Turns. What a Goal is, what may be
asked of the store that keeps it, and how numbers of callers are made counters.
-/

namespace Kinetick.Goal

inductive ThreadGoalStatus
  | active
  | paused
  | blocked
  | complete
  | budgetLimited
  | usageLimited
  deriving DecidableEq

inductive ThreadGoalBudgetDimension
  | token
  | mainTurn
  | activeTime
  deriving DecidableEq

/-- `status(detail)`: why a Goal has its status. -/
inductive ThreadGoalStatusReason
  | completeWorkerProposal
  | completeVerifierMet
  | completeUserRequested
  | pausedUserRequested
  | pausedRetracted
  | pausedInfraRetryable
  | pausedAccountingUnavailable
  | pausedVerifierUnavailable
  | pausedRouteUnavailable
  | pausedVerifierTimeout
  | pausedVerifierProtocol
  | pausedVerifierRuntime
  | pausedVerifierBudget
  | pausedVerifierCapability
  | pausedVerifierAborted
  | pausedNoProgress
  | pausedNoProgressAfterCompletionClaim
  | blockedWorkerReported
  | blockedSafetyPolicy
  | blockedVerifierImpossible
  | budgetLimited (dimension : ThreadGoalBudgetDimension)
  | usageLimitedProviderQuota
  | usageLimitedRateLimit
  deriving DecidableEq

inductive VerificationBackend
  | evaluator
  | subagent
  deriving DecidableEq

inductive VerificationVerdict
  | met
  | notMet
  | impossible
  | inconclusive
  deriving DecidableEq

/-- `LastVerificationV1` -/
structure LastVerification where
  backend : VerificationBackend
  verdict : VerificationVerdict
  reason : String
  missing : List String
  missingFingerprint : Option String
  notMetStreak : ℕ
  turnId : String
  objectiveDigest : String
  atMs : JsNumber
  deriving DecidableEq

inductive WorkerProposalType
  | complete
  | blocked
  deriving DecidableEq

/-- `LastWorkerProposalV1` -/
structure LastWorkerProposal where
  type : WorkerProposalType
  turnId : String
  summary : Option String
  atMs : ℤ
  deriving DecidableEq

/-- `ThreadGoalWorkerProposalInput` -/
structure WorkerProposalInput where
  type : WorkerProposalType
  turnId : String
  summary : Option String
  deriving DecidableEq

inductive ThreadGoalKickoffState
  | pending
  | enqueued
  | consumed
  deriving DecidableEq

inductive ThreadGoalWaitReason
  | questionnaire
  | permission
  | plan
  | requiredBackground
  | automationOwnerConflict
  | dependencyUnavailable
  | verification
  | unknown
  deriving DecidableEq

structure ThreadGoalExecutionWait where
  reason : ThreadGoalWaitReason
  sinceMs : ℤ
  deriving DecidableEq

inductive AttachmentType
  | file
  | image
  deriving DecidableEq

structure ThreadGoalAttachment where
  type : AttachmentType
  filePath : String
  fileName : String
  mimeType : String
  dataUrl : Option String := none
  assetId : Option String := none
  error : Option String := none
  deriving DecidableEq

structure ThreadGoalState where
  goalId : String
  sessionId : String
  objective : String
  objectiveResources : List ThreadGoalAttachment
  status : ThreadGoalStatus
  createdAt : ℤ
  updatedAt : ℤ
  tokensUsed : ℕ
  turnsUsed : ℕ
  timeUsedSeconds : ℕ
  tokenBudget : Option ℕ
  replyFingerprint : Option String
  noProgressStreak : ℕ
  noToolStreak : ℕ
  lastVerification : Option LastVerification
  lastWorkerProposal : Option LastWorkerProposal
  statusReason : Option ThreadGoalStatusReason
  kickoffAttachments : List ThreadGoalAttachment
  kickoffState : ThreadGoalKickoffState
  executionWait : Option ThreadGoalExecutionWait

/-! ### What is asked of the store -/

structure ThreadGoalCreateInput where
  sessionId : String
  objective : String
  tokenBudget : Option JsNumber
  kickoffAttachments : List ThreadGoalAttachment
  objectiveResources : List ThreadGoalAttachment

/-- Where a field may be absent and may be null, it is an option of an option. -/
structure ThreadGoalPatchInput where
  status : Option ThreadGoalStatus := none
  objective : Option String := none
  objectiveResources : Option (List ThreadGoalAttachment) := none
  tokenBudget : Option (Option JsNumber) := none
  statusReason : Option (Option ThreadGoalStatusReason) := none
  rejectIfCurrentStatus : Option ThreadGoalStatus := none
  rejectIfObjectiveChangedFrom : Option String := none
  rejectIfUpdatedAtChangedFrom : Option ℤ := none

structure ThreadGoalBoundUsageDelta where
  tokens : JsNumber
  activeSeconds : JsNumber
  mainTurns : Fin 2

structure ThreadGoalBudgetLimits where
  tokens : Option JsNumber
  mainTurns : Option JsNumber
  activeSeconds : Option JsNumber

structure GoalTurnBinding where
  goalId : String
  admittedGoalUpdatedAt : ℤ
  objectiveDigest : String
  turnId : String
  deriving DecidableEq

/-- A terminal decision: any status but active. -/
structure ThreadGoalDecision where
  status : ThreadGoalStatus
  statusReason : ThreadGoalStatusReason
  stops : status ≠ .active

structure ThreadGoalSettleBoundTurnInput where
  goalId : String
  expectedEpoch : ℤ
  objectiveDigest : String
  next : ThreadGoalDecision
  workerProposal : Option WorkerProposalInput

structure ThreadGoalRecordVerificationInput where
  goalId : String
  expectedEpoch : ℤ
  objectiveDigest : String
  result : LastVerification
  repeatedNotMetLimit : JsNumber
  workerProposal : Option WorkerProposalInput
  decision : Option ThreadGoalDecision

inductive ThreadGoalToolActivity
  | used
  | absent
  | unknown
  deriving DecidableEq

/-- The two reasons the breaker may pause a Goal for. -/
inductive NoProgressReason
  | noProgress
  | noProgressAfterCompletionClaim
  deriving DecidableEq

def NoProgressReason.statusReason : NoProgressReason → ThreadGoalStatusReason
  | noProgress => .pausedNoProgress
  | noProgressAfterCompletionClaim => .pausedNoProgressAfterCompletionClaim

structure ThreadGoalBreakerInput where
  expectedEpoch : ℤ
  fingerprint : Option String
  toolActivity : ThreadGoalToolActivity
  limit : JsNumber
  pauseReason : Option NoProgressReason

/-- `ThreadGoalBoundUsageStaleReason` and `ThreadGoalDecisionStaleReason` -/
inductive StaleReason
  | missingGoal
  | goalEpoch
  | objectiveDigest
  | goalStatus
  deriving DecidableEq

inductive ThreadGoalStoreError
  | notFound (goalId : String)
  | alreadyExists (existingGoalId : String)
  | statusConflict (goalId : String) (currentStatus : ThreadGoalStatus)
  | objectiveConflict (goalId expectedObjective currentObjective : String)
  | epochConflict (goalId : String) (expectedUpdatedAt currentUpdatedAt : ℤ)
  | tokenBudgetExhausted (goalId : String) (tokensUsed : ℕ) (tokenBudget : JsNumber)
  | budgetLimited (goalId : String)
  | guardedPatchMadeNoChange (goalId : String)
  | uniqueConstraint
  deriving DecidableEq

/-! ### Numbers of callers -/

/-- `numericOrZero` -/
def numericOrZero : JsNumber → ℕ
  | .finite q => ⌊q⌋.toNat
  | _ => 0

/-- `positiveOrNull` -/
def positiveOrNull : JsNumber → Option ℕ
  | .finite q => if q ≤ 0 then none else some ⌊q⌋.toNat
  | _ => none

/-- The whole number of times something may happen: `Number.isFinite(v) ? Math.max(least,
Math.floor(v)) : least` -/
def flooredAtLeast (least : ℕ) : JsNumber → ℕ
  | .finite q => max least ⌊q⌋.toNat
  | _ => least

/-- `positiveIntegerOrDefault` -/
def positiveIntegerOrDefault (value : JsNumber) (fallback : ℕ) : ℕ :=
  match value with
  | .finite q => if 0 < q then ⌊q⌋.toNat else fallback
  | _ => fallback

/-- A limit that is a positive number, and usage that has reached it. -/
def exceeds (usage : ℕ) (limit : Option JsNumber) : Bool :=
  match limit with
  | some (.finite q) => 0 < q && q ≤ usage
  | _ => false

end Kinetick.Goal
