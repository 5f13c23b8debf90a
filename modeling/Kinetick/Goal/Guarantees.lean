import Kinetick.Goal.Writers
import Kinetick.Machine

/-!
# The lifecycle of a Goal

The store as a machine over its operations, in any order and with any reading of the clock, and
what every run of them keeps.

A run is admissible if a new Goal's id was given to no Goal before and no patch sets an empty
objective. The lifecycle holds along the runs that are guarded besides: no patch moves a complete
Goal, or one whose budget is spent, to a status it may be made active from, and no patch that makes
a limited Goal active has a budget that is not above what was used once it is rounded.
-/

namespace Kinetick.Goal

inductive StoreEvent
  | create (input : ThreadGoalCreateInput) (goalId : String) (now : ℤ)
  | patch (goalId : String) (input : ThreadGoalPatchInput) (now : ℤ)
  | pauseActiveBySession (sessionId : String) (statusReason : ThreadGoalStatusReason) (now : ℤ)
  | transitionActiveAtEpoch (goalId : String) (expectedEpoch : ℤ) (input : AdmissionStop) (now : ℤ)
  | resetBreakerAtEpoch (goalId : String) (expectedEpoch : ℤ) (now : ℤ)
  | bumpBoundUsage (binding : GoalTurnBinding) (delta : ThreadGoalBoundUsageDelta)
      (limits : ThreadGoalBudgetLimits) (now : ℤ)
  | settleBoundTurn (input : ThreadGoalSettleBoundTurnInput) (now : ℤ)
  | updateBreaker (goalId : String) (input : ThreadGoalBreakerInput) (now : ℤ)
  | recordVerification (input : ThreadGoalRecordVerificationInput) (now : ℤ)
  | setExecutionWaitAtEpoch (goalId : String) (expectedUpdatedAt : ℤ)
      (reason : ThreadGoalWaitReason) (now : ℤ)
  | clearExecutionWaitAtEpoch (goalId : String) (expectedUpdatedAt : ℤ)
  | transitionKickoffState (goalId : String) (expected next : ThreadGoalKickoffState)

/-- The Goal and the epoch an operation is bound to. -/
def StoreEvent.bound : StoreEvent → Option (String × ℤ)
  | transitionActiveAtEpoch goalId expectedEpoch _ _ => some (goalId, expectedEpoch)
  | resetBreakerAtEpoch goalId expectedEpoch _ => some (goalId, expectedEpoch)
  | settleBoundTurn input _ => some (input.goalId, input.expectedEpoch)
  | updateBreaker goalId input _ => some (goalId, input.expectedEpoch)
  | recordVerification input _ => some (input.goalId, input.expectedEpoch)
  | setExecutionWaitAtEpoch goalId expectedUpdatedAt _ _ => some (goalId, expectedUpdatedAt)
  | clearExecutionWaitAtEpoch goalId expectedUpdatedAt => some (goalId, expectedUpdatedAt)
  | _ => none

/-- The table, and every id a Goal was created under. -/
structure GoalStore where
  table : GoalTable
  issued : List String

/-- The Goals the store answers. -/
def GoalStore.goals (s : GoalStore) : List ThreadGoalState :=
  s.table.rows.filterMap rowToThreadGoalState

variable (digest : String → String) (fingerprint : List String → String)

/-- What an operation makes of the table, whether it answers or throws. -/
def StoreEvent.apply (db : GoalTable) : StoreEvent → GoalTable
  | create input goalId now => (Goal.create input goalId now db).2
  | patch goalId input now => (patchThreadGoal goalId input now db).2
  | pauseActiveBySession sessionId reason now => (Goal.pauseActiveBySession sessionId reason now db).2
  | transitionActiveAtEpoch goalId expectedEpoch input now =>
    (Goal.transitionActiveAtEpoch goalId expectedEpoch input now db).2
  | resetBreakerAtEpoch goalId expectedEpoch now =>
    (Goal.resetBreakerAtEpoch goalId expectedEpoch now db).2
  | bumpBoundUsage binding delta limits now =>
    (bumpThreadGoalBoundUsage digest binding delta limits now db).2
  | settleBoundTurn input now => (settleThreadGoalBoundTurn digest input now db).2
  | updateBreaker goalId input now => (updateThreadGoalBreaker goalId input now db).2
  | recordVerification input now =>
    (recordThreadGoalVerification digest fingerprint input now db).2
  | setExecutionWaitAtEpoch goalId expectedUpdatedAt reason now =>
    (setThreadGoalExecutionWait goalId expectedUpdatedAt reason now db).2
  | clearExecutionWaitAtEpoch goalId expectedUpdatedAt =>
    (clearThreadGoalExecutionWait goalId expectedUpdatedAt db).2
  | transitionKickoffState goalId expected next =>
    (Goal.transitionKickoffState goalId expected next db).2

/-- The ids given to Goals once an operation ran. -/
def StoreEvent.issue (issued : List String) : StoreEvent → List String
  | create _ goalId _ => goalId :: issued
  | _ => issued

def storeMachine : Machine GoalStore StoreEvent Unit where
  initial := ⟨.empty _, []⟩
  step s e := (⟨e.apply digest fingerprint s.table, e.issue s.issued⟩, ())

/-! ### Runs -/

/-- A new Goal has an id of its own, and a patched objective is not empty. -/
def Admissible (s : GoalStore) : StoreEvent → Prop
  | .create _ goalId _ => goalId ∉ s.issued
  | .patch _ input _ => input.objective ≠ some ""
  | _ => True

/-- Once rounded, a budget above what was used is a budget, and still above it. -/
def StaysAbove (tokensUsed : ℕ) (budget : JsNumber) : Prop :=
  JsNumber.lt (.finite tokensUsed) budget = true →
    ∃ limit, positiveOrNull budget = some limit ∧ tokensUsed < limit

/-- A patch leaves a complete Goal complete and a limited one limited, complete, or active with a
budget that stays above what was used. -/
def Guarded (s : GoalStore) : StoreEvent → Prop
  | .patch goalId input _ => ∀ g ∈ s.goals, g.goalId = goalId →
      (g.status = .complete → ∀ status, input.status = some status →
        status = .complete ∨ status = .active) ∧
      (g.status = .budgetLimited → ∀ status, input.status = some status →
        status = .complete ∨ status = .budgetLimited ∨ status = .active ∧
          ∀ budget, input.tokenBudget = some (some budget) → StaysAbove g.tokensUsed budget)
  | _ => True

/-! ### The lifecycle -/

/-- What two readings of one Goal agree on as long as its epoch is the same. -/
structure Unmoved (g g' : ThreadGoalState) : Prop where
  status : g'.status = g.status
  statusReason : g'.statusReason = g.statusReason
  objective : g'.objective = g.objective
  objectiveResources : g'.objectiveResources = g.objectiveResources
  tokenBudget : g'.tokenBudget = g.tokenBudget
  replyFingerprint : g'.replyFingerprint = g.replyFingerprint
  noProgressStreak : g'.noProgressStreak = g.noProgressStreak
  noToolStreak : g'.noToolStreak = g.noToolStreak
  lastVerification : g'.lastVerification = g.lastVerification

/-- What one operation may make of a Goal. -/
structure Evolves (g g' : ThreadGoalState) : Prop where
  sessionId : g'.sessionId = g.sessionId
  tokensUsed : g.tokensUsed ≤ g'.tokensUsed
  turnsUsed : g.turnsUsed ≤ g'.turnsUsed
  timeUsedSeconds : g.timeUsedSeconds ≤ g'.timeUsedSeconds
  updatedAt : g.updatedAt ≤ g'.updatedAt
  unmoved : g'.updatedAt = g.updatedAt → Unmoved g g'

/-- A patch of a Goal limited by its tokens that leaves it active, and without a budget at the
caller's request or with one above what was used. -/
def Rearms (s : GoalStore) (e : StoreEvent) (goalId : String) : Prop :=
  ∃ input now, e = .patch goalId input now ∧
    (∃ g ∈ s.goals, g.goalId = goalId ∧ g.status = .budgetLimited ∧
      g.statusReason = some (.budgetLimited .token)) ∧
    ∃ g' ∈ ((storeMachine digest fingerprint).step s e).1.goals, g'.goalId = goalId ∧
      g'.status = .active ∧
      (input.tokenBudget = some none ∧ g'.tokenBudget = none ∨
        ∃ budget, g'.tokenBudget = some budget ∧ g'.tokensUsed < budget)

/-- What holds of one operation. -/
structure Lawful (s : GoalStore) (e : StoreEvent) : Prop where
  /-- A Session has one Goal. -/
  single : ∀ g ∈ ((storeMachine digest fingerprint).step s e).1.goals,
    ∀ g' ∈ ((storeMachine digest fingerprint).step s e).1.goals,
      g.sessionId = g'.sessionId → g = g'
  /-- An unfinished Goal is not replaced. -/
  kept : ∀ g ∈ s.goals, g.status ≠ .complete →
    ∃ g' ∈ ((storeMachine digest fingerprint).step s e).1.goals, g'.goalId = g.goalId ∧
      g'.sessionId = g.sessionId
  evolves : ∀ g ∈ s.goals, ∀ g' ∈ ((storeMachine digest fingerprint).step s e).1.goals,
    g'.goalId = g.goalId → Evolves g g'
  /-- What is bound to an epoch changes nothing unless the Goal is active at it. -/
  bound : ∀ goalId epoch, e.bound = some (goalId, epoch) →
    (∀ g ∈ s.goals, g.goalId = goalId → g.updatedAt = epoch → g.status ≠ .active) →
    ((storeMachine digest fingerprint).step s e).1.table.rows.filterMap rowToThreadGoalState =
      s.goals
  /-- A patch guarded by an epoch changes nothing unless the Goal is at it. -/
  guardedPatch : ∀ goalId input now epoch, e = .patch goalId input now →
    input.rejectIfUpdatedAtChangedFrom = some epoch →
    (∀ g ∈ s.goals, g.goalId = goalId → g.updatedAt ≠ epoch) →
    ((storeMachine digest fingerprint).step s e).1.table = s.table

/-- The lifecycle along a run: each operation is lawful, a complete Goal is never active again and
a limited one only after a patch that rearms it. -/
structure Lifecycle (es : List StoreEvent) : Prop where
  lawful : (storeMachine digest fingerprint).Along (Lawful digest fingerprint)
    (storeMachine digest fingerprint).initial es
  final : ∀ before during, es = before ++ during →
    ∀ g ∈ ((storeMachine digest fingerprint).after
        (storeMachine digest fingerprint).initial before).goals,
    ∀ g' ∈ ((storeMachine digest fingerprint).after
        (storeMachine digest fingerprint).initial es).goals,
      g'.goalId = g.goalId →
      (g.status = .complete → g'.status ≠ .active) ∧
      (g.status = .budgetLimited → g'.status = .active → ∃ sooner e later,
        during = sooner ++ e :: later ∧
        Rearms digest fingerprint ((storeMachine digest fingerprint).after
          (storeMachine digest fingerprint).initial (before ++ sooner)) e g.goalId)

end Kinetick.Goal

/-!
## What the operations of the store answer

The Goal an operation answers, which several build beside their write instead of reading it back,
and what is read of it right after.
-/

namespace Kinetick.Goal

/-- The Goal a decision answers, settled or stale. -/
def ThreadGoalDecisionResult.goal : ThreadGoalDecisionResult → Option ThreadGoalState
  | settled goal _ => some goal
  | stale _ goal => goal

def ThreadGoalBreakerResult.goal : ThreadGoalBreakerResult → Option ThreadGoalState
  | acted _ goal _ _ => some goal
  | stale _ goal => goal

/-- What was answered, if nothing was thrown. -/
def answered {α : Type} (result : Except ThreadGoalStoreError α × GoalTable) : Option α :=
  result.1.toOption

section Answer

variable (digest : String → String) (fingerprint : List String → String)

def StoreEvent.answer (db : GoalTable) : StoreEvent → Option ThreadGoalState
  | create input goalId now => answered (Goal.create input goalId now db)
  | patch goalId input now => answered (patchThreadGoal goalId input now db)
  | pauseActiveBySession sessionId reason now =>
    (answered (Goal.pauseActiveBySession sessionId reason now db)).join
  | transitionActiveAtEpoch goalId expectedEpoch input now =>
    (answered (Goal.transitionActiveAtEpoch goalId expectedEpoch input now db)).join
  | resetBreakerAtEpoch goalId expectedEpoch now =>
    (answered (Goal.resetBreakerAtEpoch goalId expectedEpoch now db)).join
  | bumpBoundUsage binding delta limits now =>
    (answered (bumpThreadGoalBoundUsage digest binding delta limits now db)).bind (·.goal)
  | settleBoundTurn input now =>
    (answered (settleThreadGoalBoundTurn digest input now db)).bind (·.goal)
  | updateBreaker goalId input now =>
    (answered (updateThreadGoalBreaker goalId input now db)).bind (·.goal)
  | recordVerification input now =>
    (answered (recordThreadGoalVerification digest fingerprint input now db)).bind (·.goal)
  | setExecutionWaitAtEpoch goalId expectedUpdatedAt reason now =>
    (answered (setThreadGoalExecutionWait goalId expectedUpdatedAt reason now db)).join
  | clearExecutionWaitAtEpoch goalId expectedUpdatedAt =>
    (answered (clearThreadGoalExecutionWait goalId expectedUpdatedAt db)).join
  | transitionKickoffState goalId expected next =>
    (answered (Goal.transitionKickoffState goalId expected next db)).join

/-- An operation that answers a Goal. -/
inductive StoreOperation
  | write (event : StoreEvent)
  | getById (goalId : String)
  | getBySession (sessionId : String)

def StoreOperation.answer (db : GoalTable) : StoreOperation → Option ThreadGoalState
  | write event => event.answer digest fingerprint db
  | getById goalId => (answered (Goal.getById goalId db)).join
  | getBySession sessionId => (answered (Goal.getBySession sessionId db)).join

/-- The table an operation leaves. -/
def StoreOperation.after (db : GoalTable) : StoreOperation → GoalTable
  | write event => event.apply digest fingerprint db
  | _ => db

end Answer

/-- The objective of an input is not empty. -/
def StoreOperation.HasObjective : StoreOperation → Prop
  | write (.create input _ _) => input.objective ≠ ""
  | write (.patch _ input _) => input.objective ≠ some ""
  | _ => True

/-- A budget that is positive, and zero once it is rounded. -/
def BelowOne (budget : Option JsNumber) : Prop := ∃ q : ℚ, budget = some (.finite q) ∧ 0 < q ∧ q < 1

/-- A proposal is decided on at a time that is read back. -/
def DatedProposal (workerProposal : Option WorkerProposalInput) (expectedEpoch now : ℤ) : Prop :=
  workerProposal.isSome → 0 ≤ max now (expectedEpoch + 1)

/-- No budget is rounded to zero; a new Goal has ids; and what a decision that is not stale stores
as JSON has times its reader takes. -/
def StoreOperation.ReadsBack (digest : String → String) (db : GoalTable) : StoreOperation → Prop
  | write (.create input goalId _) =>
    ¬ BelowOne input.tokenBudget ∧ goalId ≠ "" ∧ input.sessionId ≠ ""
  | write (.patch _ input _) => ¬ BelowOne input.tokenBudget.join
  | write (.settleBoundTurn input now) =>
    classifyThreadGoalBindingStale digest
        ((db.rows.find? (·.goalId = input.goalId)).bind rowToThreadGoalState)
        input.expectedEpoch input.objectiveDigest = none →
      DatedProposal input.workerProposal input.expectedEpoch now
  | write (.recordVerification input now) =>
    classifyThreadGoalBindingStale digest
        ((db.rows.find? (·.goalId = input.goalId)).bind rowToThreadGoalState)
        input.expectedEpoch input.objectiveDigest = none →
      input.result.isValid = true ∧
        DatedProposal input.workerProposal input.expectedEpoch now
  | _ => True

end Kinetick.Goal
