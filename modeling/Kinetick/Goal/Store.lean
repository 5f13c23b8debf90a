import Kinetick.Effect
import Kinetick.Goal.Types
import Kinetick.Table

/-!
# The store of thread Goals

The table `local_runtime_thread_goals` and the operations of `SqliteThreadGoalStore` on it. Each
runs in one go: nothing comes between its read and its write, and in a transaction what throws
leaves the table. `updated_at_ms` is the decision epoch an operation may be bound to.

A column holds what its reader makes of it; `none` in `status` is a text that is no status. The
clock is read once by each operation that reads it. Counters are whole numbers, which doubles add
exactly up to 2^53. `digest` stands for the sha256 of an objective, `fingerprint` for that of a
list of gaps.
-/

namespace Kinetick.Goal

structure ThreadGoalDbRow where
  goalId : String
  sessionId : String
  objective : String
  status : Option ThreadGoalStatus
  createdAtMs : ℤ
  updatedAtMs : ℤ
  tokensUsed : ℕ := 0
  turnsUsed : ℕ := 0
  timeUsedSeconds : ℕ := 0
  tokenBudget : Option ℕ
  kickoffAttachments : List ThreadGoalAttachment
  objectiveResources : List ThreadGoalAttachment
  kickoffState : ThreadGoalKickoffState
  replyFingerprint : Option String := none
  noProgressStreak : ℕ := 0
  noToolStreak : ℕ := 0
  lastVerification : Option LastVerification := none
  lastWorkerProposal : Option LastWorkerProposal := none
  statusReason : Option ThreadGoalStatusReason := none
  executionWaitReason : Option ThreadGoalWaitReason := none
  executionWaitSinceMs : Option ℤ := none
  executionWaitEpoch : Option ℤ := none
  deriving DecidableEq

/-! ### Reading a row -/

/-- `readStatus`: a text that is no status is read as paused. -/
def readStatus (status : Option ThreadGoalStatus) : ThreadGoalStatus := status.getD .paused

/-- `readExecutionWait` -/
def readExecutionWait (reason : Option ThreadGoalWaitReason) (sinceMs : Option ℤ) :
    Option ThreadGoalExecutionWait :=
  match reason, sinceMs with
  | some reason, some sinceMs =>
    if 0 ≤ sinceMs ∧ sinceMs ≤ 9007199254740991 then some ⟨reason, sinceMs⟩ else none
  | _, _ => none

/-- `isLastVerificationV1`: the numbers a caller may get wrong. -/
def LastVerification.isValid (verification : LastVerification) : Bool :=
  match verification.atMs with
  | .finite q => q.den = 1 && 0 ≤ q
  | _ => false

/-- `readLastVerification` -/
def readLastVerification (value : Option LastVerification) : Option LastVerification :=
  (value.filter LastVerification.isValid).map fun verification =>
    { verification with
      missingFingerprint := verification.missingFingerprint.filter (· ≠ "") }

/-- The number of UTF-16 code units a text takes. -/
def textLength (text : String) : ℕ :=
  text.toList.foldl (fun n c => n + if c.toNat < 65536 then 1 else 2) 0

/-- `THREAD_GOAL_WORKER_PROPOSAL_SUMMARY_MAX_CHARS` -/
def workerProposalSummaryMaxChars : ℕ := 2000

/-- `readLastWorkerProposal` -/
def readLastWorkerProposal (value : Option LastWorkerProposal) : Option LastWorkerProposal :=
  (value.filter fun proposal =>
      (proposal.summary.all fun s => textLength s ≤ workerProposalSummaryMaxChars) &&
        0 ≤ proposal.atMs).map fun proposal =>
    { proposal with summary := proposal.summary.filter (· ≠ "") }

def rowToThreadGoalState (row : ThreadGoalDbRow) : Option ThreadGoalState :=
  if row.goalId = "" ∨ row.sessionId = "" ∨ row.objective = "" then none
  else
    let status := readStatus row.status
    some {
      goalId := row.goalId
      sessionId := row.sessionId
      objective := row.objective
      objectiveResources := row.objectiveResources
      status
      createdAt := row.createdAtMs
      updatedAt := row.updatedAtMs
      tokensUsed := row.tokensUsed
      turnsUsed := row.turnsUsed
      timeUsedSeconds := row.timeUsedSeconds
      tokenBudget := row.tokenBudget.bind fun budget => positiveOrNull (.finite budget)
      replyFingerprint := row.replyFingerprint
      noProgressStreak := row.noProgressStreak
      noToolStreak := row.noToolStreak
      lastVerification := readLastVerification row.lastVerification
      lastWorkerProposal := readLastWorkerProposal row.lastWorkerProposal
      statusReason := row.statusReason
      kickoffAttachments := row.kickoffAttachments
      kickoffState := row.kickoffState
      executionWait :=
        if status = .active ∧ row.executionWaitEpoch = some row.updatedAtMs then
          readExecutionWait row.executionWaitReason row.executionWaitSinceMs
        else none }

/-! ### The table -/

/-- The primary key and the unique index of the table. -/
def goalKeys : Constraint ThreadGoalDbRow :=
  (Constraint.unique fun r => some r.goalId).and (.unique fun r => some r.sessionId)

theorem goalKeys_fixes {f : ThreadGoalDbRow → ThreadGoalDbRow}
    (hgoal : ∀ r, (f r).goalId = r.goalId) (hsession : ∀ r, (f r).sessionId = r.sessionId) :
    goalKeys.Fixes f :=
  Constraint.and_fixes (Constraint.unique_fixes fun r => by rw [hgoal])
    (Constraint.unique_fixes fun r => by rw [hsession])

abbrev GoalTable := Table goalKeys

abbrev StoreM := Effect GoalTable ThreadGoalStoreError

/-- `SELECT * … WHERE goal_id = ?` -/
def selectById (goalId : String) : StoreM (Option ThreadGoalDbRow) :=
  Effect.read fun db => db.rows.find? (·.goalId = goalId)

/-- `SELECT * … WHERE session_id = ?` -/
def selectBySession (sessionId : String) : StoreM (Option ThreadGoalDbRow) :=
  Effect.read fun db => db.rows.find? (·.sessionId = sessionId)

def getById (goalId : String) : StoreM (Option ThreadGoalState) :=
  return (← selectById goalId).bind rowToThreadGoalState

def getBySession (sessionId : String) : StoreM (Option ThreadGoalState) :=
  return (← selectBySession sessionId).bind rowToThreadGoalState

/-- `UPDATE … WHERE` of columns that are not keys, answering how many rows it changed. -/
def updateWhere (p : ThreadGoalDbRow → Bool) (f : ThreadGoalDbRow → ThreadGoalDbRow)
    (hgoal : ∀ r, (f r).goalId = r.goalId := by intro r; rfl)
    (hsession : ∀ r, (f r).sessionId = r.sessionId := by intro r; rfl) : StoreM ℕ :=
  fun db => (.ok (db.rows.countP p), db.update p f (goalKeys_fixes hgoal hsession))

/-- `WHERE goal_id = ? AND updated_at_ms = ? AND status = 'active'` -/
def activeAt (goalId : String) (epoch : ℤ) (r : ThreadGoalDbRow) : Bool :=
  r.goalId = goalId && r.updatedAtMs = epoch && r.status = some .active

/-! ### Pausing and stopping -/

def pauseActiveBySession (sessionId : String) (statusReason : ThreadGoalStatusReason) (now : ℤ) :
    StoreM (Option ThreadGoalState) := do
  let changes ← updateWhere (fun r => r.sessionId = sessionId && r.status = some .active) fun r =>
    { r with
      status := some .paused
      statusReason := some statusReason
      updatedAtMs := max now (r.updatedAtMs + 1) }
  if changes = 0 then return none
  getBySession sessionId

/-- The stop final admission applies: a pause, or that the budget is spent. -/
structure AdmissionStop where
  status : ThreadGoalStatus
  statusReason : ThreadGoalStatusReason
  stops : status = .paused ∨ status = .budgetLimited

def transitionActiveAtEpoch (goalId : String) (expectedEpoch : ℤ) (input : AdmissionStop)
    (now : ℤ) : StoreM (Option ThreadGoalState) := do
  let nextEpoch := max now (expectedEpoch + 1)
  let changes ← updateWhere (activeAt goalId expectedEpoch) fun r =>
    { r with
      status := some input.status
      statusReason := some input.statusReason
      updatedAtMs := nextEpoch }
  if changes = 0 then return none
  getById goalId

def resetBreakerAtEpoch (goalId : String) (expectedEpoch : ℤ) (now : ℤ) :
    StoreM (Option ThreadGoalState) := do
  let nextEpoch := max now (expectedEpoch + 1)
  let changes ← updateWhere (activeAt goalId expectedEpoch) fun r =>
    { r with
      replyFingerprint := none
      noProgressStreak := 0
      noToolStreak := 0
      updatedAtMs := nextEpoch }
  if changes = 0 then return none
  getById goalId

/-! ### Creating -/

/-- A Goal with the id `goalId`, in place of a complete one of the Session. -/
def create (input : ThreadGoalCreateInput) (goalId : String) (now : ℤ) : StoreM ThreadGoalState :=
  Effect.atomically do
    let existing ← selectBySession input.sessionId
    match existing with
    | some row =>
      if row.status ≠ some .complete then Effect.raise (.alreadyExists row.goalId)
      else Effect.change (·.delete (·.sessionId = input.sessionId))
    | none => pure ()
    let tokenBudget := input.tokenBudget.bind positiveOrNull
    let row : ThreadGoalDbRow := {
      goalId, sessionId := input.sessionId, objective := input.objective
      status := some .active, createdAtMs := now, updatedAtMs := now, tokenBudget
      kickoffAttachments := input.kickoffAttachments, kickoffState := .pending
      objectiveResources := input.objectiveResources }
    match (← Effect.read fun db => db.insert row) with
    | none => Effect.raise .uniqueConstraint
    | some db =>
      Effect.change fun _ => db
      return {
        goalId, sessionId := input.sessionId, objective := input.objective
        objectiveResources := input.objectiveResources, status := .active
        createdAt := now, updatedAt := now, tokensUsed := 0, turnsUsed := 0, timeUsedSeconds := 0
        tokenBudget, replyFingerprint := none, noProgressStreak := 0, noToolStreak := 0
        lastVerification := none, lastWorkerProposal := none, statusReason := none
        kickoffAttachments := input.kickoffAttachments, kickoffState := .pending
        executionWait := none }

end Kinetick.Goal
