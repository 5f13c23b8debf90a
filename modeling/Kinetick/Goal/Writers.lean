import Kinetick.Goal.Store

/-!
# The writers of a Goal's row

A user's patch, the accounting of a Turn, the decisions bound to an epoch, the breaker and the
waits. A decision is refused when its epoch is no longer the Goal's; usage is charged even then,
and advances the epoch only if it decides something.
-/

namespace Kinetick.Goal

/-! ### `store-patch.ts` -/

/-- A Goal limited by its tokens that is made active with a budget above what it used. -/
def resumesTokenLimited (state : ThreadGoalState) (input : ThreadGoalPatchInput) : Bool :=
  input.status = some .active && state.status = .budgetLimited &&
    state.statusReason = some (.budgetLimited .token) &&
    match input.tokenBudget with
    | none => false
    | some none => true
    | some (some budget) => JsNumber.lt (.finite state.tokensUsed) budget

/-- The checks a patch throws at, in their order. -/
def patchRefusal (existing : Option ThreadGoalDbRow) (state : ThreadGoalState)
    (input : ThreadGoalPatchInput) : Option ThreadGoalStoreError :=
  let activates := input.status = some ThreadGoalStatus.active
  if some state.status = input.rejectIfCurrentStatus then
    some (.statusConflict state.goalId state.status)
  else match input.rejectIfObjectiveChangedFrom.filter (state.objective ≠ ·) with
  | some objective => some (.objectiveConflict state.goalId objective state.objective)
  | none =>
    match input.rejectIfUpdatedAtChangedFrom.filter (state.updatedAt ≠ ·) with
    | some updatedAt => some (.epochConflict state.goalId updatedAt state.updatedAt)
    | none =>
      match input.tokenBudget.join.filter (JsNumber.le · (.finite state.tokensUsed)) with
      | some budget => some (.tokenBudgetExhausted state.goalId state.tokensUsed budget)
      | none =>
        if activates ∧ state.status = .budgetLimited ∧ resumesTokenLimited state input = false then
          some (.budgetLimited state.goalId)
        else if activates ∧ (existing.bind (·.status)).isNone then
          some (.statusConflict state.goalId .paused)
        else if activates ∧ state.status = .complete then
          some (.statusConflict state.goalId state.status)
        else none

/-- The Goal a patch that is not refused makes. -/
def patched (state : ThreadGoalState) (input : ThreadGoalPatchInput) (now : ℤ) :
    ThreadGoalState :=
  let nextObjective := input.objective.getD state.objective
  let nextResources := input.objectiveResources.getD state.objectiveResources
  let objectiveChanged := nextObjective ≠ state.objective ∨ nextResources ≠ state.objectiveResources
  let resumed := input.status = some .active ∧
    (state.status = .paused ∨ state.status = .blocked ∨ state.status = .usageLimited ∨
      resumesTokenLimited state input)
  { state with
    objective := nextObjective
    objectiveResources := nextResources
    status := input.status.getD state.status
    updatedAt := max now (state.updatedAt + 1)
    tokenBudget := match input.tokenBudget with
      | none => state.tokenBudget
      | some budget => budget.bind positiveOrNull
    replyFingerprint := if objectiveChanged ∨ resumed then none else state.replyFingerprint
    noProgressStreak := if objectiveChanged ∨ resumed then 0 else state.noProgressStreak
    noToolStreak := if objectiveChanged ∨ resumed then 0 else state.noToolStreak
    lastVerification := if objectiveChanged then none else state.lastVerification
    lastWorkerProposal := if objectiveChanged then none else state.lastWorkerProposal
    statusReason := match input.statusReason with
      | some reason => reason
      | none =>
        if input.status.any (· ≠ state.status) then none else state.statusReason
    executionWait := none }

/-- The error of a patch whose guards no row met. -/
def patchConflict (goalId : String) (input : ThreadGoalPatchInput) : StoreM ThreadGoalState := do
  let some current ← getById goalId | Effect.raise (.notFound goalId)
  if some current.status = input.rejectIfCurrentStatus then
    Effect.raise (.statusConflict goalId current.status)
  if let some objective := input.rejectIfObjectiveChangedFrom.filter (current.objective ≠ ·) then
    Effect.raise (.objectiveConflict goalId objective current.objective)
  if let some updatedAt := input.rejectIfUpdatedAtChangedFrom.filter (current.updatedAt ≠ ·) then
    Effect.raise (.epochConflict goalId updatedAt current.updatedAt)
  Effect.raise (.guardedPatchMadeNoChange goalId)

/-- The patch is to write only where a guard still holds. -/
def ThreadGoalPatchInput.guarded (input : ThreadGoalPatchInput) : Bool :=
  input.rejectIfCurrentStatus.isSome || input.rejectIfObjectiveChangedFrom.isSome ||
    input.rejectIfUpdatedAtChangedFrom.isSome

/-- `WHERE goal_id = ?` and the guards of the patch -/
def patchable (goalId : String) (input : ThreadGoalPatchInput) (r : ThreadGoalDbRow) : Bool :=
  r.goalId = goalId && (input.rejectIfCurrentStatus.all fun status => r.status ≠ some status) &&
    (input.rejectIfObjectiveChangedFrom.all fun objective => r.objective = objective) &&
    input.rejectIfUpdatedAtChangedFrom.all fun updatedAt => r.updatedAtMs = updatedAt

def patchThreadGoal (goalId : String) (input : ThreadGoalPatchInput) (now : ℤ) :
    StoreM ThreadGoalState := do
  let existing ← selectById goalId
  let some state := existing.bind rowToThreadGoalState | Effect.raise (.notFound goalId)
  if let some refusal := patchRefusal existing state input then return ← Effect.raise refusal
  let next := patched state input now
  let changes ← updateWhere (patchable goalId input) fun r => { r with
      status := some next.status
      objective := next.objective
      tokenBudget := next.tokenBudget
      replyFingerprint := next.replyFingerprint
      noProgressStreak := next.noProgressStreak
      noToolStreak := next.noToolStreak
      lastVerification := next.lastVerification
      lastWorkerProposal := next.lastWorkerProposal
      statusReason := next.statusReason
      updatedAtMs := next.updatedAt
      objectiveResources := next.objectiveResources }
  if input.guarded && changes = 0 then return ← patchConflict goalId input
  return next

/-! ### `binding-stale.ts` -/

variable (digest : String → String)

def classifyThreadGoalAccountingStale (state : Option ThreadGoalState) (expectedEpoch : ℤ)
    (objectiveDigest : String) : Option StaleReason :=
  match state with
  | none => some .missingGoal
  | some state =>
    if state.updatedAt ≠ expectedEpoch then some .goalEpoch
    else if digest state.objective ≠ objectiveDigest then some .objectiveDigest
    else none

def classifyThreadGoalBindingStale (state : Option ThreadGoalState) (expectedEpoch : ℤ)
    (objectiveDigest : String) : Option StaleReason :=
  match classifyThreadGoalAccountingStale digest state expectedEpoch objectiveDigest with
  | some stale => some stale
  | none => if state.any (·.status = .active) then none else some .goalStatus

/-- `ThreadGoalDecisionResult` -/
inductive ThreadGoalDecisionResult
  | settled (goal : ThreadGoalState) (decisionEpoch : ℤ)
  | stale (staleReason : StaleReason) (goal : Option ThreadGoalState)

def threadGoalStaleDecision (state : Option ThreadGoalState) (expectedEpoch : ℤ)
    (objectiveDigest : String) : Option ThreadGoalDecisionResult :=
  (classifyThreadGoalBindingStale digest state expectedEpoch objectiveDigest).map (.stale · state)

/-! ### `store-bound-settlement.ts` -/

/-- `firstExceededBudget` -/
def firstExceededBudget (tokens mainTurns activeSeconds : ℕ) (limits : ThreadGoalBudgetLimits) :
    Option ThreadGoalBudgetDimension :=
  if exceeds tokens limits.tokens then some .token
  else if exceeds mainTurns limits.mainTurns then some .mainTurn
  else if exceeds activeSeconds limits.activeSeconds then some .activeTime
  else none

/-- `ThreadGoalBoundUsageResult` -/
structure ThreadGoalBoundUsageResult where
  goal : Option ThreadGoalState
  decisionEpoch : Option ℤ
  transitioned : Option ThreadGoalBudgetDimension
  staleReason : Option StaleReason

/-- The Goal charged with what a Turn used. -/
def charged (state : ThreadGoalState) (staleReason : Option StaleReason)
    (delta : ThreadGoalBoundUsageDelta) (limits : ThreadGoalBudgetLimits) (now : ℤ) :
    ThreadGoalState × Option ThreadGoalBudgetDimension :=
  let tokensUsed := state.tokensUsed + numericOrZero delta.tokens
  let turnsUsed := state.turnsUsed + delta.mainTurns
  let timeUsedSeconds := state.timeUsedSeconds + numericOrZero delta.activeSeconds
  let dimension :=
    if state.status = .active then firstExceededBudget tokensUsed turnsUsed timeUsedSeconds limits
    else none
  let keepsDecisionEpoch :=
    state.status = .budgetLimited ∨ staleReason.isSome ∧ dimension.isNone
  ({ state with
      status := if dimension.isSome then .budgetLimited else state.status
      statusReason := match dimension with
        | some dimension => some (.budgetLimited dimension)
        | none => state.statusReason
      tokensUsed, turnsUsed, timeUsedSeconds
      updatedAt := if keepsDecisionEpoch then state.updatedAt else max now (state.updatedAt + 1)
      executionWait := if keepsDecisionEpoch then state.executionWait else none },
    dimension)

def bumpThreadGoalBoundUsage (binding : GoalTurnBinding) (delta : ThreadGoalBoundUsageDelta)
    (limits : ThreadGoalBudgetLimits) (now : ℤ) : StoreM ThreadGoalBoundUsageResult :=
  Effect.atomically do
    let some state ← getById binding.goalId | return ⟨none, none, none, some .missingGoal⟩
    let staleReason := classifyThreadGoalAccountingStale digest (some state)
      binding.admittedGoalUpdatedAt binding.objectiveDigest
    if numericOrZero delta.tokens = 0 ∧ numericOrZero delta.activeSeconds = 0 ∧
        delta.mainTurns = 0 then
      return ⟨some state, some state.updatedAt, none, staleReason⟩
    let (goal, dimension) := charged state staleReason delta limits now
    let _ ← updateWhere (·.goalId = binding.goalId) fun r =>
      { r with
        tokensUsed := goal.tokensUsed
        turnsUsed := goal.turnsUsed
        timeUsedSeconds := goal.timeUsedSeconds
        status := some goal.status
        statusReason := goal.statusReason
        updatedAtMs := goal.updatedAt }
    return ⟨some goal, some goal.updatedAt, dimension, staleReason⟩

/-- `normalizeThreadGoalWorkerProposalSummary`, cut at a whole character. -/
def normalizeSummary (summary : Option String) : Option String :=
  ((summary.map jsTrim).filter (· ≠ "")).map fun text =>
    String.ofList ((text.toList.inits.filter fun cut =>
      textLength (.ofList cut) ≤ workerProposalSummaryMaxChars).getLastD [])

/-- `materializeThreadGoalWorkerProposal` -/
def materializeWorkerProposal (input : Option WorkerProposalInput) (atMs : ℤ) :
    Option LastWorkerProposal :=
  input.map fun input =>
    { type := input.type, turnId := input.turnId, summary := normalizeSummary input.summary, atMs }

def settleThreadGoalBoundTurn (input : ThreadGoalSettleBoundTurnInput) (now : ℤ) :
    StoreM ThreadGoalDecisionResult :=
  Effect.atomically do
    let some state ← getById input.goalId | return .stale .missingGoal none
    if let some stale :=
        threadGoalStaleDecision digest (some state) input.expectedEpoch input.objectiveDigest then
      return stale
    let decisionEpoch := max now (input.expectedEpoch + 1)
    let workerProposal := materializeWorkerProposal input.workerProposal decisionEpoch
    let changes ← updateWhere (activeAt input.goalId input.expectedEpoch) fun r =>
      { r with
        status := some input.next.status
        statusReason := some input.next.statusReason
        updatedAtMs := decisionEpoch
        lastWorkerProposal := workerProposal.or r.lastWorkerProposal }
    if changes = 0 then
      return (threadGoalStaleDecision digest (← getById input.goalId) input.expectedEpoch
        input.objectiveDigest).getD (.stale .goalStatus none)
    return .settled
      { state with
        status := input.next.status
        statusReason := some input.next.statusReason
        updatedAt := decisionEpoch
        lastWorkerProposal := workerProposal.or state.lastWorkerProposal
        executionWait := none }
      decisionEpoch

/-! ### `store-verification.ts` -/

variable (fingerprint : List String → String)

/-- The UTF-16 code units of a text, which JavaScript compares texts by. -/
def codeUnits (text : String) : List ℕ :=
  text.toList.flatMap fun c =>
    if c.toNat < 65536 then [c.toNat]
    else [55296 + (c.toNat - 65536) / 1024, 56320 + (c.toNat - 65536) % 1024]

/-- `text.trim().replace(/\s+/g, ' ')` -/
def collapseWhitespace (text : String) : String :=
  let rec collapse : List Char → List Char
    | c :: d :: rest =>
      if isJsWhitespace c && isJsWhitespace d then collapse (d :: rest)
      else (if isJsWhitespace c then ' ' else c) :: collapse (d :: rest)
    | [c] => [if isJsWhitespace c then ' ' else c]
    | [] => []
  String.ofList (collapse (jsTrim text).toList)

def normalizeMissing (values : List String) : List String :=
  (((values.map collapseWhitespace).filter (· ≠ "")).reverse.dedup.reverse).mergeSort
    fun a b => !(codeUnits b < codeUnits a)

def normalizeVerificationResult (previous : Option LastVerification) (result : LastVerification) :
    LastVerification :=
  let missing := normalizeMissing result.missing
  if result.verdict ≠ .notMet then
    { result with missing, missingFingerprint := none, notMetStreak := 0 }
  else
    let missingFingerprint := fingerprint missing
    let notMetStreak := match previous.filter fun p =>
        p.verdict = .notMet && p.missingFingerprint = some missingFingerprint with
      | some previous => previous.notMetStreak + 1
      | none => 1
    { result with missing, missingFingerprint := some missingFingerprint, notMetStreak }

/-- `GOAL_CONFIG_DEFAULTS.verifier.repeatedNotMetLimit` -/
def defaultRepeatedNotMetLimit : ℕ := 5

/-- The decision a verdict leads to: a gap reported too often pauses the Goal. -/
def verificationDecision (lastVerification : LastVerification)
    (input : ThreadGoalRecordVerificationInput) :
    Option (ThreadGoalStatus × ThreadGoalStatusReason) :=
  let repeatedNotMetLimit :=
    positiveIntegerOrDefault input.repeatedNotMetLimit defaultRepeatedNotMetLimit
  if lastVerification.verdict = .notMet ∧ repeatedNotMetLimit ≤ lastVerification.notMetStreak then
    some (.paused, .pausedNoProgress)
  else input.decision.map fun decision => (decision.status, decision.statusReason)

def recordThreadGoalVerification (input : ThreadGoalRecordVerificationInput) (now : ℤ) :
    StoreM ThreadGoalDecisionResult :=
  Effect.atomically do
    let some state ← getById input.goalId | return .stale .missingGoal none
    if let some stale :=
        threadGoalStaleDecision digest (some state) input.expectedEpoch input.objectiveDigest then
      return stale
    let lastVerification := normalizeVerificationResult fingerprint state.lastVerification
      input.result
    let decision := verificationDecision lastVerification input
    let nextStatus := (decision.map Prod.fst).getD state.status
    let nextStatusReason := (decision.map Prod.snd).or state.statusReason
    let decisionEpoch := max now (input.expectedEpoch + 1)
    let workerProposal := materializeWorkerProposal input.workerProposal decisionEpoch
    let changes ← updateWhere (activeAt input.goalId input.expectedEpoch) fun r =>
      { r with
        lastVerification := some lastVerification
        status := some nextStatus
        statusReason := nextStatusReason
        updatedAtMs := decisionEpoch
        lastWorkerProposal := workerProposal.or r.lastWorkerProposal }
    if changes = 0 then
      return (threadGoalStaleDecision digest (← getById input.goalId) input.expectedEpoch
        input.objectiveDigest).getD (.stale .goalStatus none)
    return .settled
      { state with
        status := nextStatus
        statusReason := nextStatusReason
        lastVerification := some lastVerification
        lastWorkerProposal := workerProposal.or state.lastWorkerProposal
        updatedAt := decisionEpoch
        executionWait := none }
      decisionEpoch

/-! ### `store-breaker.ts` -/

inductive BreakerAction
  | none
  | nudge
  | pause
  deriving DecidableEq

def decideAction (occurrences limit : ℕ) : BreakerAction :=
  if limit ≤ occurrences then .pause else if 2 ≤ occurrences then .nudge else .none

def strongerAction (left right : BreakerAction) : BreakerAction :=
  if left = .pause ∨ right = .pause then .pause
  else if left = .nudge ∨ right = .nudge then .nudge
  else .none

inductive ThreadGoalBreakerCause
  | repeatedReply
  | noTool
  deriving DecidableEq

/-- `ThreadGoalBreakerResult` -/
inductive ThreadGoalBreakerResult
  | acted (action : BreakerAction) (goal : ThreadGoalState) (epoch : ℤ)
      (cause : Option ThreadGoalBreakerCause)
  | stale (staleReason : StaleReason) (goal : Option ThreadGoalState)

/-- The counters after a reply, what is done about them and why. -/
structure BreakerScore where
  nextFingerprint : Option String
  nextReplyStreak : ℕ
  nextNoToolStreak : ℕ
  action : BreakerAction
  cause : Option ThreadGoalBreakerCause

def scoreBreaker (state : ThreadGoalState) (input : ThreadGoalBreakerInput) : BreakerScore :=
  let occurrenceLimit := flooredAtLeast 2 input.limit
  let scoresReply := input.fingerprint.isSome
  let repeated := scoresReply ∧ state.replyFingerprint = input.fingerprint
  let nextReplyStreak :=
    if scoresReply then if repeated then state.noProgressStreak + 1 else 0
    else state.noProgressStreak
  -- the streak counts repeats after the first reply, the limit all of them
  let replyAction :=
    if repeated then decideAction (nextReplyStreak + 1) occurrenceLimit else .none
  let nextNoToolStreak := if input.toolActivity = .absent then state.noToolStreak + 1 else 0
  let noToolAction :=
    if input.toolActivity = .absent then decideAction nextNoToolStreak occurrenceLimit else .none
  let action := strongerAction replyAction noToolAction
  { nextFingerprint := if scoresReply then input.fingerprint else state.replyFingerprint
    nextReplyStreak
    nextNoToolStreak
    action
    cause := if action = .none then none
      else if replyAction = action then some .repeatedReply
      else some .noTool }

/-- Nothing to do and nothing to store. -/
def BreakerScore.unchanged (score : BreakerScore) (state : ThreadGoalState) : Bool :=
  score.action = .none && score.nextFingerprint = state.replyFingerprint &&
    score.nextReplyStreak = state.noProgressStreak && score.nextNoToolStreak = state.noToolStreak

/-- Why no row was the active Goal at the epoch. -/
def breakerStale (goalId : String) (expectedEpoch : ℤ) : StoreM ThreadGoalBreakerResult := do
  let some current ← getById goalId | return .stale .missingGoal none
  if current.updatedAt ≠ expectedEpoch then return .stale .goalEpoch (some current)
  return .stale .goalStatus (some current)

def updateThreadGoalBreaker (goalId : String) (input : ThreadGoalBreakerInput) (now : ℤ) :
    StoreM ThreadGoalBreakerResult :=
  Effect.atomically do
    let some state ← getById goalId | return .stale .missingGoal none
    let score := scoreBreaker state input
    if score.unchanged state then
      -- nothing to write, but a decision made at another epoch is still refused
      if state.updatedAt ≠ input.expectedEpoch then return .stale .goalEpoch (some state)
      if state.status ≠ .active then return .stale .goalStatus (some state)
      return .acted .none state state.updatedAt none
    let nextStatus := if score.action = .pause then .paused else state.status
    let nextStatusReason :=
      if score.action = .pause then
        some ((input.pauseReason.map NoProgressReason.statusReason).getD .pausedNoProgress)
      else state.statusReason
    let nextEpoch := max now (state.updatedAt + 1)
    let changes ← updateWhere (activeAt goalId input.expectedEpoch) fun r =>
      { r with
        replyFingerprint := score.nextFingerprint
        noProgressStreak := score.nextReplyStreak
        noToolStreak := score.nextNoToolStreak
        status := some nextStatus
        statusReason := nextStatusReason
        updatedAtMs := nextEpoch }
    if changes = 0 then return ← breakerStale goalId input.expectedEpoch
    return .acted score.action
      { state with
        status := nextStatus
        statusReason := nextStatusReason
        replyFingerprint := score.nextFingerprint
        noProgressStreak := score.nextReplyStreak
        noToolStreak := score.nextNoToolStreak
        updatedAt := nextEpoch
        executionWait := none }
      nextEpoch score.cause

/-! ### `store-execution.ts` and the kickoff -/

/-- `hasVisibleWait` -/
def hasVisibleWait (row : ThreadGoalDbRow) : Bool :=
  row.executionWaitReason.isSome && row.executionWaitEpoch = some row.updatedAtMs

def setThreadGoalExecutionWait (goalId : String) (expectedUpdatedAt : ℤ)
    (reason : ThreadGoalWaitReason) (now : ℤ) : StoreM (Option ThreadGoalState) :=
  Effect.atomically do
    let some current := (← selectById goalId).filter fun r =>
      r.status = some .active && r.updatedAtMs = expectedUpdatedAt | return none
    if hasVisibleWait current && current.executionWaitReason = some reason then return none
    let changes ← updateWhere (activeAt goalId expectedUpdatedAt) fun r =>
      { r with
        executionWaitReason := some reason
        executionWaitSinceMs := some now
        executionWaitEpoch := some expectedUpdatedAt }
    if changes = 0 then return none
    getById goalId

def clearThreadGoalExecutionWait (goalId : String) (expectedUpdatedAt : ℤ) :
    StoreM (Option ThreadGoalState) :=
  Effect.atomically do
    let some current := (← selectById goalId).filter fun r =>
      r.status = some .active && r.updatedAtMs = expectedUpdatedAt | return none
    if !hasVisibleWait current then return none
    let changes ← updateWhere (activeAt goalId expectedUpdatedAt) fun r =>
      { r with
        executionWaitReason := none
        executionWaitSinceMs := none
        executionWaitEpoch := none }
    if changes = 0 then return none
    getById goalId

def transitionKickoffState (goalId : String) (expected next : ThreadGoalKickoffState) :
    StoreM (Option ThreadGoalState) := do
  let changes ← updateWhere (fun r => r.goalId = goalId && r.kickoffState = expected) fun r =>
    { r with kickoffState := next }
  if changes = 0 then return none
  getById goalId

end Kinetick.Goal
