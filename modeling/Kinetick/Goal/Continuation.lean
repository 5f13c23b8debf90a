import Kinetick.Async
import Kinetick.Goal.Types

/-!
# Continuations of a Goal

`continuation-rearm.ts`, `initial-kickoff.ts` and `continuation.ts`: who hands the next message of
an active Goal over. A writer that advances the epoch of a Goal whose Session is busy arms a
marker, and whoever settles the Session next drains it.

A computation asks the fields of the three classes, the store and the host. Prompts may fail to be
prepared, and what they say is left out, as is what is reported or published.
-/

namespace Kinetick.Goal

deriving instance DecidableEq for ThreadGoalState

/-- `isContinuationStatus` -/
def isContinuationStatus (status : ThreadGoalStatus) : Bool := status = .active

inductive GoalMessageType
  | kickoff
  | continuation
  deriving DecidableEq

/-- The origin of a message of a Goal. -/
structure GoalMessage where
  type : GoalMessageType
  goalId : String
  goalUpdatedAt : ℤ
  deriving DecidableEq

def buildThreadGoalKickoffMessage (goal : ThreadGoalState) : GoalMessage :=
  ⟨.kickoff, goal.goalId, goal.updatedAt⟩

def buildThreadGoalContinuationMessage (goal : ThreadGoalState) : GoalMessage :=
  ⟨.continuation, goal.goalId, goal.updatedAt⟩

structure ArmedRearm where
  goalId : String
  /-- Of any two arms, the later has the greater. -/
  generation : ℕ
  deriving DecidableEq

/-- The Turn that runs in a Session, with the Goal it is bound to. -/
structure ActiveTurn where
  turnId : String
  boundGoalId : Option String
  deriving DecidableEq

inductive SteeringMode
  | activated
  | steered
  | duplicate
  deriving DecidableEq

inductive StartedTurn
  | started
  | alreadyActive
  deriving DecidableEq

/-! ### What is asked -/

inductive ContinuationAsk
  /-- The generation that is armed; a kick asks for the Goal it was told of. -/
  | observe (sessionId : String) (kicked : Option ThreadGoalState)
  | clearScheduled (sessionId : String) (observed : Option ℕ)
  | clear (sessionId : String)
  | arm (goal : ThreadGoalState)
  /-- `pending.get` and `pending.delete` -/
  | claim (sessionId : String)
  /-- `pending.set` unless `pending.has` -/
  | restore (sessionId : String) (armed : ArmedRearm)
  | isAwaitingRedelivery (goalId : String)
  | awaitRedelivery (goalId : String)
  | redelivered (goalId : String)
  /-- Takes the place after the refresh that is last, and answers that one and its own number. -/
  | joinRefreshes (sessionId : String)
  /-- Awaits the refresh before. -/
  | previousRefresh (previous : Option ℕ)
  | leaveRefreshes (sessionId : String) (refresh : ℕ)
  /-- A refresh reads the Goal that was observed again. -/
  | getBySession (sessionId : String) (observed : Option ThreadGoalState)
  | transitionKickoffState (sessionId goalId : String) (expected next : ThreadGoalKickoffState)
  | isEnabled
  | isSessionBusy (sessionId : String)
  | activeTurn (sessionId : String)
  | hasPendingQuestionnaire (sessionId goalId : String)
  | hasPendingPermission (sessionId : String)
  | hasRequiredBackgroundWork (sessionId : String)
  | retireGoalQuestionnaire (sessionId goalId : String)
  | preparePrompt (goal : ThreadGoalState)
  /-- Whether the kickoff is queued, as far as the caller knows or after it cancelled it. -/
  | hasPendingInitialContinuation (sessionId goalId : String) (cancelled : Bool)
  | cancelInitialContinuation (sessionId goalId : String)
  /-- Whether the Queue took the message, having no kickoff of the Goal; the caller is not told. -/
  | enqueueInitialContinuationTurn (goal : ThreadGoalState) (message : GoalMessage)
  | requestQueueDispatch (sessionId : String)
  /-- Whether the host has an `enqueuePostTurnContinuation`. -/
  | hasPostTurnQueue
  | enqueuePostTurnContinuation (sessionId turnId : String) (message : GoalMessage)
    (clientRequestId : Option (String × ℤ))
  | startContinuationTurn (sessionId : String) (message : GoalMessage)
  /-- Whether the host has a `steerContinuationTurn`. -/
  | canSteer
  /-- Steers the running Turn, unless it is no longer the one expected. -/
  | steerContinuationTurn (sessionId : String) (message : GoalMessage)
  deriving DecidableEq

/-- What is answered; what the host or the store is asked may fail. -/
abbrev ContinuationAsk.Reply : ContinuationAsk → Type
  | observe _ _ => Option ℕ
  | claim _ => Option ArmedRearm
  | isAwaitingRedelivery _ => Bool
  | joinRefreshes _ => Option ℕ × ℕ
  | getBySession _ _ => Except Unit (Option ThreadGoalState)
  | transitionKickoffState _ _ _ _ => Except Unit Unit
  | isEnabled => Bool
  | isSessionBusy _ => Bool
  | activeTurn _ => Option ActiveTurn
  | hasPendingQuestionnaire _ _ => Bool
  | hasPendingPermission _ => Bool
  | hasRequiredBackgroundWork _ => Bool
  | preparePrompt _ => Except Unit Unit
  | hasPendingInitialContinuation _ _ _ => Except Unit Bool
  | cancelInitialContinuation _ _ => Except Unit Unit
  | enqueueInitialContinuationTurn _ _ => Except Unit Bool
  | hasPostTurnQueue => Bool
  | enqueuePostTurnContinuation _ _ _ _ => Except Unit Unit
  | startContinuationTurn _ _ => Except Unit StartedTurn
  | canSteer => Bool
  | steerContinuationTurn _ _ => Except Unit (SteeringMode × String)
  | _ => Unit

abbrev ContinuationM := Async ContinuationAsk ContinuationAsk.Reply Unit

namespace Continuation

open ContinuationAsk Async

/-- Throws where the answer is an error. -/
def orThrow {α : Type} (m : ContinuationM (Except Unit α)) : ContinuationM α := m >>= .ret

/-! ### `initial-kickoff.ts` -/

def consume (goal : ThreadGoalState) : ContinuationM Unit :=
  when (goal.kickoffState ≠ .consumed) (orThrow (request
    (transitionKickoffState goal.sessionId goal.goalId goal.kickoffState .consumed)))

def enqueueKickoff (goal : ThreadGoalState) : ContinuationM Unit := do
  orThrow (request (preparePrompt goal))
  let _ ← orThrow (request
    (enqueueInitialContinuationTurn goal (buildThreadGoalKickoffMessage goal)))

/-- What `reconcile` does once it knows the kickoff is not consumed, `queued` or not. -/
def deliverKickoff (goal : ThreadGoalState) (dispatch queued : Bool) :
    ContinuationM ThreadGoalKickoffState := do
  when (!queued) (enqueueKickoff goal)
  request (redelivered goal.goalId)
  when (goal.kickoffState = .pending) (orThrow (request
    (transitionKickoffState goal.sessionId goal.goalId .pending .enqueued)))
  when dispatch (request (requestQueueDispatch goal.sessionId))
  return .enqueued

def reconcile (goal : ThreadGoalState) (dispatch refreshQueued : Bool) :
    ContinuationM ThreadGoalKickoffState := do
  let queued ← orThrow (request
    (hasPendingInitialContinuation goal.sessionId goal.goalId false))
  if goal.status = .complete ∨ goal.kickoffState = .consumed then
    when queued (orThrow (request (cancelInitialContinuation goal.sessionId goal.goalId)))
    consume goal
    return .consumed
  let awaiting ← request (isAwaitingRedelivery goal.goalId)
  if goal.kickoffState = .enqueued ∧ !queued ∧ !awaiting then
    consume goal
    return .consumed
  if refreshQueued ∧ queued ∧ goal.status = .active then
    orThrow (request (cancelInitialContinuation goal.sessionId goal.goalId))
    request (awaitRedelivery goal.goalId)
    let queued ← orThrow (request
      (hasPendingInitialContinuation goal.sessionId goal.goalId true))
    deliverKickoff goal dispatch queued
  else deliverKickoff goal dispatch queued

/-- The Goal a refresh has the kickoff of rebuilt, if it is still the one and still to kick off. -/
def refresh (observed : ThreadGoalState) : ContinuationM (Option ThreadGoalState) := do
  let current ← orThrow (request (getBySession observed.sessionId (some observed)))
  match current with
  | none => return none
  | some current =>
    if current.goalId ≠ observed.goalId ∨ current.status ≠ .active ∨
        current.kickoffState = .consumed then return none
    let _ ← reconcile current true true
    let refreshed ← orThrow (request (getBySession observed.sessionId none))
    return refreshed.filter (·.goalId = observed.goalId)

def refreshQueuedKickoff (observed : ThreadGoalState) :
    ContinuationM (Option ThreadGoalState) := do
  let (previous, number) ← request (joinRefreshes observed.sessionId)
  request (previousRefresh previous)
  let result ← (refresh observed).attempt
  request (leaveRefreshes observed.sessionId number)
  .ret result

def consumeDelivered (goal : ThreadGoalState) : ContinuationM Unit :=
  when (goal.kickoffState = .enqueued) do
    let queued ← orThrow (request
      (hasPendingInitialContinuation goal.sessionId goal.goalId false))
    when (!queued) (consume goal)

/-! ### `patch-rearm.ts` and `continuation-rearm.ts` -/

/-- An enqueued kickoff is the Queue's until its Turn runs. -/
def shouldArmUserPatchRearm (goal : ThreadGoalState) : ContinuationM Bool := do
  if !isContinuationStatus goal.status then return false
  if !(← request (isSessionBusy goal.sessionId)) then return false
  match goal.kickoffState with
  | .consumed => return true
  | .pending => return false
  | .enqueued =>
    let turn ← request (activeTurn goal.sessionId)
    return turn.any fun turn => turn.boundGoalId = some goal.goalId

def shouldArmExplicitResetRearm (goal : ThreadGoalState) : Bool := isContinuationStatus goal.status

def armUserPatch (goal : ThreadGoalState) : ContinuationM Unit := do
  when (← shouldArmUserPatchRearm goal) (request (arm goal))

def armExplicitReset (goal : ThreadGoalState) : ContinuationM Unit :=
  when (shouldArmExplicitResetRearm goal) (request (arm goal))

inductive Submission
  | submitted
  | notContinuable
  | unavailable
  deriving DecidableEq

/-- `submitActiveContinuation`; a rebuilt message has the epoch for its key. -/
def submitActiveContinuation (sessionId turnId : String) (rebuiltAfterEpochAdvance : Bool) :
    ContinuationM Submission := do
  if !(← request hasPostTurnQueue) then return .unavailable
  let goal ← orThrow (request (getBySession sessionId none))
  match goal.filter fun goal => isContinuationStatus goal.status with
  | none => return .notContinuable
  | some goal =>
    orThrow (request (preparePrompt goal))
    orThrow (request (enqueuePostTurnContinuation sessionId turnId
      (buildThreadGoalContinuationMessage goal)
      (if rebuiltAfterEpochAdvance then some (goal.goalId, goal.updatedAt) else none)))
    return .submitted

/-- What a drain does with the marker it claimed. -/
def rebuild (sessionId turnId : String) (armed : ArmedRearm) : ContinuationM Unit := do
  let goal ← orThrow (request (getBySession sessionId none))
  match goal.filter fun goal => goal.goalId = armed.goalId && isContinuationStatus goal.status with
  | none => return ()
  | some goal =>
    if goal.kickoffState ≠ .consumed then
      let refreshed ← refreshQueuedKickoff goal
      match refreshed.filter fun goal =>
          goal.kickoffState = .consumed && isContinuationStatus goal.status with
      | none => return ()
      | some _ => let _ ← submitActiveContinuation sessionId turnId true
    else let _ ← submitActiveContinuation sessionId turnId true

def drain (sessionId turnId : String) : ContinuationM Unit := do
  match ← request (claim sessionId) with
  | none => return ()
  | some armed =>
    match ← (rebuild sessionId turnId armed).attempt with
    | .ok _ => return ()
    | .error error =>
      request (restore sessionId armed)
      raise error

/-! ### `continuation.ts` -/

def enqueueActive (sessionId turnId : String) : ContinuationM Unit := do
  let observed ← request (observe sessionId none)
  let submission ← submitActiveContinuation sessionId turnId false
  when (submission ≠ .unavailable) (request (clearScheduled sessionId observed))

/-- What a kick does with the Goal it is about, and the generation it observed. -/
def kick (goal : ThreadGoalState) (observed : Option ℕ) : ContinuationM Unit := do
  if ← request (isSessionBusy goal.sessionId) then return ()
  let kickoffState ←
    (if goal.kickoffState ≠ .consumed then reconcile goal true false else pure .consumed)
  if kickoffState ≠ .consumed then return ()
  if ← request (hasPendingQuestionnaire goal.sessionId goal.goalId) then return ()
  if ← request (hasPendingPermission goal.sessionId) then return ()
  if ← request (hasRequiredBackgroundWork goal.sessionId) then return ()
  -- a failure is reported, and no more
  let prepared ← request (preparePrompt goal)
  when prepared.isOk do
    let started ← request
      (startContinuationTurn goal.sessionId (buildThreadGoalContinuationMessage goal))
    when (started.toOption = some .started) (request (clearScheduled goal.sessionId observed))

/-- `updated` with `userPatch` for an event of that type and with that mark. -/
def maybeKick (goal : ThreadGoalState) (updated userPatch : Bool) : ContinuationM Unit := do
  if !(← request isEnabled) then return ()
  if goal.status ≠ .active then return ()
  let observed ← request (observe goal.sessionId (some goal))
  if goal.kickoffState ≠ .consumed ∧ updated ∧ userPatch ∧ observed.isNone then
    match ← (refreshQueuedKickoff goal).attempt with
    | .ok (some refreshed) =>
      when (refreshed.status = .active ∧ refreshed.kickoffState = .consumed)
        (kick refreshed observed)
    | _ => return ()
  else kick goal observed

/-- Nothing a Goal waits for is in the way of steering its Turn. -/
def canProbeActiveTurn (goal : ThreadGoalState) : ContinuationM Bool := do
  if goal.status ≠ .active ∨ goal.kickoffState ≠ .consumed then return false
  if ← request (hasPendingQuestionnaire goal.sessionId goal.goalId) then return false
  if ← request (hasPendingPermission goal.sessionId) then return false
  return !(← request (hasRequiredBackgroundWork goal.sessionId))

/-- Whether the Turn that was observed, if one was, is steered by the new objective. -/
def steer (goal : ThreadGoalState) (observedTurnId : Option String) : ContinuationM Bool := do
  let prepared ← request (preparePrompt goal)
  if !prepared.isOk then return false
  match ← request
      (steerContinuationTurn goal.sessionId (buildThreadGoalContinuationMessage goal)) with
  | .error _ => return false
  | .ok (mode, turnId) =>
    return mode ≠ .activated && (observedTurnId.isNone || observedTurnId = some turnId)

def injectObjectiveUpdatedSteering (goal : ThreadGoalState) (userPatch : Bool) :
    ContinuationM Unit := do
  if !(← request isEnabled) then return ()
  let turn ← request (activeTurn goal.sessionId)
  if (← canProbeActiveTurn goal) && (← request canSteer) then
    if ← steer goal (turn.map ActiveTurn.turnId) then armUserPatch goal
    else maybeKick goal true userPatch
  else maybeKick goal true userPatch

inductive ThreadGoalChangedEvent
  | created (goal : ThreadGoalState)
  | updated (goal : ThreadGoalState) (objectiveChanged userPatch : Bool)
  | deleted (goalId sessionId : String) (kickoffCancelled : Bool)
  deriving DecidableEq

/-- What is done for a Goal that is complete or deleted. -/
def retire (sessionId goalId : String) (kickoffCancelled : Bool) : ContinuationM Unit := do
  request (clear sessionId)
  request (retireGoalQuestionnaire sessionId goalId)
  when (!kickoffCancelled) do
    let _ ← request (cancelInitialContinuation sessionId goalId)

def announce (goal : ThreadGoalState) (updated userPatch : Bool) : ContinuationM Unit := do
  if goal.status = .complete then
    retire goal.sessionId goal.goalId false
    consume goal
  else maybeKick goal updated userPatch

def handleChanged (event : ThreadGoalChangedEvent) : ContinuationM Unit := do
  if !(← request isEnabled) then return ()
  match event with
  | .deleted goalId sessionId kickoffCancelled => retire sessionId goalId kickoffCancelled
  | .created goal => announce goal false false
  | .updated goal objectiveChanged userPatch =>
    when userPatch (armUserPatch goal)
    if objectiveChanged then injectObjectiveUpdatedSteering goal userPatch
    else announce goal true userPatch

end Continuation

end Kinetick.Goal
