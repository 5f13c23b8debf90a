import Kinetick.Effect
import Kinetick.Queue.Contract

/-!
# The Queue dispatcher

The dispatcher claims the head of a Session's queue, asks what to do with it, has the executor run
it as a Turn and settles the claim by what came of it. `dispatch` does so in a drain that recovers
claims first where a settlement failed; `continuePaused` does so once, past a pause.

The queue, the classifier, the executor and the observers are what the caller injects. The executor
calls back between the steps of an admission, so it is a tree over the answers of its calls.
-/

namespace Kinetick

/-- What the dispatcher reads of a claim. -/
structure QueueDispatchClaim where
  claimId : String
  sessionId : String
  itemId : String
  selection : QueueClaimSelection
  claimOwnerId : String
  claimLeaseExpiresAt : ℤ
  deriving DecidableEq

structure QueueClaimRequest where
  sessionId : String
  continuePaused : Bool
  excludeItemIds : List String

/-- What the dispatcher uses of the queue: each call over the queue's own states. -/
structure QueueDispatchCapability (σ ε : Type) where
  claimNext : QueueClaimRequest → Effect σ ε (Option QueueDispatchClaim)
  prepareDelivery : (sessionId claimId turnId : String) → Effect σ ε Unit
  acknowledge : (sessionId claimId turnId : String) → Effect σ ε Unit
  release : (sessionId claimId : String) → (reason : Option String) → Effect σ ε Unit
  reject : (sessionId claimId reason : String) → Effect σ ε Unit
  cancelClaim : (sessionId claimId : String) → Effect σ ε Unit
  /-- The recovery of the claims that are not active at `nowMs`. -/
  recoverClaims : (sessionId : String) → (nowMs : ℤ) → Effect σ ε Unit

inductive QueueDispatchDisposition
  | ready
  | defer
  | cancel
  deriving DecidableEq

inductive TurnSubmissionQueueDisposition
  | defer
  | cancel
  deriving DecidableEq

/-- What the executor answers, up to the completion of an accepted Turn. -/
inductive ExecuteTurnResult
  | accepted (turnId : String)
  | duplicate (turnId : String)
  | rejected (reason : String) (queueDisposition : Option TurnSubmissionQueueDisposition)

/-- One run of the executor: what it calls back, and how it goes on by the answer. -/
inductive ExecutorRun (ε : Type)
  | returns (result : ExecuteTurnResult)
  | throws (error : ε)
  | onAccepted (accepted : ExecuteTurnResult) (next : Except ε Unit → ExecutorRun ε)
  | beforeSubmit (turnId : String) (next : Except ε Unit → ExecutorRun ε)
  | beforeStart (turnId : String) (next : Except ε Unit → ExecutorRun ε)

inductive StartedMode
  | accepted
  | duplicate
  deriving DecidableEq

inductive QueueSteerDispatchResult
  | started (mode : StartedMode) (queueItemId turnId : String)
  | notClaimed
  | deferred (queueItemId : String)
  | cancelled (queueItemId : String)
  | rejected (queueItemId reason : String)

structure QueueDispatchAttempt where
  result : QueueSteerDispatchResult
  drainAgain : Bool

/-- What one dispatch meets: the answers of the injected functions, in the order they are asked, and
whether the dispatcher is closed or its Session blocked meanwhile. -/
structure DispatchEnvironment (ε : Type) where
  stoppedBeforeClaim : Bool
  stoppedAfterClaim : Bool
  /-- Without a classifier, `ready`. -/
  classifyQueuedItem : Except ε QueueDispatchDisposition
  isCancellationRequested : (executed : Bool) → Bool
  /-- Without the function, `false`. -/
  shouldYieldFifoPosition : Except ε Bool
  executor : ExecutorRun ε
  onPreparing : String → Except ε Unit
  onExecution : ExecuteTurnResult → Except ε Unit

/-- The queue, the Session's mark to recover claims before the next, and the items this drain
yielded. -/
structure DispatchState (σ : Type) where
  queue : σ
  recoverBeforeNextClaim : Bool
  yielded : List String

namespace Dispatcher

variable {σ ε : Type}

/-- A call of the queue. -/
def call {α : Type} (m : Effect σ ε α) : Effect (DispatchState σ) ε α :=
  fun s => ((m s.queue).1, { s with queue := (m s.queue).2 })

variable (Q : QueueDispatchCapability σ ε) (env : DispatchEnvironment ε) (claim : QueueDispatchClaim)

def isRetryableSelection : Bool :=
  claim.selection = .exact || claim.selection = .continuedFifo

/-- `executed`: the second time the claim is asked about. -/
def cancelRequestedClaim (executed : Bool) :
    Effect (DispatchState σ) ε (Option QueueDispatchAttempt) :=
  if env.isCancellationRequested executed then do
    call (Q.cancelClaim claim.sessionId claim.claimId)
    return some { result := .cancelled claim.itemId, drainAgain := true }
  else return none

/-- Asked while the claim is still held; an unreadable policy keeps the park. -/
def yieldsFifoPosition : Bool :=
  match env.shouldYieldFifoPosition with
  | .ok yields => yields
  | .error _ => false

/-- Releases the claim, giving up its position where it yields. -/
def releaseYielding (yieldsPosition : Bool) : Effect (DispatchState σ) ε Unit := do
  call (Q.release claim.sessionId claim.claimId none)
  if yieldsPosition then Effect.change fun s => { s with yielded := s.yielded ++ [claim.itemId] }

def settleClassifiedClaim (disposition : QueueDispatchDisposition) (yielding : Bool) :
    Effect (DispatchState σ) ε (Option QueueDispatchAttempt) :=
  if disposition = .ready then return none
  else if disposition = .defer || isRetryableSelection claim then do
    let yieldsPosition := disposition = .defer && !isRetryableSelection claim && yielding &&
      yieldsFifoPosition env
    releaseYielding Q claim yieldsPosition
    return some {
      result := if disposition = .defer then .deferred claim.itemId else .cancelled claim.itemId
      drainAgain := yieldsPosition }
  else do
    call (Q.cancelClaim claim.sessionId claim.claimId)
    return some { result := .cancelled claim.itemId, drainAgain := true }

def settleThrownClaim (executed : Bool) (error : ε) :
    Effect (DispatchState σ) ε QueueDispatchAttempt :=
  Effect.firstSome (cancelRequestedClaim Q env claim executed) do
    call (Q.release claim.sessionId claim.claimId none)
    Effect.raise error

/-- Tries the acknowledgement twice; answers whether to drain again. -/
def acknowledgeAccepted (turnId : String) (accepted : Bool)
    (requireRecovery : Effect (DispatchState σ) ε Unit) : Effect (DispatchState σ) ε Bool := do
  let acknowledge := call (Q.acknowledge claim.sessionId claim.claimId turnId)
  match ← acknowledge.attempt with
  | .ok _ => return !accepted
  | .error _ =>
    match ← acknowledge.attempt with
    | .ok _ => return !accepted
    | .error error =>
      requireRecovery
      Effect.raise error

def settleRejected (reason : String) : Effect (DispatchState σ) ε Bool :=
  if reason ≠ "invalid-session" ∧ reason ≠ "ingress-conflict" ∧ reason ≠ "invalid-input" then do
    call (Q.release claim.sessionId claim.claimId none)
    return false
  else do
    call (Q.reject claim.sessionId claim.claimId
      (if reason = "invalid-input" then "ingress-conflict" else reason))
    return true

/-- `String.startsWith` -/
def startsWith (text start : String) : Bool := start.toList.isPrefixOf text.toList

def settleHandoffRejection (reason : String)
    (queueDisposition : Option TurnSubmissionQueueDisposition) :
    Effect (DispatchState σ) ε (Option QueueDispatchAttempt) :=
  if !startsWith reason "policy:cloud-handoff:" || queueDisposition ≠ some .cancel then return none
  else do
    let denied := startsWith reason "policy:cloud-handoff:denied:"
    if denied then call (Q.reject claim.sessionId claim.claimId reason)
    else call (Q.release claim.sessionId claim.claimId (some reason))
    return some {
      result := .rejected claim.itemId reason
      drainAgain := denied && !isRetryableSelection claim }

def exactRejectedResult (queueItemId reason : String) :
    Option TurnSubmissionQueueDisposition → QueueSteerDispatchResult
  | some .defer => .deferred queueItemId
  | some .cancel => .cancelled queueItemId
  | none => .rejected queueItemId reason

/-- The claim's Turn could not be admitted now: the second point where it may yield. -/
def settleAdmissionDeferral (yielding : Bool) :
    Effect (DispatchState σ) ε QueueDispatchAttempt := do
  let yieldsPosition := yielding && !isRetryableSelection claim && yieldsFifoPosition env
  releaseYielding Q claim yieldsPosition
  return { result := .deferred claim.itemId, drainAgain := yieldsPosition }

/-- The tail of `settleExecutedClaim`, for a Turn that was not started. -/
def settleRejectedClaim (reason : String)
    (queueDisposition : Option TurnSubmissionQueueDisposition) (yielding : Bool) :
    Effect (DispatchState σ) ε QueueDispatchAttempt :=
  Effect.firstSome (cancelRequestedClaim Q env claim true) <|
  Effect.firstSome (settleHandoffRejection Q claim reason queueDisposition) <|
  if isRetryableSelection claim then do
    call (Q.release claim.sessionId claim.claimId none)
    return {
      result := exactRejectedResult claim.itemId reason queueDisposition
      drainAgain := false }
  else if queueDisposition = some .defer then settleAdmissionDeferral Q env claim yielding
  else if queueDisposition = some .cancel then do
    call (Q.cancelClaim claim.sessionId claim.claimId)
    return {
      result := .cancelled claim.itemId
      drainAgain := reason ≠ "policy:turn-abort:pre-admission" }
  else do
    let drainAgain ← settleRejected Q claim reason
    return { result := .rejected claim.itemId reason, drainAgain }

/-- The head of `settleExecutedClaim`, for a Turn that was started now or before. -/
def settleStartedClaim (mode : StartedMode) (turnId : String) (acknowledged : Bool)
    (requireRecovery : Effect (DispatchState σ) ε Unit) :
    Effect (DispatchState σ) ε QueueDispatchAttempt := do
  let accepted : Bool := mode = .accepted
  let drainAgain ← if acknowledged then pure (!accepted)
    else acknowledgeAccepted Q claim turnId accepted requireRecovery
  return { result := .started mode claim.itemId turnId, drainAgain }

def settleExecutedClaim (result : ExecuteTurnResult) (acknowledged yielding : Bool)
    (requireRecovery : Effect (DispatchState σ) ε Unit) :
    Effect (DispatchState σ) ε QueueDispatchAttempt :=
  match result with
  | .accepted turnId => settleStartedClaim Q claim .accepted turnId acknowledged requireRecovery
  | .duplicate turnId => settleStartedClaim Q claim .duplicate turnId acknowledged requireRecovery
  | .rejected reason queueDisposition =>
    settleRejectedClaim Q env claim reason queueDisposition yielding

/-- How a run of the executor ended, with what its callbacks noted. -/
structure ExecutorEnd (ε : Type) where
  outcome : Except ε ExecuteTurnResult
  acknowledged : Bool
  observed : Bool

/-- Runs the executor against the callbacks of `executeClaim`. -/
def runExecutor (requireRecovery : Effect (DispatchState σ) ε Unit) :
    ExecutorRun ε → (acknowledged observed : Bool) → DispatchState σ →
      ExecutorEnd ε × DispatchState σ
  | .returns result, acknowledged, observed, s => ({ outcome := .ok result, acknowledged, observed }, s)
  | .throws error, acknowledged, observed, s => ({ outcome := .error error, acknowledged, observed }, s)
  | .onAccepted accepted next, acknowledged, observed, s =>
    let answer := env.onExecution accepted
    runExecutor requireRecovery (next answer) acknowledged (observed || answer.isOk) s
  | .beforeSubmit turnId next, acknowledged, observed, s =>
    match env.onPreparing turnId with
    | .error error => runExecutor requireRecovery (next (.error error)) acknowledged observed s
    | .ok _ =>
      let (answer, s) := call (Q.prepareDelivery claim.sessionId claim.claimId turnId) s
      runExecutor requireRecovery (next answer) acknowledged observed s
  | .beforeStart turnId next, acknowledged, observed, s =>
    match acknowledgeAccepted Q claim turnId true requireRecovery s with
    | (.ok _, s) => runExecutor requireRecovery (next (.ok ())) true observed s
    | (.error error, s) => runExecutor requireRecovery (next (.error error)) acknowledged observed s

/-- What the executor answered, unless an observer of it throws. -/
def observe (e : ExecutorEnd ε) : Except ε ExecuteTurnResult :=
  match e.outcome with
  | .error error => .error error
  | .ok result => if e.observed then .ok result else (env.onExecution result).map fun _ => result

def executeClaim (requireRecovery : Effect (DispatchState σ) ε Unit) (yielding : Bool) :
    Effect (DispatchState σ) ε QueueDispatchAttempt := fun s =>
  let (e, s) := runExecutor Q env claim requireRecovery env.executor false false s
  match observe env e with
  | .ok result =>
    settleExecutedClaim Q env claim result e.acknowledged yielding requireRecovery s
  | .error error =>
    if e.acknowledged then (.error error, s) else settleThrownClaim Q env claim true error s

def dispatchClaim (requireRecovery : Effect (DispatchState σ) ε Unit) (yielding : Bool) :
    Effect (DispatchState σ) ε QueueDispatchAttempt :=
  match env.classifyQueuedItem with
  | .error error => settleThrownClaim Q env claim false error
  | .ok disposition =>
    Effect.firstSome (cancelRequestedClaim Q env claim false) <|
    Effect.firstSome (settleClassifiedClaim Q env claim disposition yielding) <|
    executeClaim Q env claim requireRecovery yielding

/-- A claim taken while the dispatcher is open, or none: one taken as it stops is released. -/
def claimIfOpen (request : QueueClaimRequest) :
    Effect (DispatchState σ) ε (Option QueueDispatchClaim) :=
  if env.stoppedBeforeClaim then return none
  else do
    match ← call (Q.claimNext request) with
    | none => return none
    | some claim =>
      if env.stoppedAfterClaim then do
        call (Q.release request.sessionId claim.claimId none)
        return none
      else return some claim

/-- `requireRecovery` of a drain. -/
def markRecovery : Effect (DispatchState σ) ε Unit :=
  Effect.change fun s => { s with recoverBeforeNextClaim := true }

def dispatchNext (sessionId : String) : Effect (DispatchState σ) ε Bool := fun s =>
  (do
    match ← claimIfOpen Q env { sessionId, continuePaused := false, excludeItemIds := s.yielded } with
    | none => return false
    | some claim =>
      let attempt ← dispatchClaim Q env claim markRecovery true
      return attempt.drainAgain : Effect (DispatchState σ) ε Bool) s

def dispatchContinuedHead (sessionId : String) :
    Effect (DispatchState σ) ε QueueSteerDispatchResult := do
  match ← claimIfOpen Q env { sessionId, continuePaused := true, excludeItemIds := [] } with
  | none => return .notClaimed
  | some claim =>
    let attempt ← dispatchClaim Q env claim (pure ()) false
    return attempt.result

/-- What a drain does before it claims: recovers the Session's claims if it is marked to. -/
def recoverBeforeClaim (sessionId : String) (nowMs : ℤ) : Effect (DispatchState σ) ε Unit := fun s =>
  if s.recoverBeforeNextClaim then
    (do
      call (Q.recoverClaims sessionId nowMs)
      Effect.change fun s => { s with recoverBeforeNextClaim := false }
      : Effect (DispatchState σ) ε Unit) s
  else (.ok (), s)

end Dispatcher

end Kinetick
