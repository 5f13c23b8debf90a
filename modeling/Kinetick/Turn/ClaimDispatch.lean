import Kinetick.Async
import Kinetick.Turn.QueueDispatcher

/-!
# The dispatch of a claim, call by call

What the dispatcher does with a claim it took, as a computation that awaits each call of the queue,
the classifier, the executor and the observers: other work of the dispatcher runs in between.
-/

namespace Kinetick

deriving instance DecidableEq for ExecuteTurnResult

/-- What the dispatch of a claim asks. -/
inductive DispatchCall
  | classifyQueuedItem
  | isCancellationRequested (executed : Bool)
  | shouldYieldFifoPosition
  | execute
  | onPreparing (turnId : String)
  | onExecution (result : ExecuteTurnResult)
  | prepareDelivery (turnId : String)
  | acknowledge (turnId : String) (retried : Bool)
  | release (reason : Option String)
  | reject (reason : String)
  | cancelClaim
  /-- `requireRecovery` -/
  | requireRecovery
  /-- `yielded.add` -/
  | yieldItem
  deriving DecidableEq

/-- What a call answers. -/
abbrev DispatchCall.Answer (ε : Type) : DispatchCall → Type
  | classifyQueuedItem => Except ε QueueDispatchDisposition
  | isCancellationRequested _ => Bool
  | shouldYieldFifoPosition => Except ε Bool
  | execute => ExecutorRun ε
  | onPreparing _ => Except ε Unit
  | onExecution _ => Except ε Unit
  | prepareDelivery _ => Except ε Unit
  | acknowledge _ _ => Except ε Unit
  | release _ => Except ε Unit
  | reject _ => Except ε Unit
  | cancelClaim => Except ε Unit
  | requireRecovery => Unit
  | yieldItem => Unit

/-- A computation over the calls of a dispatch. -/
abbrev Dispatching (ε α : Type) := Async DispatchCall (DispatchCall.Answer ε) ε α

namespace Interleaved

open Dispatcher (isRetryableSelection startsWith exactRejectedResult ExecutorEnd)

variable {ε : Type}

def release (reason : Option String) : Dispatching ε Unit := .ask (.release reason) .ret

def reject (reason : String) : Dispatching ε Unit := .ask (.reject reason) .ret

def cancelClaim : Dispatching ε Unit := .ask .cancelClaim .ret

def onExecution (result : ExecuteTurnResult) : Dispatching ε Unit := .ask (.onExecution result) .ret

variable (claim : QueueDispatchClaim)

def cancelRequestedClaim (executed : Bool) : Dispatching ε (Option QueueDispatchAttempt) := do
  if ← Async.request (.isCancellationRequested executed) then do
    cancelClaim
    return some { result := .cancelled claim.itemId, drainAgain := true }
  else return none

/-- Asked while the claim is still held; an unreadable policy keeps the park. -/
def yieldsFifoPosition : Dispatching ε Bool :=
  .ask .shouldYieldFifoPosition fun
    | .ok yields => pure yields
    | .error _ => pure false

/-- Releases the claim, giving up its position where it yields. -/
def releaseYielding (yieldsPosition : Bool) : Dispatching ε Unit := do
  release none
  if yieldsPosition then .ask .yieldItem fun _ => pure ()

def settleClassifiedClaim (disposition : QueueDispatchDisposition) (yielding : Bool) :
    Dispatching ε (Option QueueDispatchAttempt) :=
  if disposition = .ready then return none
  else if disposition = .defer || isRetryableSelection claim then do
    let yieldsPosition ← if disposition = .defer && !isRetryableSelection claim && yielding
      then yieldsFifoPosition else pure false
    releaseYielding yieldsPosition
    return some {
      result := if disposition = .defer then .deferred claim.itemId else .cancelled claim.itemId
      drainAgain := yieldsPosition }
  else do
    cancelClaim
    return some { result := .cancelled claim.itemId, drainAgain := true }

def settleThrownClaim (executed : Bool) (error : ε) : Dispatching ε QueueDispatchAttempt :=
  Async.firstSome (cancelRequestedClaim claim executed) do
    release none
    Async.raise error

/-- Tries the acknowledgement twice; answers whether to drain again. -/
def acknowledgeAccepted (turnId : String) (accepted : Bool) : Dispatching ε Bool :=
  .ask (.acknowledge turnId false) fun
    | .ok _ => pure !accepted
    | .error _ => .ask (.acknowledge turnId true) fun
      | .ok _ => pure !accepted
      | .error error => .ask .requireRecovery fun _ => Async.raise error

def settleRejected (reason : String) : Dispatching ε Bool :=
  if reason ≠ "invalid-session" ∧ reason ≠ "ingress-conflict" ∧ reason ≠ "invalid-input" then do
    release none
    return false
  else do
    reject (if reason = "invalid-input" then "ingress-conflict" else reason)
    return true

def settleHandoffRejection (reason : String)
    (queueDisposition : Option TurnSubmissionQueueDisposition) :
    Dispatching ε (Option QueueDispatchAttempt) :=
  if !startsWith reason "policy:cloud-handoff:" || queueDisposition ≠ some .cancel then return none
  else do
    let denied := startsWith reason "policy:cloud-handoff:denied:"
    if denied then reject reason else release (some reason)
    return some {
      result := .rejected claim.itemId reason
      drainAgain := denied && !isRetryableSelection claim }

/-- The claim's Turn could not be admitted now: the second point where it may yield. -/
def settleAdmissionDeferral (yielding : Bool) : Dispatching ε QueueDispatchAttempt := do
  let yieldsPosition ← if yielding && !isRetryableSelection claim
    then yieldsFifoPosition else pure false
  releaseYielding yieldsPosition
  return { result := .deferred claim.itemId, drainAgain := yieldsPosition }

/-- The tail of `settleExecutedClaim`, for a Turn that was not started. -/
def settleRejectedClaim (reason : String)
    (queueDisposition : Option TurnSubmissionQueueDisposition) (yielding : Bool) :
    Dispatching ε QueueDispatchAttempt :=
  Async.firstSome (cancelRequestedClaim claim true) <|
  Async.firstSome (settleHandoffRejection claim reason queueDisposition) <|
  if isRetryableSelection claim then do
    release none
    return {
      result := exactRejectedResult claim.itemId reason queueDisposition
      drainAgain := false }
  else if queueDisposition = some .defer then settleAdmissionDeferral claim yielding
  else if queueDisposition = some .cancel then do
    cancelClaim
    return {
      result := .cancelled claim.itemId
      drainAgain := reason ≠ "policy:turn-abort:pre-admission" }
  else do
    let drainAgain ← settleRejected reason
    return { result := .rejected claim.itemId reason, drainAgain }

/-- The head of `settleExecutedClaim`, for a Turn that was started now or before. -/
def settleStartedClaim (mode : StartedMode) (turnId : String) (acknowledged : Bool) :
    Dispatching ε QueueDispatchAttempt := do
  let accepted : Bool := mode = .accepted
  let drainAgain ← if acknowledged then pure (!accepted) else acknowledgeAccepted turnId accepted
  return { result := .started mode claim.itemId turnId, drainAgain }

def settleExecutedClaim (result : ExecuteTurnResult) (acknowledged yielding : Bool) :
    Dispatching ε QueueDispatchAttempt :=
  match result with
  | .accepted turnId => settleStartedClaim claim .accepted turnId acknowledged
  | .duplicate turnId => settleStartedClaim claim .duplicate turnId acknowledged
  | .rejected reason queueDisposition =>
    settleRejectedClaim claim reason queueDisposition yielding

/-- Runs the executor against the callbacks of `executeClaim`. -/
def runExecutor : ExecutorRun ε → (acknowledged observed : Bool) → Dispatching ε (ExecutorEnd ε)
  | .returns result, acknowledged, observed =>
    pure { outcome := .ok result, acknowledged, observed }
  | .throws error, acknowledged, observed =>
    pure { outcome := .error error, acknowledged, observed }
  | .onAccepted accepted next, acknowledged, observed =>
    .ask (.onExecution accepted) fun answer =>
      runExecutor (next answer) acknowledged (observed || answer.isOk)
  | .beforeSubmit turnId next, acknowledged, observed =>
    .ask (.onPreparing turnId) fun
      | .error error => runExecutor (next (.error error)) acknowledged observed
      | .ok _ => .ask (.prepareDelivery turnId) fun answer =>
        runExecutor (next answer) acknowledged observed
  | .beforeStart turnId next, acknowledged, observed =>
    (acknowledgeAccepted turnId true).attempt >>= fun
      | .ok _ => runExecutor (next (.ok ())) true observed
      | .error error => runExecutor (next (.error error)) acknowledged observed

/-- What the executor answered, unless an observer of it throws. -/
def observe (e : ExecutorEnd ε) : Dispatching ε ExecuteTurnResult :=
  match e.outcome with
  | .error error => Async.raise error
  | .ok result => do
    if e.observed then return result
    else do
      onExecution result
      return result

def executeClaim (yielding : Bool) : Dispatching ε QueueDispatchAttempt := do
  let run ← Async.request .execute
  let e ← runExecutor run false false
  match ← (observe e).attempt with
  | .ok result => settleExecutedClaim claim result e.acknowledged yielding
  | .error error =>
    if e.acknowledged then Async.raise error else settleThrownClaim claim true error

def dispatchClaim (yielding : Bool) : Dispatching ε QueueDispatchAttempt :=
  .ask .classifyQueuedItem fun
    | .error error => settleThrownClaim claim false error
    | .ok disposition =>
      Async.firstSome (cancelRequestedClaim claim false) <|
      Async.firstSome (settleClassifiedClaim claim disposition yielding) <|
      executeClaim claim yielding

end Interleaved

end Kinetick
