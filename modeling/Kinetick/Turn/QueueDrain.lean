import Mathlib.Data.Finset.Card
import Kinetick.Queue.Guarantees
import Kinetick.Turn.QueueDispatcher

/-!
# The drain of a Session

The loop of `drain`, which dispatches the head of a Session's queue again as long as an attempt asks
for it or a new wake came, and the queue it calls: the facade over the Queue repository. What each
pass meets may be anything, and differ from pass to pass.
-/

namespace Kinetick

namespace Dispatcher

variable {σ ε : Type}

/-- What one pass of the loop meets. -/
structure DrainEnvironment (ε : Type) where
  /-- The dispatcher is closed or the Session blocked, before the recovery and after the dispatch. -/
  stoppedAtRecovery : Bool
  stoppedAtTest : Bool
  recoverAtMs : ℤ
  dispatch : DispatchEnvironment ε

/-- The wakes of the Session's state beside what its dispatches read. -/
structure DrainState (σ : Type) where
  requestedWake : ℕ
  startedWake : ℕ
  dispatch : DispatchState σ

variable (Q : QueueDispatchCapability σ ε) (sessionId : String)

/-- A pass starts: a new wake yields nothing any more. -/
def DrainState.started (s : DrainState σ) : DispatchState σ :=
  { s.dispatch with yielded := if s.startedWake < s.requestedWake then [] else s.dispatch.yielded }

/-- What a pass does first. -/
def recoverOpen (env : DrainEnvironment ε) : Effect (DispatchState σ) ε Unit :=
  if env.stoppedAtRecovery then pure () else recoverBeforeClaim Q sessionId env.recoverAtMs

/-- The body of the loop; answers `drainAgain`. -/
def drainPass (env : DrainEnvironment ε) : Effect (DrainState σ) ε Bool := fun s =>
  let pass : Effect (DispatchState σ) ε Bool := do
    recoverOpen Q sessionId env
    dispatchNext Q env.dispatch sessionId
  let (drainAgain, dispatch) := pass s.started
  (drainAgain, { s with startedWake := s.requestedWake, dispatch })

/-- The loop, for so many passes; `none` where these are not enough. -/
def drainLoop (envs : ℕ → DrainEnvironment ε) :
    (passes : ℕ) → (next : ℕ) → DrainState σ → Option (Except ε Unit × DrainState σ)
  | 0, _, _ => none
  | passes + 1, next, s =>
    match drainPass Q sessionId (envs next) s with
    | (.error error, s) => some (.error error, s)
    | (.ok drainAgain, s) =>
      if !(envs next).stoppedAtTest && (drainAgain || s.startedWake < s.requestedWake) then
        drainLoop envs passes (next + 1) s
      else some (.ok (), s)

def drain (envs : ℕ → DrainEnvironment ε) (passes : ℕ) (s : DrainState σ) :
    Option (Except ε Unit × DrainState σ) :=
  drainLoop Q sessionId envs passes 0 { s with dispatch := { s.dispatch with yielded := [] } }

end Dispatcher

/-! ## The facade over the repository -/

/-- What a call of the repository meets: its environment, the acceptance of Turns, an error of the
database before it commits, and what the sink of the facts answers after. -/
structure RepositoryCall where
  env : QueueEnvironment
  isAccepted : QueueClaimAcceptanceQuery → Bool
  fails : Option QueueError
  handled : Except QueueError Unit

/-- The database, how many calls were made, and what each meets. -/
structure RepositoryQueue where
  db : QueueDb
  calls : ℕ
  meets : ℕ → RepositoryCall

namespace RepositoryQueue

variable {α : Type}

/-- A call of the repository. -/
def call (operation : RepositoryCall → QueueTransaction α) (handles : Bool) :
    Effect RepositoryQueue QueueError α := fun q =>
  let meets := q.meets q.calls
  let q := { q with calls := q.calls + 1 }
  match meets.fails with
  | some error => (.error error, q)
  | none =>
    match operation meets q.db with
    | (.error error, db) => (.error error, { q with db })
    | (.ok a, db) => (if handles then meets.handled.map fun _ => a else .ok a, { q with db })

/-- A call whose facts are handled. -/
def committed (operation : RepositoryCall → QueueTransaction (CommittedQueueResult α)) :
    Effect RepositoryQueue QueueError α := do
  let result ← call operation true
  return result.value

/-- `toDispatchClaim`, of what the dispatcher reads; the lease is in whole milliseconds. -/
def toDispatchClaim (item : QueueDispatchItem) : QueueDispatchClaim where
  claimId := item.claimId
  sessionId := item.sessionId
  itemId := item.item.itemId
  selection := item.selection
  claimOwnerId := item.claimOwnerId
  claimLeaseExpiresAt := match item.claimLeaseExpiresAt with
    | .finite value => value.floor
    | _ => 0

def claimInput (request : QueueClaimRequest) : QueueClaimInput where
  sessionId := request.sessionId
  itemId := none
  continuePaused := request.continuePaused
  excludeItemIds := request.excludeItemIds
  allowedSources := none
  nowMs := none

open QueueRepository in
/-- `createQueueDispatchCapability`. A recovery reads the clock of its caller. -/
def capability : QueueDispatchCapability RepositoryQueue QueueError where
  claimNext request := do
    let claim ← committed fun meets => QueueRepository.claimNext meets.env (claimInput request)
    return claim.map toDispatchClaim
  prepareDelivery sessionId claimId turnId :=
    call (fun _ => QueueRepository.prepareDelivery sessionId claimId turnId) false
  acknowledge sessionId claimId turnId := do
    let _ ← committed fun meets =>
      acknowledgeClaim meets.env sessionId claimId (some turnId) (some meets.isAccepted)
    return ()
  release sessionId claimId reason := do
    let _ ← committed fun meets => releaseClaim meets.env sessionId claimId reason
    return ()
  reject sessionId claimId reason := do
    let _ ← committed fun meets => rejectClaim meets.env sessionId claimId reason
    return ()
  cancelClaim sessionId claimId := do
    let _ ← committed fun meets => QueueRepository.cancelClaim meets.env sessionId claimId
    return ()
  recoverClaims sessionId nowMs := do
    let _ ← committed fun meets => QueueRepository.recoverClaims { meets.env with nowMs } sessionId
      meets.isAccepted { claimedAtOrBeforeMs := none }
    return ()

end RepositoryQueue

/-! ## What a pass that asks for another does -/

namespace Dispatcher

/-- The pass took an item that was pending and had not yielded, and removed it or had it yield. -/
def Advances (sessionId : String) (s s' : DrainState RepositoryQueue) : Prop :=
  ∃ itemId ∈ s.dispatch.queue.db.itemIds sessionId, itemId ∉ s.started.yielded ∧
    (s'.dispatch.yielded = s.started.yielded ∧
        itemId ∉ s'.dispatch.queue.db.itemIds sessionId ∨
      s'.dispatch.yielded = s.started.yielded ++ [itemId])

end Dispatcher

end Kinetick
