import Kinetick.Turn.QueueDispatcher

/-!
# What becomes of a claim the dispatcher takes

The contract of the queue says when a claim is held, and the dispatch of a claim is to end with the
claim settled, or with its Session marked so that the next drain recovers it.
-/

namespace Kinetick

/-- The claim's lease has not ended and its owner is alive. -/
def QueueDispatchClaim.Active (isClaimOwnerAlive : String → Bool) (nowMs : ℤ)
    (claim : QueueDispatchClaim) : Prop :=
  nowMs < claim.claimLeaseExpiresAt ∧ isClaimOwnerAlive claim.claimOwnerId

instance (isClaimOwnerAlive : String → Bool) (nowMs : ℤ) (claim : QueueDispatchClaim) :
    Decidable (claim.Active isClaimOwnerAlive nowMs) :=
  inferInstanceAs (Decidable (_ ∧ _))

variable {σ ε : Type}

/-- The queue's contract, for the states in which its row is held by a claim. An acknowledgement may
fail in any state; nothing else fails on a held claim. -/
structure QueueDispatchCapability.Contract (Q : QueueDispatchCapability σ ε)
    (Holds : σ → QueueDispatchClaim → Prop) (isClaimOwnerAlive : String → Bool) : Prop where
  claimNext : ∀ {request s s' claim}, Q.claimNext request s = (.ok (some claim), s') →
    claim.sessionId = request.sessionId ∧ Holds s' claim
  prepareDelivery : ∀ claim turnId s,
    Holds (Q.prepareDelivery claim.sessionId claim.claimId turnId s).2 claim ↔ Holds s claim
  acknowledged : ∀ {claim turnId s s'},
    Q.acknowledge claim.sessionId claim.claimId turnId s = (.ok (), s') → ¬ Holds s' claim
  unacknowledged : ∀ {claim turnId s s' error},
    Q.acknowledge claim.sessionId claim.claimId turnId s = (.error error, s') →
      (Holds s' claim ↔ Holds s claim)
  release : ∀ claim reason s, ¬ Holds (Q.release claim.sessionId claim.claimId reason s).2 claim
  reject : ∀ claim reason s, ¬ Holds (Q.reject claim.sessionId claim.claimId reason s).2 claim
  cancelClaim : ∀ claim s, ¬ Holds (Q.cancelClaim claim.sessionId claim.claimId s).2 claim
  recoverClaims : ∀ claim nowMs s,
    ∃ s', Q.recoverClaims claim.sessionId nowMs s = (.ok (), s') ∧
      (Holds s' claim ↔ Holds s claim ∧ claim.Active isClaimOwnerAlive nowMs)

namespace Dispatcher

/-- The two ways a claim is taken and dispatched. -/
inductive Entry
  | dispatch
  | continuePaused
  deriving DecidableEq

variable (Q : QueueDispatchCapability σ ε) (env : DispatchEnvironment ε)

/-- The request of the entry in a state of the dispatcher. -/
def Entry.request (sessionId : String) (s : DispatchState σ) : Entry → QueueClaimRequest
  | dispatch => { sessionId, continuePaused := false, excludeItemIds := s.yielded }
  | continuePaused => { sessionId, continuePaused := true, excludeItemIds := [] }

/-- The state the entry leaves. -/
def Entry.after (sessionId : String) (s : DispatchState σ) : Entry → DispatchState σ
  | dispatch => (dispatchNext Q env sessionId s).2
  | continuePaused => (dispatchContinuedHead Q env sessionId s).2

/-- The claim is settled, or its Session is marked and a drain that starts at `nextDrainMs` recovers
it before it claims again. -/
def SettledOrFlagged (Holds : σ → QueueDispatchClaim → Prop) (claim : QueueDispatchClaim)
    (nextDrainMs : ℤ) (s : DispatchState σ) : Prop :=
  ¬ Holds s.queue claim ∨ s.recoverBeforeNextClaim = true ∧
    ¬ Holds (recoverBeforeClaim Q claim.sessionId nextDrainMs s).2.queue claim

variable (claim : QueueDispatchClaim)

/-- Both tries of an acknowledgement fail, with the queue they leave and the last error. -/
def BothFail (turnId : String) (q q' : σ) (error : ε) : Prop :=
  ∃ q₁ error₁, Q.acknowledge claim.sessionId claim.claimId turnId q = (.error error₁, q₁) ∧
    Q.acknowledge claim.sessionId claim.claimId turnId q₁ = (.error error, q')

/-- The executor, on the answers it gets, starts a Turn whose acknowledgement fails before the start
and both times after it: no acknowledgement of the claim goes through. -/
def EndsUnacknowledged : ExecutorRun ε → (observed : Bool) → σ → Prop
  | .returns (.accepted turnId), observed, q =>
    (observed = true ∨ env.onExecution (.accepted turnId) = .ok ()) ∧
      ∃ q' error, BothFail Q claim turnId q q' error
  | .returns (.duplicate turnId), observed, q =>
    (observed = true ∨ env.onExecution (.duplicate turnId) = .ok ()) ∧
      ∃ q' error, BothFail Q claim turnId q q' error
  | .returns (.rejected _ _), _, _ => False
  | .throws _, _, _ => False
  | .onAccepted accepted next, observed, q =>
    EndsUnacknowledged (next (env.onExecution accepted))
      (observed || (env.onExecution accepted).isOk) q
  | .beforeSubmit turnId next, observed, q =>
    match env.onPreparing turnId with
    | .error error => EndsUnacknowledged (next (.error error)) observed q
    | .ok _ =>
      EndsUnacknowledged (next (Q.prepareDelivery claim.sessionId claim.claimId turnId q).1) observed
        (Q.prepareDelivery claim.sessionId claim.claimId turnId q).2
  | .beforeStart turnId next, observed, q =>
    ∃ q' error, BothFail Q claim turnId q q' error ∧
      EndsUnacknowledged (next (.error error)) observed q'

/-- The claim is handed to an executor that ends unacknowledged. -/
def LeftUnacknowledged (q : σ) : Prop :=
  env.stoppedAfterClaim = false ∧ env.classifyQueuedItem = .ok .ready ∧
    env.isCancellationRequested false = false ∧ EndsUnacknowledged Q env claim env.executor false q

end Dispatcher

/-! ## A queue of one row -/

/-- A queue of one row: the claim that holds the row, and how many acknowledgements will fail. -/
structure OneRowQueue where
  held : Option QueueDispatchClaim
  failures : ℕ
  deriving DecidableEq

namespace OneRowQueue

def Holds (q : OneRowQueue) (claim : QueueDispatchClaim) : Prop := q.held = some claim

instance (q : OneRowQueue) (claim : QueueDispatchClaim) : Decidable (q.Holds claim) :=
  inferInstanceAs (Decidable (_ = _))

/-- The claims of the one owner, which is alive, hold for 30 seconds. -/
def claimOf (request : QueueClaimRequest) : QueueDispatchClaim :=
  { claimId := "claim", sessionId := request.sessionId, itemId := "item"
    selection := if request.continuePaused then .continuedFifo else .fifo
    claimOwnerId := "owner", claimLeaseExpiresAt := 30000 }

def claimNext (request : QueueClaimRequest) : Effect OneRowQueue String (Option QueueDispatchClaim) :=
  fun q => match q.held with
    | some _ => (.ok none, q)
    | none => (.ok (some (claimOf request)), { q with held := some (claimOf request) })

/-- Whether a claim of the ids holds the row. -/
def holdsIds (sessionId claimId : String) (q : OneRowQueue) : Bool :=
  q.held.any fun claim => claim.sessionId = sessionId ∧ claim.claimId = claimId

def settle (sessionId claimId : String) : Effect OneRowQueue String Unit := fun q =>
  if q.holdsIds sessionId claimId then (.ok (), { q with held := none })
  else (.error "claim not found", q)

def acknowledge (sessionId claimId : String) : Effect OneRowQueue String Unit := fun q =>
  if 0 < q.failures then (.error "database is locked", { q with failures := q.failures - 1 })
  else settle sessionId claimId q

def recoverClaims (sessionId : String) (nowMs : ℤ) : Effect OneRowQueue String Unit := fun q =>
  (.ok (), { q with held := q.held.filter fun claim =>
    claim.sessionId ≠ sessionId ∨ claim.Active (· = "owner") nowMs })

def capability : QueueDispatchCapability OneRowQueue String where
  claimNext := claimNext
  prepareDelivery _ _ _ := pure ()
  acknowledge sessionId claimId _ := acknowledge sessionId claimId
  release sessionId claimId _ := settle sessionId claimId
  reject sessionId claimId _ := settle sessionId claimId
  cancelClaim := settle
  recoverClaims := recoverClaims

/-- The row is not claimed, and two acknowledgements will fail. -/
def unclaimed : DispatchState OneRowQueue :=
  { queue := { held := none, failures := 2 }, recoverBeforeNextClaim := false, yielded := [] }

end OneRowQueue

/-- An executor that starts the Turn without a callback, and nothing else of note. -/
def startsTurn : DispatchEnvironment String where
  stoppedBeforeClaim := false
  stoppedAfterClaim := false
  classifyQueuedItem := .ok .ready
  isCancellationRequested _ := false
  shouldYieldFifoPosition := .ok false
  executor := .returns (.accepted "turn")
  onPreparing _ := .ok ()
  onExecution _ := .ok ()

end Kinetick
