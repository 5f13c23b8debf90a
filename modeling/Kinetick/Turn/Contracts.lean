import Kinetick.Turn.Schema
import Kinetick.Queue.Pause

/-!
# What the Turn repository takes and answers

Inputs, results and errors of the repository, and the verdicts of the capabilities injected into
it: Session admission, the Queue's priority fence, product policy and the liveness of lease
owners. A verdict belongs to one call, so a run may draw any sequence of them.
-/

namespace Kinetick

inductive TurnBusyReason
  | turn
  | compaction
deriving DecidableEq, Repr

/-- The unique indexes a write can violate, by table. -/
inductive TurnTableName
  | sessionLocks
  | turnIngress
  | turnIngressSequences
  | turnIngressClientRequests
deriving DecidableEq, Repr

/-- Why a transaction of the repository rolls back. -/
inductive TurnError
  | uniqueConstraint (table : TurnTableName)
  | deletionNotQuiescent (sessionId : String)
  | deletionOwnedByAnother (sessionId : String)
  | deletionHasTurnData (sessionId turnId : String)
  | deletionActiveTurnMissing (sessionId : String)
  | deletionReclaimLost (sessionId : String)
  | deletionRecoveryLost (sessionId : String)
  | expiredDeletionTurnLost (sessionId turnId : String)
  | lockCannotEnterDeletion (sessionId : String) (ownerKind : OwnerKind)
  | settlementLost (sessionId turnId : String)
  | restartRecoveryLost (sessionId ownerId : String)
  | restartTurnRecoveryLost (sessionId turnId : String)
  | claimNotAccepted (sessionId claimId : String)
  /-- The database or an injected capability threw. -/
  | thrown
deriving DecidableEq, Repr

inductive TurnRecoveryReason
  | processRestart
  | expiredLease
  | settlementRetry
deriving DecidableEq, Repr

/-- The receipt of a recovery. Its outcome is always `failed`. -/
structure TurnRecoveryTerminalFact where
  sessionId : String
  turnId : String
  completedAtMs : ℤ
  reason : TurnRecoveryReason
deriving DecidableEq, Repr

inductive TurnTerminalOutcome
  | completed
  | failed
  | aborted
deriving DecidableEq, Repr

/-- The status a settled Turn is stored with. -/
def TurnTerminalOutcome.status : TurnTerminalOutcome → TurnStatus
  | completed => .completed
  | failed => .failed
  | aborted => .aborted

inductive TurnAdmissionRejectionReason
  | invalidSession
  | invalidInput
  | activeTurn
  | compactionActive
  | sessionDeleting
  | sessionMutating
  | priorityBlocked
  | ingressConflict
  | policy (reason : String)
deriving DecidableEq, Repr

/-- What the Session admission capability refuses with. -/
inductive SessionRejection
  | invalidSession
  | sessionDeleting
  | sessionMutating
deriving DecidableEq, Repr

def SessionRejection.reason : SessionRejection → TurnAdmissionRejectionReason
  | invalidSession => .invalidSession
  | sessionDeleting => .sessionDeleting
  | sessionMutating => .sessionMutating

/-- The claim and item a Queue Turn is admitted for. -/
structure QueueIngressIdentity where
  claimId : String
  itemId : String
  source : QueueMessageSource
deriving DecidableEq, Repr

structure AdmitTurnInput where
  sessionId : String
  turnId : String
  busyReason : TurnBusyReason
  inputDigest : String
  attachmentCount : ℕ
  hasContent : Bool
  foreground : Bool
  consumeQueuePause : Bool
  clientRequestId : Option String
  queueIngress : Option QueueIngressIdentity
  bypassPriorityFence : Bool
  bypassSessionMutation : Bool
deriving DecidableEq, Repr

inductive AdmitTurnResult
  | accepted (leaseId : String) (acceptedSequence : ℕ) (acceptedAtMs : ℤ) (foreground : Bool)
      (queuePauseRevokeToken : Option QueuePause)
      (recoveredTerminalFacts : List TurnRecoveryTerminalFact)
  | duplicate (turnId : String) (recoveredTerminalFacts : List TurnRecoveryTerminalFact)
  | rejected (reason : TurnAdmissionRejectionReason)
      (recoveredTerminalFacts : List TurnRecoveryTerminalFact)
deriving DecidableEq, Repr

/-- The verdicts one admission draws from its capabilities, and the lease id it would use. -/
structure AdmitVerdicts where
  /-- `sessionAdmission.rejectionInTransaction` -/
  sessionRejection : Option SessionRejection
  /-- `priorityFence.blocksInTransaction` -/
  priorityBlocks : Bool
  /-- `admissionPolicy.applyInTransaction` -/
  policyRejection : Option TurnAdmissionRejectionReason
  /-- `priorityFence.acceptedInTransaction`: the revoke token, or a throw -/
  acceptedEffect : Option (Option QueuePause)
  /-- `process.kill(pid, 0)`: alive, gone, or unknown -/
  killProbe : ℕ → Option Bool
  leaseId : String

structure SettleTurnInput where
  sessionId : String
  turnId : String
  leaseId : String
  outcome : TurnTerminalOutcome
deriving DecidableEq, Repr

/-- What a settlement that threw leaves to be retried. -/
structure PendingSettlement where
  sessionId : String
  turnId : String
  leaseId : String
deriving DecidableEq, Repr

inductive SettleTurnResult
  | settled (completedAtMs : ℤ) (outcome : TurnTerminalOutcome)
  | staleOwner
deriving DecidableEq, Repr

inductive SessionDeletionState
  | notStarted
  | quiescent
  | maintenance
  | active (turnId : String)
deriving DecidableEq, Repr

/-- What `beginSessionDeletion` draws: a fresh owner id and the liveness of lock owners. -/
structure DeletionVerdicts where
  deletionOwnerId : String
  isLeaseOwnerAlive : String → Option Bool
  isLeaseOwnerCurrent : String → Bool

/-- What `recoverProcessRestart` draws. -/
structure RestartVerdicts where
  isLeaseOwnerAlive : String → Option Bool
  /-- the id made for the deletion of a session -/
  deletionOwnerId : String → String
  /-- whether the observations of earlier scans call a live-looking legacy lease stalled -/
  shouldRecoverLegacyTurnLease : SessionLock → Bool

inductive ReserveSteeringReceiptResult
  | reserved
  | duplicate (turnId : String)
  | notAccepted
deriving DecidableEq, Repr

/-- The client request an active Turn is steered with, and that Turn. -/
structure SteeringReceipt where
  sessionId : String
  clientRequestId : String
  turnId : String
deriving DecidableEq, Repr

/-- `options.leaseMs`, where it is given. -/
structure TurnRepositoryOptions where
  leaseMs : Option ℤ

/-- `Math.max(1, Math.floor(options.leaseMs ?? DEFAULT_LEASE_MS))` -/
def TurnRepositoryOptions.lease (options : TurnRepositoryOptions) : ℤ :=
  max 1 (options.leaseMs.getD (30 * 60 * 1000))

end Kinetick
