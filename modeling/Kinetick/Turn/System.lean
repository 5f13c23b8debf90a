import Kinetick.Turn.Repository
import Kinetick.Machine
import Mathlib.Logic.Function.Basic

/-!
# Runs of the Turn repository

The repository holds the tables and, in memory, the settlement of each Session that threw and is
to be retried. Every call is one event, in any order, with the clock the caller sees and the
verdicts it draws. A transaction that throws leaves the tables as they were, and the calls that
touch the retry record do so only after their transaction committed, except that a settlement
that threw records itself.
-/

namespace Kinetick

/-- The tables, the settlements to be retried and the clock. -/
structure TurnRepository where
  tables : TurnTables
  pendingSettlements : String → Option PendingSettlement
  nowMs : ℤ

namespace TurnRepository

/-- The repository of a new database. -/
def initial : TurnRepository where
  tables := .empty
  pendingSettlements := fun _ => none
  nowMs := 0

variable (r : TurnRepository)

def recordPending (pending : PendingSettlement) : TurnRepository :=
  { r with
    pendingSettlements := Function.update r.pendingSettlements pending.sessionId (some pending) }

def forgetPending (sessionId : String) : TurnRepository :=
  { r with pendingSettlements := Function.update r.pendingSettlements sessionId none }

@[simp] theorem forgetPending_tables (s : String) : (r.forgetPending s).tables = r.tables := rfl

@[simp] theorem recordPending_pending (p : PendingSettlement) (s : String) :
    (r.recordPending p).pendingSettlements s =
      if s = p.sessionId then some p else r.pendingSettlements s := by
  simp [recordPending, Function.update_apply]

@[simp] theorem forgetPending_pending (s t : String) :
    (r.forgetPending t).pendingSettlements s =
      if s = t then none else r.pendingSettlements s := by
  simp [forgetPending, Function.update_apply]

end TurnRepository

/-- The calls a repository answers. -/
inductive TurnEvent
  | setClock (nowMs : ℤ)
  | admitTurn (input : AdmitTurnInput) (verdicts : AdmitVerdicts)
  | renew (sessionId leaseId : String)
  /-- `thrown`: the database or the priority fence threw in the transaction -/
  | settle (input : SettleTurnInput) (thrown : Bool)
  | recoverExpired (sessionId : String)
  | recoverProcessRestart (processStartedAtMs : ℤ) (verdicts : RestartVerdicts)
  | revokeAdmission (sessionId turnId leaseId : String)
  | tryAcquireSessionMaintenance (sessionId : String) (rejection : Option SessionRejection)
      (leaseId : String)
  | renewSessionMaintenance (sessionId leaseId : String)
  | releaseSessionMaintenance (sessionId leaseId : String)
  | beginSessionDeletion (sessionId : String) (verdicts : DeletionVerdicts)
  | deleteSessionData (sessionId : String)
  | completeSessionDeletion (sessionId : String) (isLeaseOwnerCurrent : String → Bool)
  | reserveSteeringReceipt (input : SteeringReceipt)
  | releaseSteeringReceipt (input : SteeringReceipt)
  | markAcknowledged (query : QueueClaimAcceptanceQuery)

/-- What a call returns or throws. -/
inductive TurnResponse
  | done
  | threw (error : TurnError)
  | changed (once : Bool)
  | admitted (result : AdmitTurnResult)
  | settled (result : SettleTurnResult)
  | recovered (result : TurnLeaseRecoveryResult)
  | restarted (result : TurnTables.TurnProcessRestartRecoveryResult)
  | acquired (lease : Option (String × List TurnRecoveryTerminalFact))
  | deleting (state : SessionDeletionState)
  | reserved (result : ReserveSteeringReceiptResult)
deriving DecidableEq

namespace TurnRepository

variable (r : TurnRepository)

/-- Commits a transaction, or rolls it back where it threw. -/
def transaction {α : Type} (result : Except TurnError (TurnTables × α))
    (answer : α → TurnResponse) : TurnRepository × TurnResponse :=
  match result with
  | .error error => (r, .threw error)
  | .ok (tables, a) => ({ r with tables }, answer a)

/-- `admitRepositoryTurn`: any committed outcome forgets the settlement it started from. -/
def admitTurn (leaseMs : ℤ) (input : AdmitTurnInput) (verdicts : AdmitVerdicts) :
    TurnRepository × TurnResponse :=
  match r.tables.admitTransaction input (r.pendingSettlements input.sessionId) verdicts r.nowMs
      leaseMs with
  | .error error => (r, .threw error)
  | .ok (tables, result) =>
    ({ r with tables }.forgetPending input.sessionId, .admitted result)

/-- `settle`: forgets the settlement to be retried where it is this one, records it on a throw. -/
def settle (input : SettleTurnInput) (thrown : Bool) : TurnRepository × TurnResponse :=
  let pending : PendingSettlement :=
    { sessionId := input.sessionId, turnId := input.turnId, leaseId := input.leaseId }
  match if thrown then .error .thrown else r.tables.settleInTransaction input r.nowMs with
  | .error error => (r.recordPending pending, .threw error)
  | .ok (tables, result) =>
    let r' : TurnRepository := { r with tables }
    (if r.pendingSettlements input.sessionId = some pending then r'.forgetPending input.sessionId
      else r', .settled result)

/-- `beginSessionDeletion` -/
def beginSessionDeletion (sessionId : String) (verdicts : DeletionVerdicts) :
    TurnRepository × TurnResponse :=
  match r.tables.beginSessionDeletion sessionId (r.pendingSettlements sessionId) r.nowMs
      verdicts with
  | .error error => (r, .threw error)
  | .ok (tables, state) => ({ r with tables }.forgetPending sessionId, .deleting state)

/-- `deleteSessionData` -/
def deleteSessionData (sessionId : String) : TurnRepository × TurnResponse :=
  match r.tables.deleteSessionData sessionId with
  | .error error => (r, .threw error)
  | .ok tables => ({ r with tables }.forgetPending sessionId, .done)

def step (options : TurnRepositoryOptions) : TurnEvent → TurnRepository × TurnResponse
  | .setClock nowMs => ({ r with nowMs }, .done)
  | .admitTurn input verdicts => r.admitTurn options.lease input verdicts
  | .renew sessionId leaseId =>
    r.transaction (.ok (r.tables.renew sessionId leaseId r.nowMs options.lease)) .changed
  | .settle input thrown => r.settle input thrown
  | .recoverExpired sessionId =>
    r.transaction (.ok (r.tables.recoverExpiredInTransaction sessionId r.nowMs)) .recovered
  | .recoverProcessRestart processStartedAtMs verdicts =>
    r.transaction
      (r.tables.recoverProcessRestartInTransaction verdicts processStartedAtMs r.nowMs) .restarted
  | .revokeAdmission sessionId turnId leaseId =>
    r.transaction (.ok (r.tables.revokeAdmission sessionId turnId leaseId)) .changed
  | .tryAcquireSessionMaintenance sessionId rejection leaseId =>
    r.transaction (r.tables.tryAcquireSessionMaintenance sessionId rejection leaseId r.nowMs
      options.lease) .acquired
  | .renewSessionMaintenance sessionId leaseId =>
    r.transaction (.ok (r.tables.renewSessionMaintenance sessionId leaseId r.nowMs options.lease))
      .changed
  | .releaseSessionMaintenance sessionId leaseId =>
    r.transaction (.ok (r.tables.releaseSessionMaintenance sessionId leaseId r.nowMs, ()))
      fun _ => .done
  | .beginSessionDeletion sessionId verdicts => r.beginSessionDeletion sessionId verdicts
  | .deleteSessionData sessionId => r.deleteSessionData sessionId
  | .completeSessionDeletion sessionId isLeaseOwnerCurrent =>
    r.transaction ((r.tables.completeSessionDeletion sessionId isLeaseOwnerCurrent).map (·, ()))
      fun _ => .done
  | .reserveSteeringReceipt input => r.transaction (r.tables.reserveSteeringReceipt input) .reserved
  | .releaseSteeringReceipt input =>
    r.transaction (.ok (r.tables.releaseSteeringReceipt input, ())) fun _ => .done
  | .markAcknowledged query =>
    r.transaction ((r.tables.markAcknowledged query r.nowMs).map (·, ())) fun _ => .done

end TurnRepository

/-- A Turn with nothing but its text. -/
def plainTurn (sessionId turnId : String) : AdmitTurnInput where
  sessionId
  turnId
  busyReason := .turn
  inputDigest := "digest"
  attachmentCount := 0
  hasContent := true
  foreground := false
  consumeQueuePause := false
  clientRequestId := none
  queueIngress := none
  bypassPriorityFence := false
  bypassSessionMutation := false

/-- Verdicts that refuse nothing. -/
def AdmitVerdicts.granting (leaseId : String) : AdmitVerdicts where
  sessionRejection := none
  priorityBlocks := false
  policyRejection := none
  acceptedEffect := some none
  killProbe := fun _ => none
  leaseId

/-- A deletion by this process, of owners nothing is known of. -/
def DeletionVerdicts.current (deletionOwnerId : String) : DeletionVerdicts where
  deletionOwnerId
  isLeaseOwnerAlive := fun _ => none
  isLeaseOwnerCurrent := fun _ => true

/-- The repository with its options, as a machine over its calls. -/
def turnMachine (options : TurnRepositoryOptions) :
    Machine TurnRepository TurnEvent TurnResponse where
  initial := .initial
  step r e := r.step options e

end Kinetick
