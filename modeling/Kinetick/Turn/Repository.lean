import Kinetick.Turn.LeaseRecovery

/-!
# The Turn repository

The transactions of `turn.repository.ts` over the tables: admission, settlement, revocation,
steering receipts, maintenance leases and Session deletion. A transaction that throws leaves the
tables as they were.
-/

namespace Kinetick

/-- `deletionPendingOwnerKind`: the kind a lock takes while its Session waits to be deleted. -/
def OwnerKind.deletionPending : OwnerKind → Option OwnerKind
  | .turn | .turnDeleting => some .turnDeleting
  | .compaction | .compactionDeleting => some .compactionDeleting
  | .maintenance | .maintenanceDeleting => some .maintenanceDeleting
  | _ => none

/-- `isDeletionOwnerKind` -/
def OwnerKind.isDeletion : OwnerKind → Bool
  | .sessionDeletion | .turnDeleting | .compactionDeleting | .maintenanceDeleting => true
  | _ => false

/-- `storedBusyReason` -/
def StoredBusyReason.busyReason : StoredBusyReason → TurnBusyReason
  | .turn | .send | .dispatcher => .turn
  | .compaction => .compaction

/-- The column value of a busy reason. -/
def TurnBusyReason.stored : TurnBusyReason → StoredBusyReason
  | .turn => .turn
  | .compaction => .compaction

/-- The kind of lock a busy reason takes. -/
def TurnBusyReason.ownerKind : TurnBusyReason → OwnerKind
  | .turn => .turn
  | .compaction => .compaction

/-- A string option the code tests for truth: the empty string counts as absent. -/
def truthy (s : Option String) : Option String := s.filter (· ≠ "")

namespace AdmitTurnResult

/-- `withRecoveredTerminalFacts` -/
def withRecoveredTerminalFacts (facts : List TurnRecoveryTerminalFact) :
    AdmitTurnResult → AdmitTurnResult
  | accepted leaseId sequence acceptedAtMs foreground token _ =>
    accepted leaseId sequence acceptedAtMs foreground token facts
  | duplicate turnId _ => duplicate turnId facts
  | rejected reason _ => rejected reason facts

/-- The foreground flag and the revoke token admission adds to an accepted result. -/
def withAcceptance (foreground : Bool) (token : Option QueuePause) :
    AdmitTurnResult → AdmitTurnResult
  | accepted leaseId sequence acceptedAtMs _ _ facts =>
    accepted leaseId sequence acceptedAtMs foreground token facts
  | result => result

def isAccepted : AdmitTurnResult → Bool
  | accepted .. => true
  | _ => false

end AdmitTurnResult

namespace TurnTables

variable (db : TurnTables)

/-- Releases the lock a lease owns, or turns it into the fence its Session is deleted under. -/
def releaseOrPromoteDeletionFence (sessionId leaseId : String) (ownerKind : OwnerKind)
    (completedAtMs : ℤ) : TurnTables × ℕ :=
  let ownership := fun l : SessionLock => l.sessionId == sessionId && l.ownerId == leaseId
  if ownerKind.isDeletingTurn then
    db.updateLocks ownership fun l => { l with
      ownerKind := .sessionDeletion
      acquiredAtMs := completedAtMs
      expiresAtMs := deletionFenceExpiresAtMs }
  else db.deleteLocks ownership

def settleInTransaction (input : SettleTurnInput) (completedAtMs : ℤ) :
    Except TurnError (TurnTables × SettleTurnResult) :=
  let accepted := db.latestAcceptedTurn input.sessionId
  match db.findSessionLock input.sessionId with
  | none => .ok (db, .staleOwner)
  | some lock =>
    if lock.ownerId ≠ input.leaseId ∨ accepted.map (·.turnId) ≠ some input.turnId then
      .ok (db, .staleOwner)
    else
      let (db, updated) := db.finishTurns
        (fun r => r.turnId == input.turnId && r.sessionId == input.sessionId &&
          r.status == .accepted) input.outcome.status completedAtMs
      let (db, released) :=
        db.releaseOrPromoteDeletionFence input.sessionId input.leaseId lock.ownerKind completedAtMs
      if updated ≠ 1 ∨ released ≠ 1 then .error (.settlementLost input.sessionId input.turnId)
      else .ok (db, .settled completedAtMs input.outcome)

def recoverPendingSettlementInTransaction (pending : PendingSettlement) (completedAtMs : ℤ) :
    TurnTables × Option TurnRecoveryTerminalFact :=
  let receipt := db.turnIngress.rows.find? fun r =>
    r.sessionId == pending.sessionId && r.turnId == pending.turnId
  match db.findSessionLock pending.sessionId with
  | none => (db, none)
  | some lock =>
    if lock.ownerId ≠ pending.leaseId ∨ receipt.map (·.status) ≠ some .accepted then (db, none)
    else
      let db := (db.finishTurns
        (fun r => r.sessionId == pending.sessionId && r.turnId == pending.turnId &&
          r.status == .accepted) .failed completedAtMs).1
      let db := (db.releaseOrPromoteDeletionFence pending.sessionId pending.leaseId
        lock.ownerKind completedAtMs).1
      (db, some { sessionId := pending.sessionId, turnId := pending.turnId, completedAtMs,
                  reason := .settlementRetry })

/-- Settles what an earlier call left: a settlement that threw, an expired lease, a dead owner. -/
def recoverAdmissionTerminalFacts (sessionId : String) (pending : Option PendingSettlement)
    (killProbe : ℕ → Option Bool) (nowMs : ℤ) :
    TurnTables × List TurnRecoveryTerminalFact :=
  let (db, pendingRecovery) := match pending with
    | some pending => db.recoverPendingSettlementInTransaction pending nowMs
    | none => (db, none)
  let (db, expiredRecovery) := db.recoverExpiredInTransaction sessionId nowMs
  let (db, legacyRecovery) := db.recoverDeadLegacyOwnerInTransaction killProbe sessionId nowMs
  (db, pendingRecovery.toList ++ expiredRecovery.terminalFacts ++ legacyRecovery.terminalFacts)

def classifyDuplicate (receipt : TurnIngress) (input : AdmitTurnInput) : AdmitTurnResult :=
  if receipt.sessionId = input.sessionId ∧
      receipt.busyReason.busyReason = input.busyReason ∧
      receipt.inputDigest = input.inputDigest ∧
      receipt.claimId = input.queueIngress.map (·.claimId) ∧
      receipt.claimSource = input.queueIngress.map (·.source) ∧
      receipt.queueItemIds.getD [] = (input.queueIngress.map (·.itemId)).toList then
    .duplicate receipt.turnId []
  else .rejected .ingressConflict []

def findDuplicate (input : AdmitTurnInput) : Option AdmitTurnResult :=
  let byTurn := db.turnIngress.rows.find? fun r => r.turnId == input.turnId
  let byClientRequest := (truthy input.clientRequestId).bind fun id =>
    db.turnIngress.rows.find? fun r =>
      r.sessionId == input.sessionId && r.clientRequestId == some id
  let byClaim := (truthy (input.queueIngress.map (·.claimId))).bind fun id =>
    db.turnIngress.rows.find? fun r => r.claimId == some id
  match byTurn, byClientRequest, byClaim with
  | some receipt, _, _ => some (classifyDuplicate receipt input)
  | none, some receipt, _ => some (classifyDuplicate receipt input)
  | none, none, some receipt => some (classifyDuplicate receipt input)
  | none, none, none => none

/-- The lock an admission takes. -/
def admissionLock (input : AdmitTurnInput) (leaseId : String) (nowMs leaseMs : ℤ) :
    SessionLock where
  sessionId := input.sessionId
  ownerId := leaseId
  ownerKind := input.busyReason.ownerKind
  acquiredAtMs := nowMs
  expiresAtMs := nowMs + leaseMs

/-- The ingress row an admission writes. -/
def admissionRow (input : AdmitTurnInput) (nowMs : ℤ) (sequence : ℕ) : TurnIngress where
  turnId := input.turnId
  sessionId := input.sessionId
  busyReason := input.busyReason.stored
  clientRequestId := truthy input.clientRequestId
  claimId := input.queueIngress.map (·.claimId)
  claimSource := input.queueIngress.map (·.source)
  queueItemIds := input.queueIngress.map fun ingress => [ingress.itemId]
  status := .accepted
  acceptedAtMs := nowMs
  acceptedSequence := sequence
  completedAtMs := none
  queueAcknowledgedAtMs := none
  inputDigest := input.inputDigest
  inputMetadata :=
    { attachmentCount := input.attachmentCount
      hasContent := input.hasContent
      foreground := input.foreground
      consumeQueuePause := input.consumeQueuePause }

/-- A write a unique index refused throws. -/
def orUnique {α : Type} (table : TurnTableName) : Option α → Except TurnError α
  | some a => .ok a
  | none => .error (.uniqueConstraint table)

/-- The receipt an admission leaves for its client request, where it has one. -/
def insertClientRequest (input : AdmitTurnInput) :
    Except TurnError (Table turnIngressClientRequestsIndex) :=
  match truthy input.clientRequestId with
  | none => .ok db.turnIngressClientRequests
  | some clientRequestId => orUnique .turnIngressClientRequests <|
    db.turnIngressClientRequests.insert
      { sessionId := input.sessionId, clientRequestId, turnId := input.turnId }

def insertAdmission (input : AdmitTurnInput) (leaseId : String) (nowMs leaseMs : ℤ) :
    Except TurnError (TurnTables × AdmitTurnResult) := do
  let sessionLocks ← orUnique .sessionLocks <|
    db.sessionLocks.insert (admissionLock input leaseId nowMs leaseMs)
  let sequence := db.lastSequence + 1
  let turnIngressSequences ← orUnique .turnIngressSequences <|
    db.turnIngressSequences.insert { sequence, turnId := input.turnId }
  let turnIngress ← orUnique .turnIngress <|
    db.turnIngress.insert (admissionRow input nowMs sequence)
  let turnIngressClientRequests ← db.insertClientRequest input
  .ok ({ sessionLocks, turnIngress, turnIngressSequences, lastSequence := sequence,
         turnIngressClientRequests }, .accepted leaseId sequence nowMs false none [])

/-- `blocksAdmission` -/
def blocksAdmission (rejection : Option SessionRejection) (bypassSessionMutation : Bool) :
    Option SessionRejection :=
  rejection.filter fun r => !(r == .sessionMutating && bypassSessionMutation)

/-- `activeLockRejection` -/
def activeLockRejection (lock : SessionLock) : TurnAdmissionRejectionReason :=
  if lock.ownerKind = .compaction then .compactionActive else .activeTurn

/-- The part of `admitTurnInTransaction` after the recoveries. -/
def admitRecovered (input : AdmitTurnInput) (verdicts : AdmitVerdicts) (nowMs leaseMs : ℤ) :
    Except TurnError (TurnTables × AdmitTurnResult) :=
  let lock := db.findSessionLock input.sessionId
  if lock.any (·.ownerKind.isDeletion) then .ok (db, .rejected .sessionDeleting [])
  else match db.findDuplicate input, lock with
    | some duplicate, _ => .ok (db, duplicate)
    | none, some lock => .ok (db, .rejected (activeLockRejection lock) [])
    | none, none =>
      if !input.bypassPriorityFence && verdicts.priorityBlocks then
        .ok (db, .rejected .priorityBlocked [])
      else match verdicts.policyRejection with
        | some reason => .ok (db, .rejected reason [])
        | none => db.insertAdmission input verdicts.leaseId nowMs leaseMs

def admitTurnInTransaction (input : AdmitTurnInput) (pending : Option PendingSettlement)
    (verdicts : AdmitVerdicts) (nowMs leaseMs : ℤ) :
    Except TurnError (TurnTables × AdmitTurnResult) :=
  match blocksAdmission verdicts.sessionRejection input.bypassSessionMutation with
  | some rejection => .ok (db, .rejected rejection.reason [])
  | none => do
    let (db, terminalFacts) :=
      db.recoverAdmissionTerminalFacts input.sessionId pending verdicts.killProbe nowMs
    let (db, result) ← db.admitRecovered input verdicts nowMs leaseMs
    .ok (db, result.withRecoveredTerminalFacts terminalFacts)

/-- The transaction of `admitRepositoryTurn`. -/
def admitTransaction (input : AdmitTurnInput) (pending : Option PendingSettlement)
    (verdicts : AdmitVerdicts) (nowMs leaseMs : ℤ) :
    Except TurnError (TurnTables × AdmitTurnResult) := do
  let (db, result) ← db.admitTurnInTransaction input pending verdicts nowMs leaseMs
  if !result.isAccepted then .ok (db, result)
  else match verdicts.acceptedEffect with
    | none => .error .thrown
    | some revokeToken => .ok (db, result.withAcceptance input.foreground revokeToken)

def renew (sessionId leaseId : String) (nowMs leaseMs : ℤ) : TurnTables × Bool :=
  let (db, changes) := db.updateLocks
    (fun l => l.sessionId == sessionId && l.ownerId == leaseId && decide (nowMs < l.expiresAtMs))
    fun l => { l with expiresAtMs := nowMs + leaseMs }
  (db, changes == 1)

/-- Deletes a Turn's receipts, its sequence and its row. -/
def deleteTurn (turnId : String) : TurnTables :=
  { db with
    turnIngressClientRequests := db.turnIngressClientRequests.delete (·.turnId == turnId)
    turnIngressSequences := db.turnIngressSequences.delete (·.turnId == turnId)
    turnIngress := db.turnIngress.delete (·.turnId == turnId) }

def revokeAdmission (sessionId turnId leaseId : String) : TurnTables × Bool :=
  let receipt := db.turnIngress.rows.find? fun r =>
    r.sessionId == sessionId && r.turnId == turnId && r.status == .accepted
  match receipt, db.findSessionLock sessionId with
  | some _, some lock =>
    if lock.ownerId ≠ leaseId ∨ lock.ownerKind ≠ .turn then (db, false)
    else
      (((db.deleteTurn turnId).deleteLocks fun l => l.sessionId == sessionId &&
        l.ownerId == leaseId && l.ownerKind == .turn).1, true)
  | _, _ => (db, false)

/-! ## Steering receipts -/

def reserveSteeringReceipt (input : SteeringReceipt) :
    Except TurnError (TurnTables × ReserveSteeringReceiptResult) :=
  let existing := db.turnIngressClientRequests.rows.find? fun r =>
    r.sessionId == input.sessionId && r.clientRequestId == input.clientRequestId
  let accepted := db.turnIngress.rows.find? fun r =>
    r.sessionId == input.sessionId && r.turnId == input.turnId && r.status == .accepted
  match existing, accepted with
  | some existing, _ => .ok (db, .duplicate existing.turnId)
  | none, none => .ok (db, .notAccepted)
  | none, some _ => do
    let turnIngressClientRequests ← orUnique .turnIngressClientRequests <|
      db.turnIngressClientRequests.insert
        { sessionId := input.sessionId, clientRequestId := input.clientRequestId,
          turnId := input.turnId }
    .ok ({ db with turnIngressClientRequests }, .reserved)

def releaseSteeringReceipt (input : SteeringReceipt) : TurnTables :=
  { db with
    turnIngressClientRequests := db.turnIngressClientRequests.delete fun r =>
      r.sessionId == input.sessionId && r.clientRequestId == input.clientRequestId &&
        r.turnId == input.turnId }

/-! ## Queue acceptance -/

def findAcceptedQueueTurn (query : QueueClaimAcceptanceQuery) : Option TurnIngress :=
  (db.turnIngress.rows.find? fun r =>
    r.sessionId == query.sessionId && r.claimId == some query.claimId).filter fun receipt =>
      receipt.claimSource == some query.source &&
        ((truthy query.turnId).isNone || some receipt.turnId == query.turnId) &&
        receipt.queueItemIds.getD [] == query.queueItemIds

/-- `isAcceptedInTransaction` -/
def isAccepted (query : QueueClaimAcceptanceQuery) : Bool := (db.findAcceptedQueueTurn query).isSome

def markAcknowledged (query : QueueClaimAcceptanceQuery) (nowMs : ℤ) :
    Except TurnError TurnTables :=
  match db.findAcceptedQueueTurn query with
  | none => .error (.claimNotAccepted query.sessionId query.claimId)
  | some receipt => .ok (db.acknowledgeTurns (·.turnId == receipt.turnId) nowMs).1

/-! ## Maintenance leases -/

def tryAcquireSessionMaintenance (sessionId : String) (rejection : Option SessionRejection)
    (leaseId : String) (nowMs leaseMs : ℤ) :
    Except TurnError (TurnTables × Option (String × List TurnRecoveryTerminalFact)) :=
  if rejection.isSome then .ok (db, none)
  else
    let (db, recovery) := db.recoverExpiredInTransaction sessionId nowMs
    if (db.findSessionLock sessionId).isSome then .ok (db, none)
    else do
      let sessionLocks ← orUnique .sessionLocks <| db.sessionLocks.insert
        { sessionId, ownerId := leaseId, ownerKind := .maintenance, acquiredAtMs := nowMs,
          expiresAtMs := nowMs + leaseMs }
      .ok ({ db with sessionLocks }, some (leaseId, recovery.terminalFacts))

def renewSessionMaintenance (sessionId leaseId : String) (nowMs leaseMs : ℤ) :
    TurnTables × Bool :=
  let (db, changes) := db.updateLocks
    (fun l => l.sessionId == sessionId && l.ownerId == leaseId &&
      (l.ownerKind == .maintenance || l.ownerKind == .maintenanceDeleting) &&
      decide (nowMs < l.expiresAtMs))
    fun l => { l with expiresAtMs := nowMs + leaseMs }
  (db, changes == 1)

def releaseSessionMaintenance (sessionId leaseId : String) (nowMs : ℤ) : TurnTables :=
  let ownership := fun l : SessionLock => l.sessionId == sessionId && l.ownerId == leaseId
  match db.findSessionLock sessionId with
  | none => db
  | some lock =>
    if lock.ownerId ≠ leaseId then db
    else if lock.ownerKind = .maintenanceDeleting then
      (db.updateLocks ownership fun l => { l with
        ownerKind := .sessionDeletion
        acquiredAtMs := nowMs
        expiresAtMs := deletionFenceExpiresAtMs }).1
    else if lock.ownerKind = .maintenance then (db.deleteLocks ownership).1
    else db

/-! ## Session deletion -/

def requireAcceptedTurnId (sessionId : String) : Except TurnError String :=
  match db.latestAcceptedTurn sessionId with
  | none => .error (.deletionActiveTurnMissing sessionId)
  | some accepted => .ok accepted.turnId

def recoverExpiredDeletionTurnInTransaction (sessionId : String) (completedAtMs : ℤ) :
    Except TurnError TurnTables :=
  match db.findSessionLock sessionId with
  | none => .ok db
  | some lock =>
    if lock.ownerKind.deletionPending.isNone ∨ completedAtMs < lock.expiresAtMs then .ok db
    else if lock.ownerKind = .maintenanceDeleting then
      .ok (db.updateLocks (fun l => l.sessionId == sessionId && l.ownerId == lock.ownerId)
        fun l => { l with
          ownerKind := .sessionDeletion
          acquiredAtMs := completedAtMs
          expiresAtMs := deletionFenceExpiresAtMs }).1
    else do
      let turnId ← db.requireAcceptedTurnId sessionId
      let (db, updated) := db.finishTurns
        (fun r => r.sessionId == sessionId && r.turnId == turnId && r.status == .accepted)
        .failed completedAtMs
      let (db, promoted) :=
        db.releaseOrPromoteDeletionFence sessionId lock.ownerId lock.ownerKind completedAtMs
      if updated ≠ 1 ∨ promoted ≠ 1 then .error (.expiredDeletionTurnLost sessionId turnId)
      else .ok db

/-- The part of `beginSessionDeletionInTransaction` after an expired holder is recovered. -/
def raiseDeletionFence (sessionId : String) (now : ℤ) (verdicts : DeletionVerdicts) :
    Except TurnError (TurnTables × SessionDeletionState) :=
  match db.findSessionLock sessionId with
  | none => do
    let sessionLocks ← orUnique .sessionLocks <| db.sessionLocks.insert
      { sessionId, ownerId := verdicts.deletionOwnerId, ownerKind := .sessionDeletion,
        acquiredAtMs := now, expiresAtMs := deletionFenceExpiresAtMs }
    .ok ({ db with sessionLocks }, .quiescent)
  | some lock =>
    if lock.ownerKind = .sessionDeletion then
      if verdicts.isLeaseOwnerCurrent lock.ownerId then .ok (db, .quiescent)
      else if verdicts.isLeaseOwnerAlive lock.ownerId ≠ some false then
        .error (.deletionOwnedByAnother sessionId)
      else
        let (db, reclaimed) := db.updateLocks
          (fun l => l.sessionId == sessionId && l.ownerId == lock.ownerId &&
            l.ownerKind == .sessionDeletion)
          fun l => { l with
            ownerId := verdicts.deletionOwnerId
            acquiredAtMs := now
            expiresAtMs := deletionFenceExpiresAtMs }
        if reclaimed ≠ 1 then .error (.deletionReclaimLost sessionId)
        else .ok (db, .quiescent)
    else match lock.ownerKind.deletionPending with
      | none => .error (.lockCannotEnterDeletion sessionId lock.ownerKind)
      | some deletingKind =>
        let db := if lock.ownerKind ≠ deletingKind then
            (db.updateLocks (fun l => l.sessionId == sessionId && l.ownerId == lock.ownerId)
              fun l => { l with ownerKind := deletingKind }).1
          else db
        if deletingKind = .maintenanceDeleting then .ok (db, .maintenance)
        else do
          let turnId ← db.requireAcceptedTurnId sessionId
          .ok (db, .active turnId)

def beginSessionDeletionInTransaction (sessionId : String) (now : ℤ)
    (verdicts : DeletionVerdicts) : Except TurnError (TurnTables × SessionDeletionState) := do
  let db ← db.recoverExpiredDeletionTurnInTransaction sessionId now
  db.raiseDeletionFence sessionId now verdicts

/-- The transaction of `beginSessionDeletion`. -/
def beginSessionDeletion (sessionId : String) (pending : Option PendingSettlement) (now : ℤ)
    (verdicts : DeletionVerdicts) : Except TurnError (TurnTables × SessionDeletionState) :=
  let db := match pending with
    | some pending => (db.recoverPendingSettlementInTransaction pending now).1
    | none => db
  db.beginSessionDeletionInTransaction sessionId now verdicts

def deleteSessionData (sessionId : String) : Except TurnError TurnTables :=
  let lock := db.findSessionLock sessionId
  let turnIds := (db.turnIngress.rows.filter (·.sessionId == sessionId)).map (·.turnId)
  if lock.isNone ∧ turnIds = [] then .ok db
  else if lock.map (·.ownerKind) ≠ some .sessionDeletion then
    .error (.deletionNotQuiescent sessionId)
  else .ok { db with
    turnIngressClientRequests := db.turnIngressClientRequests.delete fun r =>
      r.sessionId == sessionId || turnIds.contains r.turnId
    turnIngressSequences := db.turnIngressSequences.delete fun r => turnIds.contains r.turnId
    turnIngress := db.turnIngress.delete (·.sessionId == sessionId) }

def completeSessionDeletion (sessionId : String) (isLeaseOwnerCurrent : String → Bool) :
    Except TurnError TurnTables :=
  match db.findSessionLock sessionId with
  | none => .ok db
  | some lock =>
    if lock.ownerKind ≠ .sessionDeletion then .error (.deletionNotQuiescent sessionId)
    else if !isLeaseOwnerCurrent lock.ownerId then .error (.deletionOwnedByAnother sessionId)
    else match db.turnIngress.rows.find? (·.sessionId == sessionId) with
      | some remaining => .error (.deletionHasTurnData sessionId remaining.turnId)
      | none => .ok (db.deleteLocks (·.sessionId == sessionId)).1

end TurnTables

end Kinetick
