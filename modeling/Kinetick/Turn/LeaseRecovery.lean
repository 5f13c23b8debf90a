import Kinetick.Turn.Contracts

/-!
# Lease recovery

Expired leases, dead legacy owners and locks of an older process are released, failing the
accepted Turn they held (`turn-lease-recovery.ts`).
-/

namespace Kinetick

/-- `Number.MAX_SAFE_INTEGER`: the expiry of a deletion fence. -/
def deletionFenceExpiresAtMs : ℤ := 9007199254740991

/-- Every kind but those of legacy processes. -/
def OwnerKind.isProcessRestart : OwnerKind → Bool
  | .legacy _ => false
  | _ => true

def OwnerKind.isDeletingTurn : OwnerKind → Bool
  | .turnDeleting | .compactionDeleting => true
  | _ => false

def OwnerKind.isTurn : OwnerKind → Bool
  | .turn | .compaction | .send | .dispatcher => true
  | kind => kind.isDeletingTurn

/-- `/^(electron|cli|runtime):([1-9]\d*):.+$/` on an owner id. -/
def parseLegacyOwner (ownerId : String) : Option (LegacyProcess × ℕ) :=
  [(LegacyProcess.electron, "electron:"), (.cli, "cli:"), (.runtime, "runtime:")].findSome?
    fun (process, name) =>
      if name.toList.isPrefixOf ownerId.toList then
        let rest := ownerId.toList.drop name.length
        match rest.takeWhile Char.isDigit, rest.dropWhile Char.isDigit with
        | d :: ds, ':' :: tail =>
          if d ≠ '0' ∧ tail ≠ [] ∧ tail.all (· ∉ ['\n', '\r', '\u2028', '\u2029']) then
            some (process, (d :: ds).foldl (fun n c => 10 * n + (c.toNat - '0'.toNat)) 0)
          else none
        | _, _ => none
      else none

def legacyProcessOwnerAlive (killProbe : ℕ → Option Bool) (lock : SessionLock) : Option Bool :=
  match parseLegacyOwner lock.ownerId with
  | some (process, pid) =>
    if lock.ownerKind = .legacy process ∧ pid ≤ 9007199254740991 then killProbe pid else none
  | none => none

/-- What a recovery released. -/
structure TurnLeaseRecoveryResult where
  released : Bool
  terminalFacts : List TurnRecoveryTerminalFact
deriving DecidableEq, Repr

namespace TurnTables

def releaseRecoveredLockInTransaction (db : TurnTables) (lock : SessionLock) (completedAtMs : ℤ)
    (reason : TurnRecoveryReason) : TurnTables × TurnLeaseRecoveryResult :=
  let orphan := db.latestAcceptedTurn lock.sessionId
  let terminalFacts := (orphan.map fun o =>
    TurnRecoveryTerminalFact.mk lock.sessionId o.turnId completedAtMs reason).toList
  let db := match orphan with
    | some o => (db.finishTurns (fun r => r.turnId == o.turnId) .failed completedAtMs).1
    | none => db
  let db := (db.deleteLocks fun l => l.sessionId == lock.sessionId &&
    l.ownerId == lock.ownerId && l.ownerKind == lock.ownerKind).1
  (db, { released := true, terminalFacts })

def recoverExpiredInTransaction (db : TurnTables) (sessionId : String) (nowMs : ℤ) :
    TurnTables × TurnLeaseRecoveryResult :=
  let expired := db.sessionLocks.rows.find? fun l =>
    l.sessionId == sessionId && decide (l.expiresAtMs ≤ nowMs)
  match expired with
  | none => (db, { released := false, terminalFacts := [] })
  | some lock => db.releaseRecoveredLockInTransaction lock nowMs .expiredLease

def recoverDeadLegacyOwnerInTransaction (db : TurnTables) (killProbe : ℕ → Option Bool)
    (sessionId : String) (nowMs : ℤ) : TurnTables × TurnLeaseRecoveryResult :=
  match db.findSessionLock sessionId with
  | none => (db, { released := false, terminalFacts := [] })
  | some lock =>
    if legacyProcessOwnerAlive killProbe lock ≠ some false then
      (db, { released := false, terminalFacts := [] })
    else db.releaseRecoveredLockInTransaction lock nowMs .processRestart

def failLatestAcceptedTurnInTransaction (db : TurnTables) (sessionId : String)
    (completedAtMs : ℤ) : Except TurnError (TurnTables × Option String) :=
  match db.latestAcceptedTurn sessionId with
  | none => .ok (db, none)
  | some orphan =>
    let (db, changes) := db.finishTurns
      (fun r => r.turnId == orphan.turnId && r.status == .accepted) .failed completedAtMs
    if changes ≠ 1 then .error (.restartTurnRecoveryLost sessionId orphan.turnId)
    else .ok (db, some orphan.turnId)

/-- A lock an older process left, as a restart releases it. -/
structure ProcessRestartRecoveryEntry where
  sessionId : String
  ownerKind : OwnerKind
  turnId : Option String
deriving DecidableEq, Repr

def recoverProcessRestartLockInTransaction (db : TurnTables) (lock : SessionLock)
    (completedAtMs : ℤ) : Except TurnError (TurnTables × ProcessRestartRecoveryEntry) := do
  let (db, turnId) ← if lock.ownerKind.isTurn
    then db.failLatestAcceptedTurnInTransaction lock.sessionId completedAtMs
    else pure (db, none)
  let (db, released) := db.deleteLocks fun l => l.sessionId == lock.sessionId &&
    l.ownerId == lock.ownerId && l.ownerKind == lock.ownerKind &&
    l.acquiredAtMs == lock.acquiredAtMs
  if released ≠ 1 then .error (.restartRecoveryLost lock.sessionId lock.ownerId)
  else .ok (db, { sessionId := lock.sessionId, ownerKind := lock.ownerKind, turnId })

structure TurnProcessRestartRecoveryResult where
  recovered : List ProcessRestartRecoveryEntry
  liveSessionIds : List String
  pendingDeletionSessionIds : List String
deriving DecidableEq, Repr

/-- The locks an older process acquired, by session. -/
def orphanedLocks (db : TurnTables) (processStartedAtMs : ℤ) : List SessionLock :=
  (db.sessionLocks.rows.filter fun l =>
    l.ownerKind.isProcessRestart && decide (l.acquiredAtMs < processStartedAtMs)).mergeSort
      fun a b => decide (a.sessionId ≤ b.sessionId)

/-- One lock of the scan: left to its live owner, reclaimed for deletion, or released. -/
def recoverOrphanedLock (verdicts : RestartVerdicts) (completedAtMs : ℤ)
    (acc : TurnTables × TurnProcessRestartRecoveryResult) (lock : SessionLock) :
    Except TurnError (TurnTables × TurnProcessRestartRecoveryResult) :=
  let (db, result) := acc
  let ownerAlive := verdicts.isLeaseOwnerAlive lock.ownerId
  let stalled := ownerAlive.isNone && decide (completedAtMs < lock.expiresAtMs) &&
    verdicts.shouldRecoverLegacyTurnLease lock
  if ownerAlive = some true ∨
      (ownerAlive = none ∧ completedAtMs < lock.expiresAtMs ∧ ¬ stalled) then
    .ok (db, { result with liveSessionIds := result.liveSessionIds ++ [lock.sessionId] })
  else if lock.ownerKind = .sessionDeletion then
    let (db, reclaimed) := db.updateLocks
      (fun l => l.sessionId == lock.sessionId && l.ownerId == lock.ownerId &&
        l.ownerKind == lock.ownerKind && l.acquiredAtMs == lock.acquiredAtMs)
      (fun l => { l with
        ownerId := verdicts.deletionOwnerId lock.sessionId
        acquiredAtMs := completedAtMs
        expiresAtMs := deletionFenceExpiresAtMs })
    if reclaimed ≠ 1 then .error (.deletionRecoveryLost lock.sessionId)
    else .ok (db, { result with
      pendingDeletionSessionIds := result.pendingDeletionSessionIds ++ [lock.sessionId] })
  else do
    let (db, entry) ← db.recoverProcessRestartLockInTransaction lock completedAtMs
    .ok (db, { result with recovered := result.recovered ++ [entry] })

def recoverProcessRestartInTransaction (db : TurnTables) (verdicts : RestartVerdicts)
    (processStartedAtMs completedAtMs : ℤ) :
    Except TurnError (TurnTables × TurnProcessRestartRecoveryResult) :=
  (db.orphanedLocks processStartedAtMs).foldlM (recoverOrphanedLock verdicts completedAtMs)
    (db, { recovered := [], liveSessionIds := [], pendingDeletionSessionIds := [] })

end TurnTables

end Kinetick
