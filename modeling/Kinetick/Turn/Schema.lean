import Kinetick.Queue.Contract
import Kinetick.Table
import Mathlib.Data.List.MinMax

/-!
# The tables of the Turn repository

Session locks, Turn ingress rows, the ingress sequence and the client-request receipts, with the
unique indexes the schema declares. A write a unique index refuses fails the transaction.
-/

namespace Kinetick

/-- Processes that wrote locks before leases. -/
inductive LegacyProcess
  | electron
  | cli
  | runtime
deriving DecidableEq, Repr

/-- `owner_kind` of a session lock. -/
inductive OwnerKind
  | turn
  | compaction
  | send
  | dispatcher
  | maintenance
  | turnDeleting
  | compactionDeleting
  | maintenanceDeleting
  | sessionDeletion
  | legacy (process : LegacyProcess)
deriving DecidableEq, Repr

/-- `local_runtime_session_locks`. -/
structure SessionLock where
  sessionId : String
  ownerId : String
  ownerKind : OwnerKind
  acquiredAtMs : ℤ
  expiresAtMs : ℤ
deriving DecidableEq, Repr

inductive TurnStatus
  | accepted
  | completed
  | failed
  | aborted
deriving DecidableEq, Repr

/-- `source` of an ingress row. Rows of older versions spell a Turn `send` or `dispatcher`. -/
inductive StoredBusyReason
  | turn
  | send
  | dispatcher
  | compaction
deriving DecidableEq, Repr

/-- What admission records about an input. -/
structure TurnInputMetadata where
  attachmentCount : ℕ
  hasContent : Bool
  foreground : Bool
  consumeQueuePause : Bool
deriving DecidableEq, Repr

/-- `local_runtime_turn_ingress`. `queueItemIds` is the list its JSON column holds. -/
structure TurnIngress where
  turnId : String
  sessionId : String
  busyReason : StoredBusyReason
  clientRequestId : Option String
  claimId : Option String
  claimSource : Option QueueMessageSource
  queueItemIds : Option (List String)
  status : TurnStatus
  acceptedAtMs : ℤ
  acceptedSequence : ℕ
  completedAtMs : Option ℤ
  queueAcknowledgedAtMs : Option ℤ
  inputDigest : String
  inputMetadata : TurnInputMetadata
deriving DecidableEq, Repr

/-- `local_runtime_turn_ingress_sequences`. -/
structure TurnIngressSequence where
  sequence : ℕ
  turnId : String
deriving DecidableEq, Repr

/-- `local_runtime_turn_ingress_client_requests`. -/
structure TurnIngressClientRequest where
  sessionId : String
  clientRequestId : String
  turnId : String
deriving DecidableEq, Repr

def sessionLocksIndex : Constraint SessionLock := .unique fun l => some l.sessionId

/-- The session and the client request of a row that has one. -/
def TurnIngress.clientKey (r : TurnIngress) : Option (String × String) :=
  r.clientRequestId.map (r.sessionId, ·)

def turnIngressIndex : Constraint TurnIngress :=
  (Constraint.unique fun r => some r.turnId).and <|
    (Constraint.unique TurnIngress.claimId).and <|
      (Constraint.unique TurnIngress.clientKey).and <|
        .unique fun r => some r.acceptedSequence

theorem turnIngress_fixes {f : TurnIngress → TurnIngress} (hturn : ∀ r, (f r).turnId = r.turnId)
    (hclaim : ∀ r, (f r).claimId = r.claimId) (hclient : ∀ r, (f r).clientKey = r.clientKey)
    (hsequence : ∀ r, (f r).acceptedSequence = r.acceptedSequence) : turnIngressIndex.Fixes f :=
  Constraint.and_fixes (Constraint.unique_fixes fun r => congrArg some (hturn r)) <|
    Constraint.and_fixes (Constraint.unique_fixes hclaim) <|
      Constraint.and_fixes (Constraint.unique_fixes hclient) <|
        Constraint.unique_fixes fun r => congrArg some (hsequence r)

def turnIngressSequencesIndex : Constraint TurnIngressSequence :=
  (Constraint.unique fun r => some r.sequence).and <| .unique fun r => some r.turnId

def turnIngressClientRequestsIndex : Constraint TurnIngressClientRequest :=
  .unique fun r => some (r.sessionId, r.clientRequestId)

/-- The tables, with the last value the ingress sequence handed out. -/
structure TurnTables where
  sessionLocks : Table sessionLocksIndex
  turnIngress : Table turnIngressIndex
  turnIngressSequences : Table turnIngressSequencesIndex
  lastSequence : ℕ
  turnIngressClientRequests : Table turnIngressClientRequestsIndex

namespace TurnTables

/-- The tables of a new database. -/
def empty : TurnTables where
  sessionLocks := .empty _
  turnIngress := .empty _
  turnIngressSequences := .empty _
  lastSequence := 0
  turnIngressClientRequests := .empty _

variable (db : TurnTables)

def findSessionLock (sessionId : String) : Option SessionLock :=
  db.sessionLocks.rows.find? fun l => l.sessionId == sessionId

/-- The accepted rows of a session. -/
def acceptedTurns (sessionId : String) : List TurnIngress :=
  db.turnIngress.rows.filter fun r => r.sessionId == sessionId && r.status == .accepted

/-- The accepted row of a session with the latest sequence. -/
def latestAcceptedTurn (sessionId : String) : Option TurnIngress :=
  (db.acceptedTurns sessionId).argmax (·.acceptedSequence)

/-- `DELETE FROM session_locks WHERE p`, with the number of rows it removed. -/
def deleteLocks (p : SessionLock → Bool) : TurnTables × ℕ :=
  ({ db with sessionLocks := db.sessionLocks.delete p }, db.sessionLocks.rows.countP p)

/-- `UPDATE session_locks SET f WHERE p`, with the number of rows it changed. -/
def updateLocks (p : SessionLock → Bool) (f : SessionLock → SessionLock)
    (hf : ∀ l, (f l).sessionId = l.sessionId := by intro; rfl) : TurnTables × ℕ :=
  have hfix : sessionLocksIndex.Fixes f := Constraint.unique_fixes fun l => congrArg some (hf l)
  ({ db with sessionLocks := db.sessionLocks.update p f hfix }, db.sessionLocks.rows.countP p)

/-- `UPDATE turn_ingress SET f WHERE p`, with the number of rows it changed. -/
def updateIngress (p : TurnIngress → Bool) (f : TurnIngress → TurnIngress)
    (hf : turnIngressIndex.Fixes f) : TurnTables × ℕ :=
  ({ db with turnIngress := db.turnIngress.update p f hf }, db.turnIngress.rows.countP p)

/-- `UPDATE turn_ingress SET status, completed_at_ms WHERE p`. -/
def finishTurns (p : TurnIngress → Bool) (status : TurnStatus) (completedAtMs : ℤ) :
    TurnTables × ℕ :=
  db.updateIngress p (fun r => { r with status, completedAtMs := some completedAtMs }) <|
    turnIngress_fixes (fun _ => rfl) (fun _ => rfl) (fun _ => rfl) fun _ => rfl

/-- `UPDATE turn_ingress SET queue_acknowledged_at_ms WHERE p`. -/
def acknowledgeTurns (p : TurnIngress → Bool) (nowMs : ℤ) : TurnTables × ℕ :=
  db.updateIngress p (fun r => { r with queueAcknowledgedAtMs := some nowMs }) <|
    turnIngress_fixes (fun _ => rfl) (fun _ => rfl) (fun _ => rfl) fun _ => rfl

end TurnTables

end Kinetick
