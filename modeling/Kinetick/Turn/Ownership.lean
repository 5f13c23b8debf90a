import Kinetick.Turn.System

/-!
# Who owns a Session

What the lock row and the accepted rows of one Session say together: nobody, a Turn, a
maintenance lease, or the deletion of the Session. A lock of a Turn without its accepted row, or an
accepted row without its lock, cannot be written down here. `Owned` says the tables are such a
state at every Session, and each call moves the Sessions as the functions below do.
-/

namespace Kinetick

/-- The columns of a lock beside its Session and its kind. -/
structure Lease where
  ownerId : String
  acquiredAtMs : ℤ
  expiresAtMs : ℤ
deriving DecidableEq, Repr

namespace Lease

def lock (lease : Lease) (sessionId : String) (ownerKind : OwnerKind) : SessionLock where
  sessionId
  ownerId := lease.ownerId
  ownerKind
  acquiredAtMs := lease.acquiredAtMs
  expiresAtMs := lease.expiresAtMs

/-- The lease of a lock row. -/
def ofLock (lock : SessionLock) : Lease := ⟨lock.ownerId, lock.acquiredAtMs, lock.expiresAtMs⟩

/-- The lease of a deletion fence raised at `now`. -/
def fence (ownerId : String) (now : ℤ) : Lease := ⟨ownerId, now, deletionFenceExpiresAtMs⟩

/-- The lease a renewal leaves, where it names this one in time. -/
def renew (leaseId : String) (nowMs leaseMs : ℤ) (lease : Lease) : Lease :=
  if lease.ownerId = leaseId ∧ nowMs < lease.expiresAtMs then
    { lease with expiresAtMs := nowMs + leaseMs }
  else lease

end Lease

/-- The kinds of lock a Turn holds. -/
def OwnerKind.holdsTurn : OwnerKind → Bool
  | .turn | .compaction | .turnDeleting | .compactionDeleting => true
  | _ => false

/-- The kind of lock a Turn holds, before and after its Session is to be deleted. -/
def TurnBusyReason.lockKind (busyReason : TurnBusyReason) : Bool → OwnerKind
  | false => busyReason.ownerKind
  | true => match busyReason with
    | .turn => .turnDeleting
    | .compaction => .compactionDeleting

/-- Who owns a Session. `deleting` marks an owner whose Session waits to be deleted. -/
inductive Ownership
  | free
  | turn (busyReason : TurnBusyReason) (deleting : Bool) (lease : Lease) (row : TurnIngress)
  | maintenance (deleting : Bool) (lease : Lease)
  | deletion (lease : Lease)
deriving DecidableEq, Repr

namespace Ownership

/-- The lock row. -/
def lock (sessionId : String) : Ownership → Option SessionLock
  | free => none
  | turn busyReason deleting lease _ => some (lease.lock sessionId (busyReason.lockKind deleting))
  | maintenance deleting lease =>
    some (lease.lock sessionId (if deleting then .maintenanceDeleting else .maintenance))
  | deletion lease => some (lease.lock sessionId .sessionDeletion)

/-- The accepted rows. -/
def accepted : Ownership → List TurnIngress
  | turn _ _ _ row => [row]
  | _ => []

/-- A deletion of the Session has begun. -/
def isDeleting : Ownership → Bool
  | turn _ deleting _ _ => deleting
  | maintenance deleting _ => deleting
  | deletion _ => true
  | free => false

def lease? : Ownership → Option Lease
  | free => none
  | turn _ _ lease _ => some lease
  | maintenance _ lease => some lease
  | deletion lease => some lease

def mapLease (f : Lease → Lease) : Ownership → Ownership
  | free => free
  | turn busyReason deleting lease row => turn busyReason deleting (f lease) row
  | maintenance deleting lease => maintenance deleting (f lease)
  | deletion lease => deletion (f lease)

def mapRow (f : TurnIngress → TurnIngress) : Ownership → Ownership
  | turn busyReason deleting lease row => turn busyReason deleting lease (f row)
  | o => o

/-- The Turn is accepted and the lock is its lease's. -/
def HeldBy (turnId leaseId : String) : Ownership → Prop
  | turn _ _ lease row => lease.ownerId = leaseId ∧ row.turnId = turnId
  | _ => False

instance (turnId leaseId : String) : DecidablePred (HeldBy turnId leaseId) := fun o => by
  cases o <;> unfold HeldBy <;> infer_instance

/-- What is left of an owner whose Turn reached its end. -/
def finish (now : ℤ) : Ownership → Ownership
  | turn _ true lease _ => deletion (.fence lease.ownerId now)
  | turn _ false _ _ => free
  | o => o

def settle (turnId leaseId : String) (now : ℤ) (o : Ownership) : Ownership :=
  if o.HeldBy turnId leaseId then o.finish now else o

def recoverExpired (now : ℤ) (o : Ownership) : Ownership :=
  if o.lease?.any (·.expiresAtMs ≤ now) then free else o

/-- The owner an admission finds after its recoveries. -/
def recovered (pending : Option PendingSettlement) (now : ℤ) (o : Ownership) : Ownership :=
  (match pending with
    | some pending => o.settle pending.turnId pending.leaseId now
    | none => o).recoverExpired now

def renewMaintenance (leaseId : String) (nowMs leaseMs : ℤ) : Ownership → Ownership
  | maintenance deleting lease => maintenance deleting (lease.renew leaseId nowMs leaseMs)
  | o => o

def releaseMaintenance (leaseId : String) (now : ℤ) : Ownership → Ownership
  | maintenance deleting lease =>
    if lease.ownerId ≠ leaseId then maintenance deleting lease
    else if deleting then deletion (.fence lease.ownerId now) else free
  | o => o

def revoke (turnId leaseId : String) : Ownership → Ownership
  | turn .turn false lease row =>
    if lease.ownerId = leaseId ∧ row.turnId = turnId then free else turn .turn false lease row
  | o => o

/-- An expired owner, as a deletion finds it. -/
def expireForDeletion (now : ℤ) : Ownership → Ownership
  | turn busyReason deleting lease row =>
    if now < lease.expiresAtMs then turn busyReason deleting lease row
    else (turn busyReason deleting lease row).finish now
  | maintenance true lease =>
    if now < lease.expiresAtMs then maintenance true lease
    else deletion (.fence lease.ownerId now)
  | o => o

/-- The fence a deletion raises on what is left of the owner. -/
def raiseFence (now : ℤ) (verdicts : DeletionVerdicts) : Ownership → Ownership
  | free => deletion (.fence verdicts.deletionOwnerId now)
  | deletion lease =>
    if verdicts.isLeaseOwnerCurrent lease.ownerId then deletion lease
    else deletion (.fence verdicts.deletionOwnerId now)
  | turn busyReason _ lease row => turn busyReason true lease row
  | maintenance _ lease => maintenance true lease

/-- What a deletion that begins leaves of an owner. -/
def beginDeletion (pending : Option PendingSettlement) (now : ℤ) (verdicts : DeletionVerdicts)
    (o : Ownership) : Ownership :=
  ((match pending with
    | some pending => o.settle pending.turnId pending.leaseId now
    | none => o).expireForDeletion now).raiseFence now verdicts

/-- What a restart leaves of an owner an older process left. -/
def restart (verdicts : RestartVerdicts) (sessionId : String) (now : ℤ) : Ownership → Ownership
  | deletion _ => deletion (.fence (verdicts.deletionOwnerId sessionId) now)
  | _ => free

end Ownership

/-- The Sessions a call names. A restart may take every one. -/
def TurnEvent.names : TurnEvent → String → Bool
  | .setClock _, _ => false
  | .admitTurn input _, s => input.sessionId == s
  | .renew sessionId _, s => sessionId == s
  | .settle input _, s => input.sessionId == s
  | .recoverExpired sessionId, s => sessionId == s
  | .recoverProcessRestart _ _, _ => true
  | .revokeAdmission sessionId _ _, s => sessionId == s
  | .tryAcquireSessionMaintenance sessionId _ _, s => sessionId == s
  | .renewSessionMaintenance sessionId _, s => sessionId == s
  | .releaseSessionMaintenance sessionId _, s => sessionId == s
  | .beginSessionDeletion sessionId _, s => sessionId == s
  | .deleteSessionData sessionId, s => sessionId == s
  | .completeSessionDeletion sessionId _, s => sessionId == s
  | .reserveSteeringReceipt input, s => input.sessionId == s
  | .releaseSteeringReceipt input, s => input.sessionId == s
  | .markAcknowledged query, s => query.sessionId == s

/-- What a call and its answer do to the owner of a Session it names. `pending` is the settlement
to be retried and `now` the clock the call reads. -/
inductive OwnerStep (leaseMs : ℤ) (pending : Option PendingSettlement) (now : ℤ) :
    TurnEvent → TurnResponse → Ownership → Ownership → Prop
  | threw (e : TurnEvent) (error : TurnError) (o : Ownership) :
    OwnerStep leaseMs pending now e (.threw error) o o
  | admitBlocked {input : AdmitTurnInput} {verdicts : AdmitVerdicts} {result : AdmitTurnResult}
      {rejection : SessionRejection} (o : Ownership)
      (hblock : TurnTables.blocksAdmission verdicts.sessionRejection
        input.bypassSessionMutation = some rejection) (hresult : result.isAccepted = false) :
    OwnerStep leaseMs pending now (.admitTurn input verdicts) (.admitted result) o o
  | admitRefused {input : AdmitTurnInput} {verdicts : AdmitVerdicts} {result : AdmitTurnResult}
      (o : Ownership)
      (hblock : TurnTables.blocksAdmission verdicts.sessionRejection
        input.bypassSessionMutation = none)
      (hresult : result.isAccepted = false) :
    OwnerStep leaseMs pending now (.admitTurn input verdicts) (.admitted result) o
      (o.recovered pending now)
  | admitted {input : AdmitTurnInput} {verdicts : AdmitVerdicts} {result : AdmitTurnResult}
      {row : TurnIngress} (o : Ownership)
      (hblock : TurnTables.blocksAdmission verdicts.sessionRejection
        input.bypassSessionMutation = none)
      (hresult : result.isAccepted) (hfree : o.recovered pending now = .free)
      (hrow : row.turnId = input.turnId) :
    OwnerStep leaseMs pending now (.admitTurn input verdicts) (.admitted result) o
      (.turn input.busyReason false ⟨verdicts.leaseId, now, now + leaseMs⟩ row)
  | renew (s leaseId : String) (once : Bool) (o : Ownership) :
    OwnerStep leaseMs pending now (.renew s leaseId) (.changed once) o
      (o.mapLease (Lease.renew leaseId now leaseMs))
  | settle (input : SettleTurnInput) (result : SettleTurnResult) (o : Ownership) :
    OwnerStep leaseMs pending now (.settle input false) (.settled result) o
      (o.settle input.turnId input.leaseId now)
  | recoverExpired (s : String) (result : TurnLeaseRecoveryResult) (o : Ownership) :
    OwnerStep leaseMs pending now (.recoverExpired s) (.recovered result) o
      (o.recoverExpired now)
  | restartKept {started : ℤ} {verdicts : RestartVerdicts}
      {result : TurnTables.TurnProcessRestartRecoveryResult} (o : Ownership) :
    OwnerStep leaseMs pending now (.recoverProcessRestart started verdicts) (.restarted result) o o
  | restarted {started : ℤ} {verdicts : RestartVerdicts}
      {result : TurnTables.TurnProcessRestartRecoveryResult} (s : String) (o : Ownership) :
    OwnerStep leaseMs pending now (.recoverProcessRestart started verdicts) (.restarted result) o
      (o.restart verdicts s now)
  | revoke (s turnId leaseId : String) (revoked : Bool) (o : Ownership) :
    OwnerStep leaseMs pending now (.revokeAdmission s turnId leaseId) (.changed revoked) o
      (o.revoke turnId leaseId)
  | maintenanceBlocked {s leaseId : String} {rejection : Option SessionRejection} (o : Ownership)
      (hrejection : rejection.isSome) :
    OwnerStep leaseMs pending now (.tryAcquireSessionMaintenance s rejection leaseId)
      (.acquired none) o o
  | maintenanceRefused {s leaseId : String} (o : Ownership) :
    OwnerStep leaseMs pending now (.tryAcquireSessionMaintenance s none leaseId)
      (.acquired none) o (o.recoverExpired now)
  | maintenanceAcquired {s leaseId : String} {lease : String × List TurnRecoveryTerminalFact}
      (o : Ownership) (hfree : o.recoverExpired now = .free) :
    OwnerStep leaseMs pending now (.tryAcquireSessionMaintenance s none leaseId)
      (.acquired (some lease)) o (.maintenance false ⟨leaseId, now, now + leaseMs⟩)
  | renewMaintenance (s leaseId : String) (once : Bool) (o : Ownership) :
    OwnerStep leaseMs pending now (.renewSessionMaintenance s leaseId) (.changed once) o
      (o.renewMaintenance leaseId now leaseMs)
  | releaseMaintenance (s leaseId : String) (o : Ownership) :
    OwnerStep leaseMs pending now (.releaseSessionMaintenance s leaseId) .done o
      (o.releaseMaintenance leaseId now)
  | beginDeletion (s : String) (verdicts : DeletionVerdicts) (state : SessionDeletionState)
      (o : Ownership) :
    OwnerStep leaseMs pending now (.beginSessionDeletion s verdicts) (.deleting state) o
      (o.beginDeletion pending now verdicts)
  | deleteData {s : String} (o : Ownership) (hempty : o.accepted = []) :
    OwnerStep leaseMs pending now (.deleteSessionData s) .done o o
  | completeDeletion (s : String) (isLeaseOwnerCurrent : String → Bool) (o : Ownership) :
    OwnerStep leaseMs pending now (.completeSessionDeletion s isLeaseOwnerCurrent) .done o .free
  | reserve (input : SteeringReceipt) (result : ReserveSteeringReceiptResult) (o : Ownership) :
    OwnerStep leaseMs pending now (.reserveSteeringReceipt input) (.reserved result) o o
  | releaseReceipt (input : SteeringReceipt) (o : Ownership) :
    OwnerStep leaseMs pending now (.releaseSteeringReceipt input) .done o o
  | acknowledge {query : QueueClaimAcceptanceQuery} {f : TurnIngress → TurnIngress}
      (o : Ownership) (hf : ∀ r, (f r).turnId = r.turnId) :
    OwnerStep leaseMs pending now (.markAcknowledged query) .done o (o.mapRow f)

/-- The Sessions of the tables are owned as `m` says. -/
def TurnTables.Owned (db : TurnTables) (m : String → Ownership) : Prop :=
  ∀ s, db.findSessionLock s = (m s).lock s ∧ db.acceptedTurns s = (m s).accepted

end Kinetick
