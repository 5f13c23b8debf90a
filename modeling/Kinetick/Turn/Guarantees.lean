import Kinetick.Turn.Ownership

/-!
# What the callers of the Turn repository rely on

The deletion fence of a Session and the settlement to be retried, as a caller sees them: from the
locks, the rows, the retry record and the answers of the calls.
-/

namespace Kinetick

/-- The Turn a settlement names is accepted under the lease it names. -/
def TurnTables.Holds (db : TurnTables) (pending : PendingSettlement) : Prop :=
  (∃ lock, db.findSessionLock pending.sessionId = some lock ∧ lock.ownerId = pending.leaseId) ∧
    ∃ row ∈ db.acceptedTurns pending.sessionId, row.turnId = pending.turnId

namespace TurnRepository

variable (r : TurnRepository) (s : String)

/-- The settlement to be retried names an accepted Turn and its lease. -/
def AwaitsRetry : Prop :=
  ∃ pending, r.pendingSettlements s = some pending ∧ r.tables.Holds pending

/-! ## The deletion fence -/

/-- The lock of the Session is a deletion's. -/
def Deleting : Prop :=
  ∃ lock, r.tables.findSessionLock s = some lock ∧ lock.ownerKind.isDeletion

/-- The lock of the Session is a deletion's, without an end once nobody holds it any more. -/
def FenceUp : Prop :=
  ∃ lock, r.tables.findSessionLock s = some lock ∧ lock.ownerKind.isDeletion ∧
    (lock.ownerKind = .sessionDeletion → lock.expiresAtMs = deletionFenceExpiresAtMs)

/-- The lock of the Session is a deletion's and its lease is over. -/
def FenceExpired : Prop :=
  ∃ lock, r.tables.findSessionLock s = some lock ∧ lock.ownerKind.isDeletion ∧
    lock.expiresAtMs ≤ r.nowMs

/-- The calls that take the fence down or give it an end: a recovery of an expired lease that finds
the lock of a deletion, and a renewal by the lease the fence was promoted from. An admission retries
the recorded settlement first, which promotes the fence. -/
def LowersFence : TurnEvent → Prop
  | .recoverExpired sessionId => sessionId = s ∧ r.FenceExpired s
  | .tryAcquireSessionMaintenance sessionId rejection _ =>
    sessionId = s ∧ rejection = none ∧ r.FenceExpired s
  | .admitTurn input verdicts =>
    input.sessionId = s ∧
      TurnTables.blocksAdmission verdicts.sessionRejection input.bypassSessionMutation = none ∧
      r.Deleting s ∧ ((r.AwaitsRetry s ∧ deletionFenceExpiresAtMs ≤ r.nowMs) ∨
        (¬ r.AwaitsRetry s ∧ r.FenceExpired s))
  | .renew sessionId leaseId =>
    sessionId = s ∧ ∃ lock, r.tables.findSessionLock s = some lock ∧
      lock.ownerKind = .sessionDeletion ∧ lock.ownerId = leaseId ∧ r.nowMs < lock.expiresAtMs
  | _ => False

/-! ## The settlement to be retried -/

/-- The calls that forget a settlement still to be retried: an admission Session admission blocks,
and another settlement that throws and takes its place. -/
def LosesRetry (e : TurnEvent) : Prop :=
  r.AwaitsRetry s ∧ match e with
    | .admitTurn input verdicts =>
      input.sessionId = s ∧ (TurnTables.blocksAdmission verdicts.sessionRejection
        input.bypassSessionMutation).isSome
    | .settle input thrown =>
      input.sessionId = s ∧ thrown ∧
        r.pendingSettlements s ≠ some ⟨input.sessionId, input.turnId, input.leaseId⟩
    | _ => False

end TurnRepository

/-- The lease an admission would use. -/
def TurnEvent.drawnLease : TurnEvent → Option String
  | .admitTurn _ verdicts => some verdicts.leaseId
  | _ => none

/-- After a settlement that threw, a run whose calls meet `G` keeps it to be retried until its Turn
is not accepted under its lease any more, and an admission that is not blocked reads the lock
without that Turn holding it. No admission of the run draws the settlement's lease again. -/
def SettlementKept (options : TurnRepositoryOptions)
    (G : TurnRepository → String → TurnEvent → Prop) : Prop :=
  ∀ r, (turnMachine options).Reachable r → ∀ input thrown error,
    (r.step options (.settle input thrown)).2 = .threw error →
    let pending : PendingSettlement := ⟨input.sessionId, input.turnId, input.leaseId⟩
    let thrownAt := (r.step options (.settle input thrown)).1
    ∀ es, (turnMachine options).Along
      (fun r e => G r input.sessionId e ∧ e.drawnLease ≠ some input.leaseId) thrownAt es →
    let r' := (turnMachine options).after thrownAt es
    (r'.pendingSettlements input.sessionId = some pending ∨ ¬ r'.tables.Holds pending) ∧
      ∀ killProbe, ¬ (r'.tables.recoverAdmissionTerminalFacts input.sessionId
        (r'.pendingSettlements input.sessionId) killProbe r'.nowMs).1.Holds pending

/-- The answer admits a Turn to the Session or gives out a maintenance lease on it. -/
def TurnEvent.takes (s : String) : TurnEvent → TurnResponse → Bool
  | .admitTurn input _, .admitted result => input.sessionId == s && result.isAccepted
  | .tryAcquireSessionMaintenance sessionId _ _, .acquired lease =>
    sessionId == s && lease.isSome
  | _, _ => false

/-- The answer completes the deletion of the Session or a restart. -/
def TurnEvent.endsDeletion (s : String) : TurnEvent → TurnResponse → Bool
  | .completeSessionDeletion sessionId _, .done => sessionId == s
  | .recoverProcessRestart _ _, .restarted _ => true
  | _, _ => false

/-- Session admission refuses nothing. -/
def TurnEvent.sessionAdmits : TurnEvent → Bool
  | .admitTurn _ verdicts => verdicts.sessionRejection.isNone
  | .tryAcquireSessionMaintenance _ rejection _ => rejection.isNone
  | _ => true

/-- In a run whose calls meet `G`, once the deletion of a Session has begun, its fence is up and no
answer takes the Session, until an answer ends the deletion. -/
def FenceSticky (options : TurnRepositoryOptions) (G : TurnRepository → String → TurnEvent → Prop) :
    Prop :=
  ∀ s before verdicts state es,
    let r := (turnMachine options).after .initial before
    let begun := r.step options (.beginSessionDeletion s verdicts)
    (turnMachine options).Along (fun r e => G r s e) .initial before →
    begun.2 = .deleting state →
    (turnMachine options).Along
      (fun r e => G r s e ∧ e.endsDeletion s (r.step options e).2 = false) begun.1 es →
    ((turnMachine options).after begun.1 es).FenceUp s ∧
      (turnMachine options).Along
        (fun r e => r.FenceUp s ∧ e.takes s (r.step options e).2 = false) begun.1 es

/-! ## Admission again -/

/-- The receipt is of this Turn with this input. -/
structure TurnIngress.IsOf (receipt : TurnIngress) (input : AdmitTurnInput) : Prop where
  turnId : receipt.turnId = input.turnId
  sessionId : receipt.sessionId = input.sessionId
  busyReason : receipt.busyReason.busyReason = input.busyReason
  inputDigest : receipt.inputDigest = input.inputDigest
  claimId : receipt.claimId = input.queueIngress.map (·.claimId)
  claimSource : receipt.claimSource = input.queueIngress.map (·.source)
  queueItemIds : receipt.queueItemIds.getD [] = (input.queueIngress.map (·.itemId)).toList

/-- A Queue claim of the input has an id, and where its client request has a receipt, a Turn of the
Session was admitted for that request: the receipt is no reserved steering receipt. -/
def TurnTables.LookedUp (db : TurnTables) (input : AdmitTurnInput) : Prop :=
  (∀ ingress, input.queueIngress = some ingress → ingress.claimId ≠ "") ∧
    ∀ receipt ∈ db.turnIngressClientRequests.rows, receipt.sessionId = input.sessionId →
      truthy input.clientRequestId = some receipt.clientRequestId →
        ∃ row ∈ db.turnIngress.rows, row.sessionId = input.sessionId ∧
          row.clientRequestId = some receipt.clientRequestId

/-- An admission never violates a unique index, and an input admitted before is a duplicate of its
receipt that changes no row while no deletion fence is up, with a Session admission that refuses
nothing. -/
def AdmissionIdempotent (options : TurnRepositoryOptions) : Prop :=
  ∀ r, (turnMachine options).Reachable r → ∀ input verdicts, verdicts.sessionRejection = none →
    (∀ table, (r.step options (.admitTurn input verdicts)).2 ≠ .threw (.uniqueConstraint table)) ∧
      ∀ receipt ∈ r.tables.turnIngress.rows, receipt.IsOf input → ¬ r.Deleting input.sessionId →
        (∃ facts, (r.step options (.admitTurn input verdicts)).2 =
          .admitted (.duplicate receipt.turnId facts)) ∧
        (r.step options (.admitTurn input verdicts)).1.tables.turnIngress = r.tables.turnIngress

end Kinetick
