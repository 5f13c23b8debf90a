import Kinetick.Queue.Guarantees

/-!
# The Queue's fence of Turn admission

Whether the queue of a Session has priority over a Turn that is to be admitted. Exact claims and
continuations bypass the pause; a claim in order is blocked by what is before it in the queue, less
the items that yielded to it.
-/

namespace Kinetick

inductive TurnAdmissionPriority
  | fifo (candidateCreatedAtMs : JsNumber) (queueClaimId : Option String)
      (yieldedQueueItemIds : List String)
  | continuedQueueHead (queueClaimId : String) (yieldedQueueItemIds : List String)
  | selectedQueueItem (queueClaimId : String)
  | retryContinuation
  | pausedQueueSend
  | userInputResume
  | turnContinuation

namespace TurnAdmissionPriority

def bypassesQueuePause : TurnAdmissionPriority → Bool
  | fifo _ _ _ => false
  | _ => true

def bypassesQueueOrder : TurnAdmissionPriority → Bool
  | fifo _ _ _ => false
  | continuedQueueHead _ _ => false
  | selectedQueueItem _ => false
  | _ => true

def queueClaimId : TurnAdmissionPriority → Option String
  | fifo _ claimId _ => nonEmptyText claimId
  | continuedQueueHead claimId _ => nonEmptyText (some claimId)
  | selectedQueueItem claimId => nonEmptyText (some claimId)
  | _ => none

def yieldedItemIds : TurnAdmissionPriority → List String
  | fifo _ _ yielded => yielded
  | continuedQueueHead _ yielded => yielded
  | _ => []

def isSelectedQueueItem : TurnAdmissionPriority → Bool
  | selectedQueueItem _ => true
  | _ => false

end TurnAdmissionPriority

/-- `inArray(status, ['queued', 'claimed'])` -/
def isPendingRow (row : QueueRow) : Bool := [.queued, .claimed].contains row.status

@[simp] theorem isPendingRow_eq (row : QueueRow) : isPendingRow row = true := by
  unfold isPendingRow
  cases row.status <;> decide

/-- The row is claimed by the claim. -/
def isClaimedBy (claimId : String) (row : QueueRow) : Bool :=
  row.claimId = some claimId && row.status = .claimed

/-- The rows of ids less than the first claimed one are those before it. -/
def claimedQueueItemBlocks (db : QueueDb) (sessionId : String) (priority : TurnAdmissionPriority)
    (queueClaimId : String) : Bool :=
  match (db.rows sessionId).findIdx? (isClaimedBy queueClaimId) with
  | none => true
  | some firstClaimed =>
    if priority.isSelectedQueueItem then false
    else ((db.rows sessionId).take firstClaimed).any fun row =>
      isPendingRow row && !priority.yieldedItemIds.contains row.itemId

/-- `blocksInTransaction` -/
def blocksQueueCandidate (db : QueueDb) (sessionId : String) (priority : TurnAdmissionPriority) :
    Bool :=
  if (db.pauses sessionId).isSome && !priority.bypassesQueuePause then true
  else if priority.bypassesQueueOrder then false
  else match priority.queueClaimId with
    | some queueClaimId => claimedQueueItemBlocks db sessionId priority queueClaimId
    | none => match priority with
      | .fifo candidateCreatedAtMs _ _ => (db.rows sessionId).any fun row =>
        isPendingRow row && row.createdAtMs.le candidateCreatedAtMs
      | _ => true

/-- The priority of a Turn that is submitted for a claim. -/
def queueAdmissionPriority (selection : QueueClaimSelection) (claimId : String)
    (candidateCreatedAtMs : JsNumber) (yieldedQueueItemIds : List String) : TurnAdmissionPriority :=
  match selection with
  | .exact => .selectedQueueItem claimId
  | .continuedFifo => .continuedQueueHead claimId yieldedQueueItemIds
  | .fifo => .fifo candidateCreatedAtMs (some claimId) yieldedQueueItemIds

/-! ## Between a claim and the admission -/

/-- The facts of a step tell that the item was removed. -/
def Removes (s itemId : String) (db : QueueDb) (e : QueueEnvironment × QueueOperation) : Prop :=
  .closed itemId ∈
    (answeredFacts (queueSystem.step db e).2).flatMap (QueueCommittedFact.ledger s)

/-- Enqueues without a dedupe key and not to the front that leave the claimed item alone, of which
they may restore the identity or settle the claim; cancellations, updates, and what only expires. -/
def BeforeAdmission (s itemId : String) (db : QueueDb) (e : QueueEnvironment × QueueOperation) :
    Prop :=
  match e.2 with
  | .enqueue input => nonEmptyText input.dedupeKey = none ∧ input.front = false ∧ NewIds db e ∧
    ¬ Removes s itemId db e
  | .cancel _ _ => True
  | .updateQueued _ => True
  | .snapshot _ => True
  | .list _ => True
  | .findByClientRequestId _ _ => True
  | .get _ _ => True
  | _ => False

end Kinetick
