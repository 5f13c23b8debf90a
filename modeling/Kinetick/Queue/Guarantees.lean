import Kinetick.Queue.Entries

/-!
# What the Queue repository is to keep

Definitions the statements on the queue use, over the rows of a Session.
-/

namespace Kinetick

open QueueRepository

namespace QueueDb

variable (db : QueueDb)

/-- The ids of a Session's pending items. -/
def itemIds (s : String) : Finset String := QueueEntry.ids (db.entries s)

/-- The facts tell what became of a Session: replayed they are its items, and they tell that it was
paused or not any more where it was. -/
structure Tells (facts : List QueueCommittedFact) (db' : QueueDb) (s : String) : Prop where
  items : db'.itemIds s =
    Ledger.replay (facts.flatMap (QueueCommittedFact.ledger s)) (db.itemIds s)
  pause : ∀ paused, .executionStateChanged s paused ∈ facts ↔
    (db'.pauses s).isSome = paused ∧ (db.pauses s).isSome ≠ paused

/-- Another pending item, which is not expired, has the dedupe key of the row. -/
def KeyTaken (nowMs : JsNumber) (row : QueueRow) : Prop :=
  row.dedupeKey ≠ none ∧ ∃ other ∈ db.rows row.sessionId, other.itemId ≠ row.itemId ∧
    other.dedupeKey = row.dedupeKey ∧ isExpiredRow nowMs other = false

/-- The one item comes before the other in the order of the row ids. -/
def Precedes (s a b : String) : Prop := [a, b].Sublist ((db.rows s).map QueueRow.itemId)

instance (s a b : String) : Decidable (db.Precedes s a b) :=
  inferInstanceAs (Decidable ([a, b].Sublist _))

/-- At most one row of a Session is claimed, and of a client request, and it is paused only with a
pending item. -/
structure WellKept (s : String) : Prop where
  claimed : ∀ a ∈ db.rows s, ∀ b ∈ db.rows s, a.status = .claimed → b.status = .claimed → a = b
  request : ∀ a ∈ db.rows s, ∀ b ∈ db.rows s, ∀ request, a.clientRequestId = some request →
    b.clientRequestId = some request → a = b
  pause : db.pauses s ≠ none → db.rows s ≠ []

/-- The item is a row of the Session: one written from it, or one that decodes to it. -/
def Holds (s : String) (item : QueueItem) : Prop :=
  ∃ row ∈ db.rows s, row = item.storage ∨ decodeQueueRow row = .ok item

/-- A member of a batch names a claimed item of another user message. -/
def ClaimIdentityChanged (s : String) (member : JsValue) : Prop :=
  ∃ row ∈ db.rows s, ∃ item, decodeQueueRow row = .ok item ∧
    memberItemId member = some item.itemId ∧ item.status = .claimed ∧
    ((member.get "queueClaim").isUndefined = true ∨
      item.claimId = ((member.get "queueClaim").get "claimId").text?) ∧
    ∃ id, nonEmptyText item.userMessageId = some id ∧ (member.get "userMessageId").isText id = false

/-- At most one queued row of a Session has a dedupe key. -/
def KeysUnique (s : String) : Prop :=
  ∀ a ∈ db.rows s, ∀ b ∈ db.rows s, a.status = .queued → b.status = .queued → ∀ key,
    a.dedupeKey = some key → b.dedupeKey = some key → a = b

end QueueDb

/-- An enqueue that is valid, not expired and admitted, and does not ask for the front without an
identity to restore while an item is claimed. -/
structure QueueEnqueueInput.Admissible (env : QueueEnvironment) (db : QueueDb)
    (input : QueueEnqueueInput) : Prop where
  valid : input.valid = true
  live : (input.expiresAt.any fun expiresAt => expiresAt.le env.nowMs) = false
  admitted : env.enqueueAdmission = none
  placed : ¬ (input.front = true ∧ nonEmptyText input.itemId = none ∧
    ∃ row ∈ db.rows input.sessionId, row.status = .claimed)

/-- The row has the request of the input. -/
def QueueEnqueueInput.Repeats (input : QueueEnqueueInput) (row : QueueRow) : Prop :=
  ∃ request, nonEmptyText input.clientRequestId = some request ∧
    row.clientRequestId = some request

/-- A recovery of the claim puts its items back. -/
def QueueRepository.putsBack (isAccepted : QueueClaimAcceptanceQuery → Bool) (db : QueueDb)
    (group : String × List QueueItem) : Prop :=
  ∃ query, (claimQuery group.2 group.1 none db).1 = .ok query ∧
    (!pendingDelivery group.1 group.2 && isAccepted query) = false

/-- The rows an operation puts back, unless they are expired. -/
def QueueOperation.Requeues (env : QueueEnvironment) (db : QueueDb) (row : QueueRow) :
    QueueOperation → Prop
  | releaseClaim s claimId _ => row ∈ db.rows s ∧ row.status = .claimed ∧ row.claimId = some claimId
  | recoverClaims s isAccepted scope => row ∈ db.rows s ∧ ∃ items,
      decodeRows ((db.rows s).filter fun row => row.status = .claimed) = .ok items ∧
      ∃ group ∈ groupRecoverable env scope items, putsBack isAccepted db group ∧
        ∃ item ∈ group.2, item.itemId = row.itemId
  | _ => False

/-- The operation puts back an item while another has its dedupe key. -/
def QueueOperation.Duplicates (env : QueueEnvironment) (db : QueueDb) (op : QueueOperation) : Prop :=
  ∃ row, op.Requeues env db row ∧ (row.expiresAtMs.any fun at_ => at_.le env.nowMs) = false ∧
    db.KeyTaken env.nowMs row

/-- The facts of an answer; what throws has none. -/
def answeredFacts : Except QueueError (List QueueCommittedFact) → List QueueCommittedFact
  | .ok facts => facts
  | .error _ => []

/-- What the facts of a run say about the items of a Session. -/
def queueLedger (es : List (QueueEnvironment × QueueOperation)) (s : String) :
    List (LedgerEntry String) :=
  ((queueSystem.answers queueSystem.initial es).flatMap answeredFacts).flatMap
    (QueueCommittedFact.ledger s)

/-- The id an operation would make is no pending item's. -/
def NewIds (db : QueueDb) (e : QueueEnvironment × QueueOperation) : Prop :=
  ¬ db.Clashes e.2.sessionId e.1.newItemId

namespace QueueOperation

/-- The item an enqueue with front placement answers. -/
def frontItem (env : QueueEnvironment) (db : QueueDb) : QueueOperation → Option String
  | enqueue input => if input.front then
      match (QueueRepository.enqueue env input db).1 with
      | .ok result => result.value.map fun r => r.item.itemId
      | .error _ => none
    else none
  | _ => none

def IsReorder : QueueOperation → Prop
  | reorder _ _ => True
  | _ => False

/-- What an operation may do besides. -/
def scope (env : QueueEnvironment) (db : QueueDb) (op : QueueOperation) : QueueScope where
  clashes := db.Clashes op.sessionId env.newItemId
  duplicates := op.Duplicates env db
  fronts itemId := op.frontItem env db = some itemId
  reorders := op.IsReorder ∧ ∀ row ∈ db.rows op.sessionId, row.status = .queued

end QueueOperation

/-- The item is pending before and after a step, which does not enqueue it. -/
def Stays (s itemId : String) (db : QueueDb) (e : QueueEnvironment × QueueOperation) : Prop :=
  itemId ∈ db.itemIds s ∧ itemId ∈ (queueSystem.step db e).1.itemIds s ∧
    .opened itemId ∉ (answeredFacts (queueSystem.step db e).2).flatMap (QueueCommittedFact.ledger s)

/-- A step that puts no item first, and reorders at most where one is claimed. -/
def KeepsOrder (db : QueueDb) (e : QueueEnvironment × QueueOperation) : Prop :=
  e.2.isReplaceSession = false ∧ e.2.frontItem e.1 db = none ∧
    (e.2.IsReorder → ∃ row ∈ db.rows e.2.sessionId, row.status = .claimed)

/-- After a step put an item first, the claimed one precedes every other, the item precedes the other
queued ones, and these are in the order they were in. -/
structure PutFirst (db : QueueDb) (e : QueueEnvironment × QueueOperation) (itemId : String) :
    Prop where
  claimed : ∀ row ∈ (queueSystem.step db e).1.rows e.2.sessionId, row.status = .claimed →
    ∀ other ∈ (queueSystem.step db e).1.rows e.2.sessionId, other.itemId ≠ row.itemId →
      (queueSystem.step db e).1.Precedes e.2.sessionId row.itemId other.itemId
  first : ∀ row ∈ (queueSystem.step db e).1.rows e.2.sessionId, row.status = .queued →
    row.itemId ≠ itemId → (queueSystem.step db e).1.Precedes e.2.sessionId itemId row.itemId
  rest : ∀ a ∈ (queueSystem.step db e).1.rows e.2.sessionId, a.status = .queued →
    a.itemId ≠ itemId → Stays e.2.sessionId a.itemId db e →
    ∀ b ∈ (queueSystem.step db e).1.rows e.2.sessionId, b.status = .queued →
    b.itemId ≠ itemId → Stays e.2.sessionId b.itemId db e →
      ((queueSystem.step db e).1.Precedes e.2.sessionId a.itemId b.itemId ↔
        db.Precedes e.2.sessionId a.itemId b.itemId)

/-- The new item comes where the other was among the items that stay. -/
structure TakesPlace (db db' : QueueDb) (s replaced itemId : String) : Prop where
  before : ∀ b ∈ db.itemIds s, b ∈ db'.itemIds s → b ≠ itemId →
    (db'.Precedes s b itemId ↔ db.Precedes s b replaced)
  after : ∀ b ∈ db.itemIds s, b ∈ db'.itemIds s → b ≠ itemId →
    (db'.Precedes s itemId b ↔ db.Precedes s replaced b)

end Kinetick
