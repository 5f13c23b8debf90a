import Kinetick.Effect
import Kinetick.Queue.Policy
import Kinetick.Table

/-!
# The Queue repository

Its operations over the rows of every Session and their pauses. Each runs in one transaction: what
throws leaves the state it found. The order of a Session's rows is the order of their ids, which an
update keeps and an insert puts last.
-/

namespace Kinetick

/-- The unique index of `local_runtime_queue_items`. -/
abbrev queueItemsConstraint : Constraint QueueRow :=
  Constraint.unique fun row => some (row.sessionId, row.itemId)

structure QueueDb where
  items : Table queueItemsConstraint
  pauses : String → Option QueuePause

/-- A repository, and what an operation of it meets: the clock, the ids it would make, the owners
that are alive and the verdict of the admission. -/
structure QueueEnvironment where
  nowMs : ℤ
  newItemId : String
  newClaimId : String
  claimOwnerId : String
  claimLeaseMs : ℤ
  isClaimOwnerAlive : String → Bool
  enqueueAdmission : Option QueueEnqueueAdmissionRejection

/-- A computation in a transaction. -/
abbrev QueueTransaction := Effect QueueDb QueueError

namespace QueueDb

def empty : QueueDb := { items := Table.empty _, pauses := fun _ => none }

/-- The rows of a Session in the order of their ids. -/
def rows (db : QueueDb) (sessionId : String) : List QueueRow :=
  db.items.rows.filter fun row => row.sessionId = sessionId

end QueueDb

namespace QueueRepository

/-! ## Rows -/

def decodeRows : List QueueRow → Except QueueError (List QueueItem)
  | [] => .ok []
  | row :: rows =>
    match decodeQueueRow row, decodeRows rows with
    | .ok item, .ok items => .ok (item :: items)
    | .error e, _ => .error e
    | _, .error e => .error e

/-- `SELECT … WHERE session_id = … AND … ORDER BY id`, decoded. -/
def select (sessionId : String) (matching : QueueRow → Bool) : QueueTransaction (List QueueItem) :=
  fun db => (decodeRows ((db.rows sessionId).filter matching), db)

/-- The first of them. -/
def selectFirst (sessionId : String) (matching : QueueRow → Bool) :
    QueueTransaction (Option QueueItem) := fun db =>
  match (db.rows sessionId).find? matching with
  | none => (.ok none, db)
  | some row => ((decodeQueueRow row).map some, db)

def deleteRows (sessionId : String) (matching : QueueRow → Bool) : QueueTransaction Unit :=
  Effect.change fun db =>
    { db with items := db.items.delete fun row => row.sessionId = sessionId && matching row }

def insert (item : QueueItem) : QueueTransaction Unit := fun db =>
  match db.items.insert item.storage with
  | some items => (.ok (), { db with items })
  | none => (.error .uniqueViolation, db)

def isRow (sessionId itemId : String) (row : QueueRow) : Bool :=
  row.sessionId = sessionId && row.itemId = itemId

/-- `UPDATE` of every column of a row. -/
def replaceItem (previous item : QueueItem) : QueueTransaction Unit := fun db =>
  match db.items.rewrite (isRow previous.sessionId previous.itemId) fun _ => item.storage with
  | some items => (.ok (), { db with items })
  | none => (.error .uniqueViolation, db)

/-- `INSERT … ON CONFLICT DO UPDATE` -/
def write (item : QueueItem) : QueueTransaction Unit := fun db =>
  if db.items.rows.any (isRow item.sessionId item.itemId) then replaceItem item item db
  else insert item db

def find (sessionId itemId : String) : QueueTransaction (Option QueueItem) :=
  selectFirst sessionId fun row => row.itemId = itemId

def deleteItem (sessionId itemId : String) : QueueTransaction Unit :=
  deleteRows sessionId fun row => row.itemId = itemId

def rowsByStatus (sessionId : String) (status : QueueItemStatus) :
    QueueTransaction (List QueueItem) :=
  select sessionId fun row => row.status = status

def allRows (sessionId : String) : QueueTransaction (List QueueItem) := select sessionId fun _ => true

def claimRows (sessionId claimId : String) : QueueTransaction (List QueueItem) :=
  select sessionId fun row => row.status = .claimed && row.claimId = some claimId

def hasClaimed (sessionId : String) : QueueTransaction Bool :=
  Effect.read fun db => (db.rows sessionId).any fun row => row.status = .claimed

def findByClientRequest (sessionId clientRequestId : String) : QueueTransaction (Option QueueItem) :=
  selectFirst sessionId fun row => row.clientRequestId = some clientRequestId

def findByDedupeKey (sessionId dedupeKey : String) : QueueTransaction (Option QueueItem) :=
  selectFirst sessionId fun row => row.status = .queued && row.dedupeKey = some dedupeKey

def replaceRows (sessionId : String) (items : List QueueItem) : QueueTransaction Unit := do
  deleteRows sessionId fun _ => true
  Effect.forEach insert items

def moveQueuedToFront (item : QueueItem) : QueueTransaction Unit := do
  let queued ← rowsByStatus item.sessionId .queued
  deleteRows item.sessionId fun row => row.status = .queued
  Effect.forEach insert (item :: queued.filter fun other => other.itemId ≠ item.itemId)

def isExpiredRow (nowMs : JsNumber) (row : QueueRow) : Bool :=
  row.status = .queued && row.expiresAtMs.any fun expiresAt => expiresAt.le nowMs

def deleteExpired (sessionId : String) (nowMs : JsNumber) : QueueTransaction (List QueueItem) := do
  let expiredItems ← select sessionId (isExpiredRow nowMs)
  deleteRows sessionId (isExpiredRow nowMs)
  return expiredItems

def expired (nowMs : JsNumber) (item : QueueItem) : Bool :=
  item.expiresAt.any fun expiresAt => expiresAt.le nowMs

/-! ## Facts and pauses -/

def executionStateFact (sessionId : String) (paused : Bool) : QueueCommittedFact :=
  .executionStateChanged sessionId paused

def enqueueFact (item : QueueItem) : QueueCommittedFact :=
  .enqueued item.sessionId item.itemId item.source (nonEmptyText item.clientRequestId) item.createdAt

def requeueFact (nowMs : JsNumber) (reason : Option String) (item : QueueItem) :
    QueueCommittedFact :=
  .requeued item.sessionId item.itemId item.source (nonEmptyText item.clientRequestId) nowMs reason

def removalFact (reason : QueueRemovalReason) (nowMs : JsNumber)
    (admissionReason : Option String) (item : QueueItem) : QueueCommittedFact :=
  .removed item.sessionId item.itemId reason nowMs admissionReason

def pause (sessionId : String) : QueueTransaction (Option QueuePause) :=
  Effect.read fun db => db.pauses sessionId

def pendingCount (sessionId : String) : QueueTransaction ℕ :=
  Effect.read fun db => (db.rows sessionId).length

/-- Sets the pause row of a Session. -/
def setPause (sessionId : String) (pause : Option QueuePause) : QueueTransaction Unit :=
  Effect.change fun db => { db with pauses := Function.update db.pauses sessionId pause }

def reconcilePause (sessionId : String) : QueueTransaction Unit := do
  let pending ← pendingCount sessionId
  if 0 < pending then return () else setPause sessionId none

def executionSnapshot (sessionId : String) : QueueTransaction QueueExecutionSnapshot := do
  let pause ← pause sessionId
  let pendingCount ← pendingCount sessionId
  return { pendingCount, pause }

variable {α : Type}

def withPauseRemovalFact (result : CommittedQueueResult α) (sessionId : String) (removed : Bool) :
    CommittedQueueResult α :=
  if !removed || result.facts.contains (executionStateFact sessionId false) then result
  else { result with facts := result.facts ++ [executionStateFact sessionId false] }

def transaction (sessionId : String) (operation : QueueTransaction (CommittedQueueResult α)) :
    QueueTransaction (CommittedQueueResult α) := Effect.atomically do
  let before ← pause sessionId
  let result ← operation
  reconcilePause sessionId
  let after ← pause sessionId
  return withPauseRemovalFact result sessionId (before.isSome && !after.isSome)

variable (env : QueueEnvironment)

def mutationTransaction (sessionId : String)
    (operation : QueueTransaction (CommittedQueueResult α)) :
    QueueTransaction (CommittedQueueResult α) :=
  match env.enqueueAdmission with
  | some rejection => Effect.raise (.enqueueAdmission sessionId rejection)
  | none => transaction sessionId operation

/-- Deletes what expired, with its facts. -/
def expire (sessionId : String) (nowMs : JsNumber) : QueueTransaction (List QueueCommittedFact) := do
  let expiredItems ← deleteExpired sessionId nowMs
  return expiredItems.map (removalFact .expired nowMs none)

/-! ## Reads -/

def snapshot (sessionId : String) :
    QueueTransaction (CommittedQueueResult QueueExecutionSnapshot) := transaction sessionId do
  let facts ← expire sessionId env.nowMs
  reconcilePause sessionId
  let value ← executionSnapshot sessionId
  return { value, facts }

def list (sessionId : String) : QueueTransaction (CommittedQueueResult (List QueueItem)) :=
  transaction sessionId do
    let facts ← expire sessionId env.nowMs
    let value ← rowsByStatus sessionId .queued
    return { value, facts }

def findByClientRequestId (sessionId clientRequestId : String) :
    QueueTransaction (CommittedQueueResult (Option QueueItem)) := transaction sessionId do
  let facts ← expire sessionId env.nowMs
  let value ← findByClientRequest sessionId clientRequestId
  return { value, facts }

def get (sessionId itemId : String) :
    QueueTransaction (CommittedQueueResult (Option QueueItem)) := transaction sessionId do
  let facts ← expire sessionId env.nowMs
  let value ← find sessionId itemId
  return { value, facts }

/-! ## The pause -/

def insertPause (input : QueuePauseInput) : QueueTransaction (List QueueCommittedFact) := do
  let pending ← pendingCount input.sessionId
  let existing ← pause input.sessionId
  if 0 < pending ∧ existing = none then do
    setPause input.sessionId
      (some { cause := input.cause, triggerTurnId := input.triggerTurnId, pausedAtMs := env.nowMs })
    return [executionStateFact input.sessionId true]
  else return []

def pauseIfPending (input : QueuePauseInput) :
    QueueTransaction (CommittedQueueResult QueueExecutionSnapshot) := transaction input.sessionId do
  let facts ← expire input.sessionId env.nowMs
  reconcilePause input.sessionId
  let inserted ← insertPause env input
  let value ← executionSnapshot input.sessionId
  return { value, facts := facts ++ inserted }

def deletePause (sessionId : String) (expectedPause : Option QueuePause) :
    QueueTransaction (List QueueCommittedFact) := do
  let existing ← pause sessionId
  if existing.any fun pause => expectedPause.all (· = pause) then do
    setPause sessionId none
    return [executionStateFact sessionId false]
  else return []

def continueQueue (sessionId : String) (expectedPause : Option QueuePause) :
    QueueTransaction (CommittedQueueResult QueueExecutionSnapshot) := transaction sessionId do
  let facts ← expire sessionId env.nowMs
  reconcilePause sessionId
  let deleted ← deletePause sessionId expectedPause
  let value ← executionSnapshot sessionId
  return { value, facts := facts ++ deleted }

/-! ## Enqueue -/

/-- The place of a queued item among the queued. -/
def enqueueResult (item : QueueItem) : QueueTransaction QueueEnqueueResult :=
  Effect.read fun db =>
    let rows := db.rows item.sessionId
    match rows.findIdx? fun row => row.itemId = item.itemId with
    | some i => if item.status ≠ .queued then { item, position := 1 } else
      { item, position := ((rows.take (i + 1)).filter fun row => row.status = .queued).length }
    | none => { item, position := 1 }

def attachRequestedTurnId (item : QueueItem) (requestedTurnId : Option String) :
    QueueTransaction QueueItem :=
  match nonEmptyText requestedTurnId with
  | none => return item
  | some turnId =>
    if (nonEmptyText item.requestedTurnId).isSome then return item
    else do
      write { item with requestedTurnId := some turnId }
      return { item with requestedTurnId := some turnId }

def replayEnqueue (input : QueueEnqueueInput) (found : QueueItem)
    (expiredFacts : List QueueCommittedFact) :
    QueueTransaction (CommittedQueueResult (Option QueueEnqueueResult)) := do
  let existing ← attachRequestedTurnId found input.requestedTurnId
  if input.front then moveQueuedToFront existing
  let result ← enqueueResult existing
  return { value := some result, facts := expiredFacts }

/-- `member.queueClaim?.itemId ?? member.sourceMessageId`, where it is not empty. -/
def memberItemId (member : JsValue) : Option String :=
  nonEmptyText (((member.get "queueClaim").get "itemId").orElse (member.get "sourceMessageId")).text?

/-- Settles the claim on the item of a member of the batch. -/
def settleBatchMemberClaim (sessionId : String) (nowMs : JsNumber) (member : JsValue) :
    QueueTransaction (List QueueCommittedFact) :=
  match memberItemId member with
  | none => return []
  | some itemId => do
    match ← find sessionId itemId with
    | none => return []
    | some existing =>
      let claim := member.get "queueClaim"
      if !claim.isUndefined && existing.claimId ≠ (claim.get "claimId").text? then return []
      else if existing.status ≠ .claimed then return []
      else if (nonEmptyText existing.userMessageId).any fun id =>
          !(member.get "userMessageId").isText id then
        Effect.raise (.typeError "Immediate-send member claim identity changed")
      else do
        deleteItem existing.sessionId existing.itemId
        return [removalFact .injected nowMs none existing]

def batchMembers (input : QueueEnqueueInput) : List JsValue :=
  match input.immediateSendBatch.get "members" with
  | .array members => members
  | _ => []

def settleBatchMemberClaims (input : QueueEnqueueInput) (nowMs : JsNumber) :
    QueueTransaction (List QueueCommittedFact) := do
  let facts ← Effect.gather (settleBatchMemberClaim input.sessionId nowMs) (batchMembers input)
  return facts.flatten

/-- A requeue may restore its consumed item's identity, never seize live queued work. Answers the id
to restore and the claimed item it displaces. -/
def restorableIdentity (input : QueueEnqueueInput) :
    QueueTransaction (Option (String × Option QueueItem)) :=
  match nonEmptyText input.itemId with
  | none => return none
  | some itemId => do
    match ← find input.sessionId itemId with
    | none => return some (itemId, none)
    | some existing =>
      if existing.status ≠ .claimed then return none
      else do
        deleteItem input.sessionId existing.itemId
        return some (itemId, some existing)

def findReplaced (input : QueueEnqueueInput) : QueueTransaction (Option QueueItem) :=
  match nonEmptyText input.dedupeKey with
  | none => return none
  | some dedupeKey => findByDedupeKey input.sessionId dedupeKey

def writeEnqueued (item : QueueItem) : Option QueueItem → QueueTransaction Unit
  | some replaced => replaceItem replaced item
  | none => write item

def insertEnqueue (input : QueueEnqueueInput) (nowMs : JsNumber)
    (expiredFacts : List QueueCommittedFact) :
    QueueTransaction (CommittedQueueResult (Option QueueEnqueueResult)) := do
  let batchClaims ← settleBatchMemberClaims input nowMs
  let restored ← restorableIdentity input
  let item := input.makeQueued ((restored.map Prod.fst).getD env.newItemId) nowMs
  let replaced ← findReplaced input
  writeEnqueued item replaced
  if input.front then moveQueuedToFront item
  let result ← enqueueResult item
  let displaced := (restored.bind Prod.snd).toList
  return {
    value := some result
    facts := expiredFacts ++ batchClaims ++ displaced.map (removalFact .cancelled nowMs none) ++
      replaced.toList.map (removalFact .cancelled nowMs none) ++ [enqueueFact item] }

/-- The item that has the request of the input. -/
def findReplayed (input : QueueEnqueueInput) : QueueTransaction (Option QueueItem) :=
  match nonEmptyText input.clientRequestId with
  | none => return none
  | some clientRequestId => findByClientRequest input.sessionId clientRequestId

def enqueueInTransaction (input : QueueEnqueueInput) :
    QueueTransaction (CommittedQueueResult (Option QueueEnqueueResult)) := do
  let expiredFacts ← expire input.sessionId env.nowMs
  if input.expiresAt.any fun expiresAt => expiresAt.le env.nowMs then
    return { value := none, facts := expiredFacts }
  else do
    let claimed ← hasClaimed input.sessionId
    -- A requeue that restores an identity does not bounce off a claimed row.
    if input.front && (nonEmptyText input.itemId).isNone && claimed then
      return { value := none, facts := expiredFacts }
    else do
      match ← findReplayed input with
      | some found => replayEnqueue input found expiredFacts
      | none => insertEnqueue env input env.nowMs expiredFacts

def enqueue (input : QueueEnqueueInput) :
    QueueTransaction (CommittedQueueResult (Option QueueEnqueueResult)) :=
  if input.valid then mutationTransaction env input.sessionId (enqueueInTransaction env input)
  else return { value := none, facts := [] }

end QueueRepository

end Kinetick
