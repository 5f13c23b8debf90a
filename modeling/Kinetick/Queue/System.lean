import Kinetick.Machine
import Kinetick.Queue.Claims
import Kinetick.Queue.Edits

/-!
# Runs of the Queue repositories

Every operation of the repository as one event. The repositories that share a database differ in
what they meet, so an event carries it; each operation is one transaction, so a run is a sequence.
-/

namespace Kinetick

inductive QueueOperation
  | snapshot (sessionId : String)
  | pauseIfPending (input : QueuePauseInput)
  | continueQueue (sessionId : String) (expectedPause : Option QueuePause)
  | list (sessionId : String)
  | findByClientRequestId (sessionId clientRequestId : String)
  | get (sessionId itemId : String)
  | enqueue (input : QueueEnqueueInput)
  | updateQueued (input : QueueUpdateInput)
  | cancel (sessionId itemId : String)
  | clearUserManageable (sessionId : String)
  | promoteQueuedSource (sessionId itemId : String) (source : QueueMessageSource)
  | reorder (sessionId : String) (itemIds : List String)
  | claimNext (input : QueueClaimInput)
  | prepareDelivery (sessionId claimId turnId : String)
  | acknowledgeClaim (sessionId claimId : String) (turnId : Option String)
      (isAccepted : Option (QueueClaimAcceptanceQuery → Bool))
  | releaseClaim (sessionId claimId : String) (reason : Option String)
  | rejectClaim (sessionId claimId reason : String)
  | cancelClaim (sessionId claimId : String)
  | consumeClaim (sessionId claimId : String) (reason : QueueClaimConsumeReason)
  | recoverClaims (sessionId : String) (isAccepted : QueueClaimAcceptanceQuery → Bool)
      (scope : QueueClaimRecoveryScope)
  | drainComposerInjectable (sessionId : String)
  | replaceSession (sessionId : String) (items : List QueueItem)
  | deleteSession (sessionId : String)

namespace QueueOperation

/-- The Session an operation is about. -/
def sessionId : QueueOperation → String
  | snapshot s => s
  | pauseIfPending input => input.sessionId
  | continueQueue s _ => s
  | list s => s
  | findByClientRequestId s _ => s
  | get s _ => s
  | enqueue input => input.sessionId
  | updateQueued input => input.sessionId
  | cancel s _ => s
  | clearUserManageable s => s
  | promoteQueuedSource s _ _ => s
  | reorder s _ => s
  | claimNext input => input.sessionId
  | prepareDelivery s _ _ => s
  | acknowledgeClaim s _ _ _ => s
  | releaseClaim s _ _ => s
  | rejectClaim s _ _ => s
  | cancelClaim s _ => s
  | consumeClaim s _ _ => s
  | recoverClaims s _ _ => s
  | drainComposerInjectable s => s
  | replaceSession s _ => s
  | deleteSession s => s

def isReplaceSession : QueueOperation → Bool
  | replaceSession _ _ => true
  | _ => false

/-- The facts of a committed operation. -/
def facts {α : Type} (m : QueueTransaction (CommittedQueueResult α)) :
    QueueTransaction (List QueueCommittedFact) := do
  let result ← m
  return result.facts

open QueueRepository in
/-- Performs an operation and answers the facts it returns. -/
def perform (env : QueueEnvironment) : QueueOperation → QueueTransaction (List QueueCommittedFact)
  | snapshot s => facts (QueueRepository.snapshot env s)
  | pauseIfPending input => facts (QueueRepository.pauseIfPending env input)
  | continueQueue s expectedPause => facts (QueueRepository.continueQueue env s expectedPause)
  | list s => facts (QueueRepository.list env s)
  | findByClientRequestId s request => facts (QueueRepository.findByClientRequestId env s request)
  | get s itemId => facts (QueueRepository.get env s itemId)
  | enqueue input => facts (QueueRepository.enqueue env input)
  | updateQueued input => facts (QueueRepository.updateQueued env input)
  | cancel s itemId => facts (QueueRepository.cancel env s itemId)
  | clearUserManageable s => facts (QueueRepository.clearUserManageable env s)
  | promoteQueuedSource s itemId source =>
    facts (QueueRepository.promoteQueuedSource env s itemId source)
  | reorder s itemIds => facts (QueueRepository.reorder env s itemIds)
  | claimNext input => facts (QueueRepository.claimNext env input)
  | prepareDelivery s claimId turnId => do
    QueueRepository.prepareDelivery s claimId turnId
    return []
  | acknowledgeClaim s claimId turnId isAccepted =>
    facts (QueueRepository.acknowledgeClaim env s claimId turnId isAccepted)
  | releaseClaim s claimId reason => facts (QueueRepository.releaseClaim env s claimId reason)
  | rejectClaim s claimId reason => facts (QueueRepository.rejectClaim env s claimId reason)
  | cancelClaim s claimId => facts (QueueRepository.cancelClaim env s claimId)
  | consumeClaim s claimId reason => facts (QueueRepository.consumeClaim env s claimId reason)
  | recoverClaims s isAccepted scope => facts (QueueRepository.recoverClaims env s isAccepted scope)
  | drainComposerInjectable s => facts (QueueRepository.drainComposerInjectable env s)
  | replaceSession s items => facts (QueueRepository.replaceSession s items)
  | deleteSession s => facts (QueueRepository.deleteSession env s)

end QueueOperation

/-- The repositories over one database: an event is an operation with what its repository meets. -/
def queueSystem : Machine QueueDb (QueueEnvironment × QueueOperation)
    (Except QueueError (List QueueCommittedFact)) where
  initial := QueueDb.empty
  step db event := ((event.2.perform event.1 db).2, (event.2.perform event.1 db).1)

end Kinetick

/-!
## What an operation writes and the read side takes

The write side checks an input where it takes it, the read side checks a row where it reads it. An
operation is kept when what it writes of its input passes the check of the read side, and JSON keeps
it.
-/

namespace Kinetick

open QueueRepository JsValue

/-- The row decodes, and its text parses to the value it was written from, less what is undefined. -/
def QueueRow.ReadsBack (row : QueueRow) : Prop :=
  (∃ item, decodeQueueRow row = .ok item) ∧
    row.dataJson.parse = row.dataJson.stringified.dropUndefined

/-! ## When an operation writes its input -/

/-- The enqueue writes a new item: it is taken, and finds no item of its request. -/
structure QueueEnqueueInput.Inserts (env : QueueEnvironment) (db : QueueDb)
    (input : QueueEnqueueInput) : Prop where
  valid : input.valid = true
  live : (input.expiresAt.any fun expiresAt => expiresAt.le env.nowMs) = false
  placed : ¬ (input.front = true ∧ nonEmptyText input.itemId = none ∧
    ∃ row ∈ db.rows input.sessionId, row.status = .claimed)
  request : ∀ request, nonEmptyText input.clientRequestId = some request →
    ∀ row ∈ db.rows input.sessionId, row.clientRequestId = some request →
      isExpiredRow env.nowMs row = true

/-- The update writes a queued item. -/
structure QueueUpdateInput.Edits (env : QueueEnvironment) (db : QueueDb)
    (input : QueueUpdateInput) : Prop where
  valid : input.valid = true
  live : (input.expiresAt.any fun expiresAt => expiresAt.le env.nowMs) = false
  editable : ∃ row ∈ db.rows input.sessionId, row.itemId = input.itemId ∧ row.status = .queued ∧
    isExpiredRow env.nowMs row = false ∧
    ∃ item, decodeQueueRow row = .ok item ∧ item.source = .api

namespace QueueClaimInput

variable (env : QueueEnvironment) (input : QueueClaimInput)

/-- The time of the claim. -/
def claimedAt : JsNumber := input.nowMs.getD env.nowMs

/-- The row is of an item the claim may take: the one it names, or any it does not exclude. -/
def takes (row : QueueRow) : Bool :=
  match nonEmptyText input.itemId with
  | some itemId => row.itemId = itemId
  | none => !input.excludeItemIds.contains row.itemId

/-- The claim takes an item. -/
structure Claims (db : QueueDb) : Prop where
  running : nonEmptyText input.itemId = none → input.continuePaused = false →
    db.pauses input.sessionId = none
  free : ∀ row ∈ db.rows input.sessionId, row.status = .queued
  candidate : ∃ row, ((db.rows input.sessionId).filter fun row =>
      !isExpiredRow (input.claimedAt env) row).find? input.takes = some row ∧
    ∃ item, decodeQueueRow row = .ok item ∧
      input.allowedSources.all fun sources => sources.contains item.source

end QueueClaimInput

/-! ## Inputs the read side takes -/

/-- The read side takes the model, and JSON keeps it. -/
def ModelKept (model : JsValue) : Prop :=
  model.truthy = true → QueueCodec.isModel model = true ∧ model.JsonSafe

/-- What an enqueue does not check of its input. -/
structure QueueEnqueueInput.Kept (input : QueueEnqueueInput) : Prop where
  model : ModelKept input.model
  userMessageId : ∀ id ∈ nonEmptyText input.userMessageId, QueueCodec.userMessageIdText id = true
  message : input.message.JsonSafe
  batch : input.immediateSendBatch.JsonSafe

/-- What an update does not check of its input. -/
structure QueueUpdateInput.Kept (input : QueueUpdateInput) : Prop where
  model : ModelKept input.model
  message : input.message.JsonSafe

/-- The attempt to deliver the items of the claim as the Turn is new where it is noted: the claim is
named, and none of the attempts before was this Turn's. -/
def DeliveryKept (db : QueueDb) (s claimId turnId : String) : Prop :=
  ∀ row ∈ db.rows s, row.status = .claimed → row.claimId = some claimId →
    ∀ item, decodeQueueRow row = .ok item →
      (∀ attempt ∈ item.deliveryAttempts.getD [], attempt.claimId ≠ claimId) →
        claimId ≠ "" ∧ ∀ attempt ∈ item.deliveryAttempts.getD [], attempt.turnId ≠ turnId

/-- An object has one field of a name. -/
def JsValue.DistinctNames : JsValue → Prop
  | .object fields => (fields.map Prod.fst).Nodup
  | _ => True

/-- The message that is to take the place of another is an object as the language has them. -/
def QueueOperation.Proper : QueueOperation → Prop
  | updateQueued input => input.message.DistinctNames
  | _ => True

/-- Where the operation writes its input, the read side takes it. -/
def QueueOperation.Kept (env : QueueEnvironment) (db : QueueDb) : QueueOperation → Prop
  | enqueue input => input.Inserts env db → input.Kept
  | updateQueued input => input.Edits env db → input.Kept
  | claimNext input => input.Claims env db → (input.claimedAt env).isFinite = true
  | prepareDelivery s claimId turnId => DeliveryKept db s claimId turnId
  | replaceSession _ items => ∀ item ∈ items, item.toJs.JsonSafe
  | _ => True

end Kinetick
