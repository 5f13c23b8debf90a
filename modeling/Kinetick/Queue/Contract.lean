import Kinetick.Js
import Kinetick.Queue.Pause

/-!
# The contract of the Queue repository

A queued item as the repository reads and writes it, the inputs of its operations, what they answer
and the facts they commit. The parts of an item that the repository only carries (its message, the
context of its channel, its model, the batch it was sent with) are plain values, `undefined` where
they are absent.
-/

namespace Kinetick

/-- Producers of Queue work. -/
inductive QueueMessageSource
  | api
  | cron
  | task
  | backgroundTask
  | team
  | threadGoal
  | questionnaire
  | communication
  | codeReview
  | greeting
  | channelWechat
  | channelFeishu
  | channelTelegram
deriving DecidableEq, Repr

namespace QueueMessageSource

def text : QueueMessageSource → String
  | api => "api"
  | cron => "cron"
  | task => "task"
  | backgroundTask => "background-task"
  | team => "team"
  | threadGoal => "thread-goal"
  | questionnaire => "questionnaire"
  | communication => "communication"
  | codeReview => "code_review"
  | greeting => "greeting"
  | channelWechat => "channel:wechat"
  | channelFeishu => "channel:feishu"
  | channelTelegram => "channel:telegram"

/-- `SOURCES` -/
def all : List QueueMessageSource :=
  [api, cron, task, backgroundTask, team, threadGoal, questionnaire, communication, codeReview,
    greeting, channelWechat, channelFeishu, channelTelegram]

def ofText? (text : String) : Option QueueMessageSource := all.find? fun source => source.text = text

@[simp] theorem ofText?_text (source : QueueMessageSource) : ofText? source.text = some source := by
  cases source <;> decide

end QueueMessageSource

inductive QueueItemStatus
  | queued
  | claimed
deriving DecidableEq

def QueueItemStatus.text : QueueItemStatus → String
  | queued => "queued"
  | claimed => "claimed"

/-- A startup attempt whose Host fence was never released. -/
structure QueueDeliveryAttempt where
  claimId : String
  turnId : String
deriving DecidableEq

structure QueueItem where
  deliveryAttempts : Option (List QueueDeliveryAttempt)
  immediateSendBatch : JsValue
  itemId : String
  userMessageId : Option String
  requestedTurnId : Option String
  sessionId : String
  agentName : String
  source : QueueMessageSource
  status : QueueItemStatus
  message : JsValue
  channelContext : JsValue
  model : JsValue
  createdAt : JsNumber
  clientRequestId : Option String
  dedupeKey : Option String
  expiresAt : Option JsNumber
  claimId : Option String
  claimedAt : Option JsNumber
  claimOwnerId : Option String
  claimLeaseExpiresAt : Option JsNumber

structure QueueEnqueueInput where
  immediateSendBatch : JsValue
  createdAt : Option JsNumber
  sessionId : String
  agentName : String
  itemId : Option String
  userMessageId : Option String
  requestedTurnId : Option String
  message : JsValue
  source : Option QueueMessageSource
  /-- `queuePlacement`, which is `front` or absent. -/
  front : Bool
  model : JsValue
  clientRequestId : Option String
  dedupeKey : Option String
  expiresAt : Option JsNumber

structure QueueUpdateInput where
  sessionId : String
  itemId : String
  message : JsValue
  model : JsValue
  expiresAt : Option JsNumber

structure QueuePauseInput where
  sessionId : String
  cause : QueuePauseCause
  triggerTurnId : String

structure QueueClaimInput where
  sessionId : String
  itemId : Option String
  continuePaused : Bool
  excludeItemIds : List String
  allowedSources : Option (List QueueMessageSource)
  nowMs : Option JsNumber

structure QueueExecutionSnapshot where
  pendingCount : ℕ
  pause : Option QueuePause

inductive QueueEnqueueAdmissionRejection
  | sessionNotFound
  | maintenanceActive
deriving DecidableEq

structure QueueEnqueueResult where
  item : QueueItem
  position : ℕ

inductive QueueRemovalReason
  | cancelled
  | expired
  | accepted
  | injected
  | composerTransferred
  | admissionRejected
deriving DecidableEq

inductive QueueClaimConsumeReason
  | accepted
  | injected
deriving DecidableEq

def QueueClaimConsumeReason.removal : QueueClaimConsumeReason → QueueRemovalReason
  | accepted => .accepted
  | injected => .injected

/-- The facts of a committed operation. -/
inductive QueueCommittedFact
  | enqueued (sessionId itemId : String) (source : QueueMessageSource)
      (clientRequestId : Option String) (enqueuedAtMs : JsNumber)
  | requeued (sessionId itemId : String) (source : QueueMessageSource)
      (clientRequestId : Option String) (requeuedAtMs : JsNumber) (admissionReason : Option String)
  | removed (sessionId itemId : String) (reason : QueueRemovalReason) (removedAtMs : JsNumber)
      (admissionReason : Option String)
  | executionStateChanged (sessionId : String) (paused : Bool)
deriving DecidableEq

structure CommittedQueueResult (α : Type) where
  value : α
  facts : List QueueCommittedFact

/-- What an update or a cancellation of an item answers. -/
inductive QueueEdit
  | invalid
  | notEditable
  | missing
  | item (item : QueueItem)

inductive QueueClaimSelection
  | fifo
  | exact
  | continuedFifo
deriving DecidableEq

structure QueueRoutingProvenance where
  source : QueueMessageSource
  routingFingerprint : JsValue
  sourceContext : JsValue

structure QueueDispatchItem where
  claimId : String
  sessionId : String
  source : QueueMessageSource
  claimOwnerId : String
  claimLeaseExpiresAt : JsNumber
  selection : QueueClaimSelection
  item : QueueItem
  message : JsValue
  clientRequestId : Option String
  provenance : QueueRoutingProvenance

/-- What a Queue claim asks of the ingress rows. -/
structure QueueClaimAcceptanceQuery where
  sessionId : String
  claimId : String
  source : QueueMessageSource
  queueItemIds : List String
  turnId : Option String
deriving DecidableEq, Repr

structure QueueClaimRecoveryResult where
  acknowledged : List QueueItem
  released : List QueueItem

structure QueueClaimRecoveryScope where
  claimedAtOrBeforeMs : Option JsNumber

/-- What an operation of the repository throws. -/
inductive QueueError
  | dataCorruption (sessionId itemId : String)
  | claimNotFound (sessionId claimId : String)
  | claimNotAccepted (sessionId claimId : String) (turnId : Option String)
  | enqueueAdmission (sessionId : String) (reason : QueueEnqueueAdmissionRejection)
  | typeError (message : String)
  | error (message : String)
  /-- The unique index on the session and the item was violated. -/
  | uniqueViolation
deriving DecidableEq

end Kinetick
