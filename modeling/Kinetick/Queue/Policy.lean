import Kinetick.Queue.Codec

/-!
# The policy of the Queue repository

What an enqueue or an update may carry, the item an enqueue makes, and the routing of an item.
-/

namespace Kinetick

open QueueCodec

/-- `text ? { [key]: text } : {}` -/
def nonEmptyText (text : Option String) : Option String := text.filter (· ≠ "")

/-- `value ? { [key]: value } : {}` -/
def JsValue.orAbsent (v : JsValue) : JsValue := if v.truthy then v else .undefined

def emptyMessage (message : JsValue) : Bool :=
  (message.get "content").isText "" && match message.get "attachments" with
    | .array elements => elements.isEmpty
    | _ => false

namespace QueueEnqueueInput

variable (input : QueueEnqueueInput)

def validMetadata : Bool :=
  optionalRecord input.immediateSendBatch isQueueImmediateSendBatch &&
    input.createdAt.all JsNumber.isFinite && input.expiresAt.all JsNumber.isFinite

/-- `validEnqueue`. The source and the placement are of their types. -/
def valid : Bool :=
  input.sessionId ≠ "" && input.agentName ≠ "" && isQueueMessageInput input.message &&
    !emptyMessage input.message && input.validMetadata

/-- `makeQueued` -/
def makeQueued (itemId : String) (nowMs : JsNumber) : QueueItem where
  deliveryAttempts := none
  immediateSendBatch := input.immediateSendBatch
  itemId := itemId
  userMessageId := nonEmptyText input.userMessageId
  requestedTurnId := nonEmptyText input.requestedTurnId
  sessionId := input.sessionId
  agentName := input.agentName
  source := input.source.getD .api
  status := .queued
  message := input.message
  channelContext := (input.message.get "channelContext").orAbsent
  model := input.model.orAbsent
  createdAt := input.createdAt.getD nowMs
  clientRequestId := nonEmptyText input.clientRequestId
  dedupeKey := nonEmptyText input.dedupeKey
  expiresAt := input.expiresAt
  claimId := none
  claimedAt := none
  claimOwnerId := none
  claimLeaseExpiresAt := none

end QueueEnqueueInput

/-- `validUpdate` -/
def QueueUpdateInput.valid (input : QueueUpdateInput) : Bool :=
  input.sessionId ≠ "" && input.itemId ≠ "" &&
    (!input.message.isUndefined || !input.model.isUndefined || input.expiresAt.isSome) &&
    (input.message.isUndefined || isQueueMessageInput input.message && !emptyMessage input.message) &&
    input.expiresAt.all JsNumber.isFinite

def completePermutation (items : List QueueItem) (ids : List String) : Bool :=
  ids ≠ [] && items.length = ids.length && ids.Nodup &&
    ids.all fun id => items.any fun item => item.itemId = id

/-! ## Routing -/

/-- Missing values and blank ones are `null`. -/
def normalizeRoutingValue : JsValue → JsValue
  | .string s => if jsTrim s = "" then .null else .string (jsTrim s)
  | _ => .null

def readRoutingValue (context : JsValue) (keys : List String) : JsValue :=
  keys.foldl (fun value key => value.orElse (normalizeRoutingValue (context.get key))) .null

namespace QueueItem

variable (item : QueueItem)

/-- `queueExecutionSource` -/
def executionSource : QueueMessageSource :=
  if (item.message.get "source").isText "code_review" then .codeReview else item.source

def routingContext : JsValue :=
  let channelContext := (item.message.get "channelContext").orElse item.channelContext
  if (item.message.get "clientIntent").isText "cloud-handoff" then
    channelContext.set "cloudHandoff" (.object [("trigger", .string "slash")])
  else if item.executionSource ≠ .codeReview then channelContext
  else channelContext.set "review"
    (.object [("trigger", .string "slash"), ("scope", .string "local_changes")])

/-- `queueRoutingFingerprint`, by the fields its text is the JSON of. -/
def routingFingerprint : JsValue :=
  let context := item.routingContext
  .array <| [
    ("source", normalizeRoutingValue (.string item.executionSource.text)),
    ("platform", readRoutingValue context ["platform"]),
    ("client", readRoutingValue context ["clientName", "client_name", "client"]),
    ("agent", normalizeRoutingValue (.string item.agentName)),
    ("agentBinding", readRoutingValue context ["agentName", "agent_name", "agentId", "agent_id"]),
    ("binding", readRoutingValue context ["bindingId", "binding_id"]),
    ("channel", readRoutingValue context ["channel"]),
    ("channelId", readRoutingValue context ["channel_id", "channelId"]),
    ("thread", readRoutingValue context ["threadId", "thread_id"]),
    ("chat", readRoutingValue context ["chatId", "chat_id"]),
    ("scope", readRoutingValue context ["scope", "scopeId", "scope_id"]),
    ("chatType", readRoutingValue context ["chatType", "chat_type"]),
    ("sender", readRoutingValue context ["senderId", "sender_id"])].map
      fun field => .array [.string field.1, field.2]

/-- `queueRoutingProvenance` -/
def routingProvenance : QueueRoutingProvenance where
  source := item.executionSource
  routingFingerprint := item.routingFingerprint
  sourceContext := item.routingContext.orAbsent

end QueueItem

end Kinetick
