import Kinetick.Queue.Contract

/-!
# The codec of queue rows

A row holds its item as JSON text, checked when it is read. The checks are over plain values, since
the text may hold anything.
-/

namespace Kinetick

/-- A row of `local_runtime_queue_items`, less the columns no operation reads. -/
structure QueueRow where
  sessionId : String
  itemId : String
  status : QueueItemStatus
  createdAtMs : JsNumber
  dataJson : JsonText
  source : QueueMessageSource
  clientRequestId : Option String
  dedupeKey : Option String
  expiresAtMs : Option JsNumber
  claimId : Option String

namespace QueueCodec

open JsValue

/-! ## Checks of single fields -/

def record : JsValue → Bool
  | object _ => true
  | _ => false

def asString : JsValue → String
  | string s => s
  | _ => ""

def isString : JsValue → Bool
  | string _ => true
  | _ => false

def isBoolean : JsValue → Bool
  | boolean _ => true
  | _ => false

def nonEmpty : JsValue → Bool
  | string s => s ≠ ""
  | _ => false

def finite : JsValue → Bool
  | number n => n.isFinite
  | _ => false

def optionalString (v : JsValue) : Bool := v.isUndefined || isString v

def optionalBoolean (v : JsValue) : Bool := v.isUndefined || isBoolean v

def optionalFinite (v : JsValue) : Bool := v.isUndefined || finite v

/-- `Array.isArray(v) && v.every(validate)` -/
def every (validate : JsValue → Bool) : JsValue → Bool
  | array elements => elements.all validate
  | _ => false

def optionalArray (v : JsValue) (validate : JsValue → Bool) : Bool :=
  v.isUndefined || every validate v

def optionalRecord (v : JsValue) (validate : JsValue → Bool) : Bool := v.isUndefined || validate v

/-- `String(v) === text`, for a `text` that only strings and arrays of one are written as. -/
def stringIs (text : String) : JsValue → Bool
  | string s => s = text
  | array [v] => stringIs text v
  | _ => false

/-! ## User message ids -/

def wordCharacter (c : Char) : Bool :=
  ('A' ≤ c && c ≤ 'Z') || ('a' ≤ c && c ≤ 'z') || ('0' ≤ c && c ≤ '9') || c = '_' || c = '-'

/-- `/^msg-user-v1-[A-Za-z0-9_-]+$/` -/
def userMessageIdText (text : String) : Bool :=
  "msg-user-v1-".toList.isPrefixOf text.toList && 12 < text.toList.length &&
    (text.toList.drop 12).all wordCharacter

def isUserMessageId : JsValue → Bool
  | string s => userMessageIdText s
  | _ => false

/-! ## The message -/

def hexDigit (c : Char) : Bool := ('a' ≤ c && c ≤ 'f') || ('0' ≤ c && c ≤ '9')

/-- `/^sha256:[a-f0-9]{64}$/` -/
def digestText (text : String) : Bool :=
  "sha256:".toList.isPrefixOf text.toList && text.toList.length = 71 &&
    (text.toList.drop 7).all hexDigit

/-- `Object.keys(v).every(key => keys.includes(key))` -/
def onlyKeys (keys : List String) : JsValue → Bool
  | object fields => fields.all fun field => keys.contains field.1
  | _ => false

def isInputSafetyDecision (v : JsValue) : Bool :=
  record v && isString (v.get "inputDigest") && digestText (asString (v.get "inputDigest")) &&
    ((v.get "outcome").isText "approved" || (v.get "outcome").isText "degraded") &&
    onlyKeys ["inputDigest", "outcome"] v

def isAttachment (v : JsValue) : Bool :=
  record v && ((v.get "type").isText "file" || (v.get "type").isText "image") &&
    isString (v.get "filePath") && isString (v.get "fileName") && isString (v.get "mimeType") &&
    [v.get "dataUrl", v.get "assetId", v.get "error"].all optionalString

def isQuoted (v : JsValue) : Bool :=
  record v && isString (v.get "text") && optionalString (v.get "senderName")

def isChannelContext (v : JsValue) : Bool :=
  record v && ["platform", "chatType", "chatId", "senderId", "clientName"].all fun key =>
    isString (v.get key)

def hasValidAttachmentsAndSafety (v : JsValue) : Bool :=
  every isAttachment (v.get "attachments") &&
    optionalRecord (v.get "inputSafetyDecision") isInputSafetyDecision

def validMessageOptionals (v : JsValue) : Bool :=
  optionalBoolean (v.get "hideUserMessage") &&
    [v.get "displayContent", v.get "queueItemId", v.get "source", v.get "clientIntent"].all
      optionalString

/-- `hasQueueMessageShape`, the array of attachments checked with its elements. -/
def isQueueMessageInput (v : JsValue) : Bool :=
  record v && isString (v.get "content") && hasValidAttachmentsAndSafety v &&
    optionalArray (v.get "displayAttachments") record && validMessageOptionals v &&
    optionalRecord (v.get "quotedMessage") isQuoted &&
    optionalRecord (v.get "channelContext") isChannelContext

/-! ## The model -/

/-- `Number.isSafeInteger(v) && 0 < v && v <= 2147483647` -/
def isModelLimit : JsValue → Bool
  | number (.finite q) => q.den = 1 && 0 < q.num && q.num ≤ 2147483647
  | _ => false

def isModelContext (v : JsValue) : Bool := v.isUndefined || isModelLimit v

def isProvenance (v : JsValue) : Bool :=
  stringIs "default" v || stringIs "selection" v || stringIs "legacy" v

def isParameterSnapshot (v : JsValue) : Bool :=
  v.isUndefined || record v && isProvenance (v.get "context") && isProvenance (v.get "effort")

def isModelThinking (v : JsValue) : Bool := record v && optionalString (v.get "effort")

def isModel (v : JsValue) : Bool :=
  record v && optionalString (v.get "provider_id") && optionalString (v.get "model_id") &&
    optionalString (v.get "variant") && optionalBoolean (v.get "reasoning") &&
    isModelContext (v.get "context_limit") && isParameterSnapshot (v.get "parameterSnapshot") &&
    optionalRecord (v.get "thinking") isModelThinking

/-! ## The batch -/

def isQueueMessageSource : JsValue → Bool
  | string s => (QueueMessageSource.ofText? s).isSome
  | _ => false

def validUnconsumedTurnIds (v : JsValue) : Bool :=
  match v with
  | undefined => true
  | array elements => elements ≠ [] && elements.all nonEmpty && (elements.map asString).Nodup
  | _ => false

def validBatchProvenance (v : JsValue) : Bool :=
  record v && isQueueMessageSource (v.get "source") && nonEmpty (v.get "routingFingerprint") &&
    optionalRecord (v.get "sourceContext") record

def isMemberClaim (v : JsValue) : Bool :=
  record v && nonEmpty (v.get "itemId") && nonEmpty (v.get "claimId")

def validImmediateSendMember (v : JsValue) : Bool :=
  isQueueMessageInput (v.get "message") && nonEmpty (v.get "messageKey") &&
    optionalRecord (v.get "queueClaim") isMemberClaim && finite (v.get "createdAt") &&
    validUnconsumedTurnIds (v.get "unconsumedFromTurnIds") &&
    validUnconsumedTurnIds (v.get "unstartedFromTurnIds") &&
    optionalString (v.get "sourceMessageId") && optionalRecord (v.get "model") isModel &&
    validBatchProvenance (v.get "provenance")

/-- The members, with the ids of those before them. -/
def validMembers : List JsValue → (ids : List String) → Bool
  | [], _ => true
  | member :: members, ids =>
    record member && isUserMessageId (member.get "userMessageId") &&
      !ids.contains (asString (member.get "userMessageId")) && validImmediateSendMember member &&
      validMembers members (asString (member.get "userMessageId") :: ids)

def isQueueImmediateSendBatch (v : JsValue) : Bool :=
  record v && nonEmpty (v.get "id") &&
    match v.get "members" with
    | array members => members ≠ [] && validMembers members []
    | _ => false

/-! ## The item -/

/-- The attempts, with the claims and the Turns of those before them. -/
def validAttempts : List JsValue → (claims turns : List String) → Bool
  | [], _, _ => true
  | attempt :: attempts, claims, turns =>
    record attempt && nonEmpty (attempt.get "claimId") && nonEmpty (attempt.get "turnId") &&
      !claims.contains (asString (attempt.get "claimId")) &&
      !turns.contains (asString (attempt.get "turnId")) &&
      validAttempts attempts (asString (attempt.get "claimId") :: claims)
        (asString (attempt.get "turnId") :: turns)

def validDeliveryAttempts (v : JsValue) : Bool :=
  match v with
  | undefined => true
  | array attempts => attempts ≠ [] && validAttempts attempts [] []
  | _ => false

def hasIdentity (v : JsValue) : Bool :=
  nonEmpty (v.get "itemId") && nonEmpty (v.get "sessionId") && nonEmpty (v.get "agentName") &&
    isQueueMessageSource (v.get "source") &&
    ((v.get "status").isText "queued" || (v.get "status").isText "claimed") &&
    isQueueMessageInput (v.get "message") && finite (v.get "createdAt")

def hasOptionalMetadata (v : JsValue) : Bool :=
  [v.get "requestedTurnId", v.get "clientRequestId", v.get "dedupeKey"].all optionalString &&
    optionalRecord (v.get "userMessageId") isUserMessageId && optionalFinite (v.get "expiresAt") &&
    optionalRecord (v.get "channelContext") isChannelContext &&
    optionalRecord (v.get "model") isModel &&
    optionalRecord (v.get "immediateSendBatch") isQueueImmediateSendBatch &&
    validDeliveryAttempts (v.get "deliveryAttempts")

def claimFieldsAbsent (v : JsValue) : Bool :=
  (v.get "claimId").isUndefined && (v.get "claimedAt").isUndefined &&
    (v.get "claimOwnerId").isUndefined && (v.get "claimLeaseExpiresAt").isUndefined

def isQueueItem (v : JsValue) : Bool :=
  record v && hasIdentity v && hasOptionalMetadata v &&
    if (v.get "status").isText "queued" then claimFieldsAbsent v
    else (v.get "status").isText "claimed" && nonEmpty (v.get "claimId") &&
      finite (v.get "claimedAt") && optionalString (v.get "claimOwnerId") &&
      optionalFinite (v.get "claimLeaseExpiresAt")

end QueueCodec

/-! ## Reading and writing items -/

def JsValue.ofText : Option String → JsValue
  | none => .undefined
  | some s => .string s

def JsValue.ofNumber : Option JsNumber → JsValue
  | none => .undefined
  | some n => .number n

def JsValue.text? : JsValue → Option String
  | .string s => some s
  | _ => none

def JsValue.number? : JsValue → Option JsNumber
  | .number n => some n
  | _ => none

def QueueDeliveryAttempt.toJs (attempt : QueueDeliveryAttempt) : JsValue :=
  .object [("claimId", .string attempt.claimId), ("turnId", .string attempt.turnId)]

def QueueDeliveryAttempt.ofJs (v : JsValue) : QueueDeliveryAttempt where
  claimId := QueueCodec.asString (v.get "claimId")
  turnId := QueueCodec.asString (v.get "turnId")

def JsValue.ofAttempts : Option (List QueueDeliveryAttempt) → JsValue
  | none => .undefined
  | some attempts => .array (attempts.map QueueDeliveryAttempt.toJs)

def JsValue.attempts? : JsValue → Option (List QueueDeliveryAttempt)
  | .array attempts => some (attempts.map QueueDeliveryAttempt.ofJs)
  | _ => none

namespace QueueItem

variable (item : QueueItem)

def fields : List (String × JsValue) := [
  ("deliveryAttempts", .ofAttempts item.deliveryAttempts),
  ("immediateSendBatch", item.immediateSendBatch),
  ("itemId", .string item.itemId),
  ("userMessageId", .ofText item.userMessageId),
  ("requestedTurnId", .ofText item.requestedTurnId),
  ("sessionId", .string item.sessionId),
  ("agentName", .string item.agentName),
  ("source", .string item.source.text),
  ("status", .string item.status.text),
  ("message", item.message),
  ("channelContext", item.channelContext),
  ("model", item.model),
  ("createdAt", .number item.createdAt),
  ("clientRequestId", .ofText item.clientRequestId),
  ("dedupeKey", .ofText item.dedupeKey),
  ("expiresAt", .ofNumber item.expiresAt),
  ("claimId", .ofText item.claimId),
  ("claimedAt", .ofNumber item.claimedAt),
  ("claimOwnerId", .ofText item.claimOwnerId),
  ("claimLeaseExpiresAt", .ofNumber item.claimLeaseExpiresAt)]

def toJs : JsValue := .object item.fields

/-- The item a value is, where it is one. -/
def ofJs (v : JsValue) : QueueItem where
  deliveryAttempts := (v.get "deliveryAttempts").attempts?
  immediateSendBatch := v.get "immediateSendBatch"
  itemId := QueueCodec.asString (v.get "itemId")
  userMessageId := (v.get "userMessageId").text?
  requestedTurnId := (v.get "requestedTurnId").text?
  sessionId := QueueCodec.asString (v.get "sessionId")
  agentName := QueueCodec.asString (v.get "agentName")
  source := (QueueMessageSource.ofText? (QueueCodec.asString (v.get "source"))).getD .api
  status := if (v.get "status").isText "queued" then .queued else .claimed
  message := v.get "message"
  channelContext := v.get "channelContext"
  model := v.get "model"
  createdAt := ((v.get "createdAt").number?).getD .nan
  clientRequestId := (v.get "clientRequestId").text?
  dedupeKey := (v.get "dedupeKey").text?
  expiresAt := (v.get "expiresAt").number?
  claimId := (v.get "claimId").text?
  claimedAt := (v.get "claimedAt").number?
  claimOwnerId := (v.get "claimOwnerId").text?
  claimLeaseExpiresAt := (v.get "claimLeaseExpiresAt").number?

end QueueItem

def encodeQueueItem (item : QueueItem) : JsonText := ⟨item.toJs⟩

def parseQueueItem (raw : JsonText) : Option QueueItem :=
  if QueueCodec.isQueueItem raw.parse then some (QueueItem.ofJs raw.parse) else none

def decodeQueueRow (row : QueueRow) : Except QueueError QueueItem :=
  match parseQueueItem row.dataJson with
  | some item =>
    if item.sessionId = row.sessionId ∧ item.itemId = row.itemId ∧ item.status = row.status ∧
        item.createdAt = row.createdAtMs then .ok item
    else .error (.dataCorruption row.sessionId row.itemId)
  | none => .error (.dataCorruption row.sessionId row.itemId)

/-- `storage` -/
def QueueItem.storage (item : QueueItem) : QueueRow where
  sessionId := item.sessionId
  itemId := item.itemId
  status := item.status
  createdAtMs := item.createdAt
  dataJson := encodeQueueItem item
  source := item.source
  clientRequestId := item.clientRequestId
  dedupeKey := item.dedupeKey
  expiresAtMs := item.expiresAt
  claimId := item.claimId

end Kinetick
