import Kinetick.AgentMessage

/-!
# The sequence of a canonical history

A history's records are validated twice over: a whole history strictly, record by record, and what
is appended to a history after a tolerant reading of it. Both keep the ids of messages, tool calls
and user turns that were seen, and the tool calls whose results are still to come.
-/

namespace Kinetick

structure ParentSnapshot where
  generation : ℕ
  compactionId : String
  revision : String
  deriving DecidableEq

inductive HistoryProducer
  | toolArchive
  | toolTrim
  | llmCheckpoint
  deriving DecidableEq

structure CanonicalHistoryArtifact where
  generation : ℕ
  producedBy : HistoryProducer
  parentSnapshot : ParentSnapshot
  deriving DecidableEq

structure CanonicalHistoryEnvelope where
  messageId : String
  turnId : String
  message : AgentMessage
  turnConfig : Option JsValue
  historyArtifact : Option CanonicalHistoryArtifact

structure HistorySequenceState where
  messageIds : List String
  toolCallIds : List String
  userTurnIds : List String
  pendingToolCallIds : Option (List String)
  pendingToolCallStartIndex : Option ℕ
  boundarySeen : Bool

inductive CanonicalHistorySequenceInspection
  | settled
  | pendingToolResults (settledPrefixLength : ℕ) (pendingToolCallIds : List String)

namespace HistorySequence

/-- `new Set()` with `boundarySeen: false` -/
def emptyState : HistorySequenceState where
  messageIds := []
  toolCallIds := []
  userTurnIds := []
  pendingToolCallIds := none
  pendingToolCallStartIndex := none
  boundarySeen := false

/-- `ids.add(id)` -/
def addId (ids : List String) (id : String) : List String := if id ∈ ids then ids else ids ++ [id]

def sequenceError {α : Type} (index : ℕ) (reason : String) : Except String α :=
  .error s!"Canonical history sequence is invalid at record {index + 1}: {reason}"

/-! ## Values -/

def isPlainRecord : JsValue → Bool
  | .object _ => true
  | _ => false

/-- The text, if it is one that is not blank. -/
def nonEmptyString : JsValue → Option String
  | .string text => if jsTrim text = "" then none else some text
  | _ => none

/-- `value === n` -/
def isNumber (value : JsValue) (n : ℚ) : Bool :=
  match value with
  | .number (.finite q) => q = n
  | _ => false

/-- `typeof value === 'number' && Number.isFinite(value)` -/
def isFiniteNumber : JsValue → Bool
  | .number n => n.isFinite
  | _ => false

def safeInteger (value : JsValue) (minimum : ℤ) : Option ℤ :=
  value.safeInteger.filter (minimum ≤ ·)

/-- `/^sha256:[a-f0-9]{64}$/u` -/
def isRevision (text : String) : Bool :=
  text.toList.take 7 = "sha256:".toList && text.toList.length = 71 &&
    (text.toList.drop 7).all fun c => ('a' ≤ c && c ≤ 'f') || ('0' ≤ c && c ≤ '9')

/-! ## Compaction boundaries -/

def isNativeCompactionSummary (message : AgentMessage) : Bool :=
  match message.get "summary" with
  | .string _ =>
    let hasTokens := message.hasOwn "tokensBefore"
    let hasTimestamp := message.hasOwn "timestamp"
    if !hasTokens && !hasTimestamp then true
    else hasTokens == hasTimestamp && (safeInteger (message.get "tokensBefore") 0).isSome &&
      isFiniteNumber (message.get "timestamp")
  | _ => false

def isValidParentSnapshot (parent : JsValue) : Bool :=
  (safeInteger (parent.get "generation") 0).isSome &&
    (match parent.get "compactionId" with
      | .string id => id ≠ ""
      | _ => false) &&
    match parent.get "revision" with
      | .string revision => isRevision revision
      | _ => false

def isRecentUserQuery (query : JsValue) : Bool :=
  isPlainRecord query && (nonEmptyString (query.get "text")).isSome &&
    ((query.get "timestampMs").isUndefined || isFiniteNumber (query.get "timestampMs"))

def isTodoItem (item : JsValue) : Bool :=
  isPlainRecord item && (nonEmptyString (item.get "content")).isSome &&
    (nonEmptyString (item.get "status")).isSome && (nonEmptyString (item.get "priority")).isSome

def isArchonCompactionMarker (value : JsValue) : Bool :=
  match isPlainRecord value, value.get "summary" with
  | true, .string _ =>
    if isNumber (value.get "schemaVersion") 1 then true
    else match isNumber (value.get "version") 2, value.get "recentUserQueries" with
    | true, .array queries =>
      if !queries.all isRecentUserQuery then false
      else match value.get "todoState" with
      | .undefined => true
      | .array items => items.all isTodoItem
      | _ => false
    | _, _ => false
  | _, _ => false

def assertGenerationCompactionMarker (marker : JsValue) (index : ℕ) : Except String Unit :=
  match safeInteger (marker.get "generation") 1 with
  | none => sequenceError index "Archon compaction boundary is malformed"
  | some generation =>
    let parent := marker.get "parentSnapshot"
    if !isPlainRecord parent || !isValidParentSnapshot parent then
      sequenceError index "Archon compaction boundary is malformed"
    else match safeInteger (parent.get "generation") 0 with
    | none => sequenceError index "Archon compaction generation chain is malformed"
    | some parentGeneration =>
      if parentGeneration + 1 ≠ generation then
        sequenceError index "Archon compaction generation chain is malformed"
      else .ok ()

def isCompactionBoundary (message : AgentMessage) (index : ℕ) : Except String Bool :=
  if message.hasRole "compactionSummary" then
    if isNativeCompactionSummary message then .ok true
    else sequenceError index "legacy compaction summary is malformed"
  else if !message.hasOwn "archonCompaction" then .ok false
  else
    let marker := message.get "archonCompaction"
    if !message.hasRole "user" || !isPlainRecord marker then
      sequenceError index "Archon compaction boundary is malformed"
    else if isNumber (marker.get "schemaVersion") 2 then do
      assertGenerationCompactionMarker marker index
      return true
    else if !isArchonCompactionMarker marker then
      sequenceError index "Archon compaction boundary is malformed"
    else .ok true

/-! ## Strict validation -/

def validateMessageIdentity (messageId : String) (index : ℕ) (seen : List String) :
    Except String (List String) :=
  if messageId ∈ seen then sequenceError index s!"duplicate message identity {messageId}"
  else .ok (addId seen messageId)

def validateTurnConfigAnchor (envelope : CanonicalHistoryEnvelope) (index : ℕ)
    (userTurnIds : List String) : Except String (List String) :=
  if !envelope.message.hasRole "user" then .ok userTurnIds
  else if envelope.turnConfig.isSome && userTurnIds.contains envelope.turnId then
    sequenceError index ("turn_config must be attached only to the first user message of turn " ++
      envelope.turnId)
  else .ok (addId userTurnIds envelope.turnId)

def validateCompactionBoundary (message : AgentMessage) (index : ℕ) (boundarySeen : Bool) :
    Except String Bool := do
  if !(← isCompactionBoundary message index) then return boundarySeen
  else if boundarySeen || index ≠ 0 then
    sequenceError index "compaction boundary must be the unique first message"
  else return true

/-- The pending calls and where they started, after the result of one of them. -/
def consumeToolResult (message : AgentMessage) (index : ℕ) (pending : Option (List String))
    (start : Option ℕ) : Except String (Option (List String) × Option ℕ) :=
  match nonEmptyString (message.get "toolCallId"), pending with
  | none, _ => sequenceError index "orphan or out-of-order tool result <missing>"
  | some toolCallId, none =>
    sequenceError index s!"orphan or out-of-order tool result {toolCallId}"
  | some toolCallId, some ids =>
    if toolCallId ∉ ids then
      sequenceError index s!"orphan or out-of-order tool result {toolCallId}"
    else
      let left := ids.filter (· ≠ toolCallId)
      .ok (if left.isEmpty then (none, none) else (some left, start))

def assertNoPendingToolResults (index : ℕ) (pending : Option (List String)) :
    Except String Unit :=
  match pending with
  | some (id :: ids) =>
    sequenceError index ("tool results must immediately follow their assistant call: " ++
      ",".intercalate (id :: ids))
  | _ => .ok ()

/-- The ids of the block and all that were seen. -/
def readToolCallId (block : JsValue) (blockIndex messageIndex : ℕ) (seen : List String) :
    Except String (List String × List String) :=
  if !isPlainRecord block || !(block.get "type").isText "toolCall" then .ok ([], seen)
  else match nonEmptyString (block.get "id") with
  | none => sequenceError messageIndex s!"tool call {blockIndex + 1} has no identity"
  | some id =>
    if id ∈ seen then sequenceError messageIndex s!"duplicate tool call identity {id}"
    else .ok ([id], addId seen id)

def readToolCallIds (messageIndex : ℕ) :
    (blockIndex : ℕ) → (seen : List String) → List JsValue →
      Except String (List String × List String)
  | _, seen, [] => .ok ([], seen)
  | blockIndex, seen, block :: blocks => do
    let (ids, seen) ← readToolCallId block blockIndex messageIndex seen
    let (rest, seen) ← readToolCallIds messageIndex (blockIndex + 1) seen blocks
    return (ids ++ rest, seen)

/-- `new Set(ids)` -/
def setOf (ids : List String) : List String := ids.foldl addId []

def readAssistantToolCalls (message : AgentMessage) (index : ℕ) (seen : List String) :
    Except String (Option (List String) × List String) :=
  match message.get "content" with
  | .array blocks => do
    let (ids, seen) ← readToolCallIds index 0 seen blocks
    return (if ids.isEmpty then none else some (setOf ids), seen)
  | _ => sequenceError index "assistant content must be an array"

def validateSequenceRecord (envelope : CanonicalHistoryEnvelope) (index : ℕ)
    (state : HistorySequenceState) : Except String HistorySequenceState := do
  if envelope.historyArtifact.isSome && index ≠ 0 then
    sequenceError index "history artifact marker must be attached only to the first envelope"
  else
    let messageIds ← validateMessageIdentity envelope.messageId index state.messageIds
    let userTurnIds ← validateTurnConfigAnchor envelope index state.userTurnIds
    let boundarySeen ← validateCompactionBoundary envelope.message index state.boundarySeen
    let state := { state with messageIds, userTurnIds, boundarySeen }
    if envelope.message.hasRole "toolResult" then
      let (pending, start) ← consumeToolResult envelope.message index state.pendingToolCallIds
        state.pendingToolCallStartIndex
      return { state with pendingToolCallIds := pending, pendingToolCallStartIndex := start }
    else
      assertNoPendingToolResults index state.pendingToolCallIds
      if envelope.message.hasRole "assistant" then
        let (pending, toolCallIds) ←
          readAssistantToolCalls envelope.message index state.toolCallIds
        return { state with
          toolCallIds
          pendingToolCallIds := pending
          pendingToolCallStartIndex := if pending.isSome then some index else none }
      else return state

/-- Records from the index on. -/
def validateRecords : (index : ℕ) → HistorySequenceState → List CanonicalHistoryEnvelope →
    Except String HistorySequenceState
  | _, state, [] => .ok state
  | index, state, envelope :: records => do
    let state ← validateSequenceRecord envelope index state
    validateRecords (index + 1) state records

def inspection (count : ℕ) (state : HistorySequenceState) : CanonicalHistorySequenceInspection :=
  match state.pendingToolCallIds with
  | some (id :: ids) =>
    .pendingToolResults (state.pendingToolCallStartIndex.getD count) (id :: ids)
  | _ => .settled

def inspectCanonicalHistorySequence (records : List CanonicalHistoryEnvelope) :
    Except String CanonicalHistorySequenceInspection := do
  let state ← validateRecords 0 emptyState records
  return inspection records.length state

def assertCanonicalHistorySequence (records : List CanonicalHistoryEnvelope) :
    Except String Unit := do
  match ← inspectCanonicalHistorySequence records with
  | .settled => return ()
  | .pendingToolResults _ ids =>
    sequenceError records.length
      ("history ends before tool results: " ++ ",".intercalate ids)

/-! ## Tolerant reading -/

def tolerantAssistantToolCallIds (message : AgentMessage) : List String :=
  if !message.hasRole "assistant" then []
  else match message.get "content" with
  | .array blocks => blocks.flatMap fun block =>
    if !isPlainRecord block || !(block.get "type").isText "toolCall" then []
    else (nonEmptyString (block.get "id")).toList
  | _ => []

def consumeActiveToolResultTolerantly (message : AgentMessage) (state : HistorySequenceState) :
    HistorySequenceState :=
  let cleared := { state with pendingToolCallIds := none, pendingToolCallStartIndex := none }
  match nonEmptyString (message.get "toolCallId"), state.pendingToolCallIds with
  | some toolCallId, some ids =>
    if toolCallId ∉ ids then cleared
    else
      let left := ids.filter (· ≠ toolCallId)
      if left.isEmpty then cleared else { state with pendingToolCallIds := some left }
  | _, _ => cleared

def updateAppendStateFromActive (state : HistorySequenceState)
    (envelope : CanonicalHistoryEnvelope) : HistorySequenceState :=
  let toolCallIds := tolerantAssistantToolCallIds envelope.message
  let state := { state with
    messageIds := addId state.messageIds envelope.messageId
    userTurnIds := if envelope.message.hasRole "user" then addId state.userTurnIds envelope.turnId
      else state.userTurnIds
    boundarySeen := state.boundarySeen || envelope.message.hasRole "compactionSummary" ||
      envelope.message.hasOwn "archonCompaction"
    toolCallIds := toolCallIds.foldl addId state.toolCallIds }
  if envelope.message.hasRole "toolResult" then
    consumeActiveToolResultTolerantly envelope.message state
  else
    let state :=
      if (state.pendingToolCallIds.getD []).isEmpty then state
      else { state with pendingToolCallIds := none, pendingToolCallStartIndex := none }
    if toolCallIds.isEmpty then state
    else { state with pendingToolCallIds := some (setOf toolCallIds) }

def deriveAppendState (active : List CanonicalHistoryEnvelope) : HistorySequenceState :=
  active.foldl updateAppendStateFromActive emptyState

def assertCanonicalHistoryAppend (active appended : List CanonicalHistoryEnvelope) :
    Except String Unit := do
  let _ ← validateRecords active.length (deriveAppendState active) appended
  return ()

end HistorySequence

end Kinetick

/-!
## What an inspection reports

A history that ends in the middle of its tool results is a settled one, the assistant's calls after
it, and results of some of them.
-/

namespace Kinetick

namespace HistorySequence

/-- The record is the result of the call. -/
def answers (toolCallId : String) (record : CanonicalHistoryEnvelope) : Bool :=
  record.message.hasRole "toolResult" &&
    nonEmptyString (record.message.get "toolCallId") = some toolCallId

/-- The calls of the record that none of the records after it answers. -/
def unanswered (record : CanonicalHistoryEnvelope) (following : List CanonicalHistoryEnvelope) :
    List String :=
  (tolerantAssistantToolCallIds record.message).filter fun id => !following.any (answers id)

/-- The records before the count are settled, the one at the count calls tools, and what follows it
are results that leave the ids unanswered. -/
structure PendingTail (records : List CanonicalHistoryEnvelope) (count : ℕ) (ids : List String) :
    Prop where
  settled : inspectCanonicalHistorySequence (records.take count) = .ok .settled
  record : ∃ record, records[count]? = some record ∧
    record.message.hasRole "assistant" = true ∧
    ids = unanswered record (records.drop (count + 1))
  results : ∀ record ∈ records.drop (count + 1), record.message.hasRole "toolResult" = true
  pending : ids ≠ []

end HistorySequence

end Kinetick
