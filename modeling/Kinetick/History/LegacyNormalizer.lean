import Kinetick.Js
import Mathlib.Data.List.Forall2

/-!
# Normalising a legacy history

A history from before canonical messages may have tool calls without results and results without
calls. What is accepted last may be an assistant some of whose calls wait for their results; a message
that is no result breaks the pair, and the calls that still wait are dropped from the assistant.
-/

namespace Kinetick

namespace LegacyNormalizer

/-- How a history's items are read and an assistant's content is replaced. -/
structure LegacyHistoryItemAdapter (T : Type) where
  message : T → JsValue
  replaceAssistantContent : T → List JsValue → T

/-- Replacing an assistant's content replaces that alone. -/
structure LegacyHistoryItemAdapter.Lawful {T : Type} (adapter : LegacyHistoryItemAdapter T) :
    Prop where
  content : ∀ item content,
    (adapter.message (adapter.replaceAssistantContent item content)).get "content" = .array content
  rest : ∀ item content key, key ≠ "content" →
    (adapter.message (adapter.replaceAssistantContent item content)).get key =
      (adapter.message item).get key

structure LegacyHistoryNormalizationStats where
  orphanToolCallDropped : ℕ := 0
  orphanToolResultDropped : ℕ := 0
  reorderedPairDropped : ℕ := 0
  emptyAssistantDropped : ℕ := 0
  inspected : ℕ
  deriving DecidableEq

/-- The assistant whose calls wait for their results. It has no index once it is dropped. -/
structure InFlight where
  outIndex : Option ℕ
  pendingIds : List String
  dropReorderedForIds : List String
  seenAtLeastOneResult : Bool

structure NormalizerState (T : Type) where
  out : List T
  warnings : List String
  stats : LegacyHistoryNormalizationStats
  inFlight : Option InFlight

section Reading

variable {T : Type} (adapter : LegacyHistoryItemAdapter T) (item : T)

def readRole : Option String :=
  match (adapter.message item).get "role" with
  | .string value => some value
  | _ => none

def readToolCallId : Option String :=
  match (adapter.message item).get "toolCallId" with
  | .string value => if value ≠ "" then some value else none
  | _ => none

def readToolName : String :=
  match (adapter.message item).get "toolName" with
  | .string value => if value ≠ "" then value else "unknown"
  | _ => "unknown"

/-- The content, if it is an array. -/
def contentBlocks : Option (List JsValue) :=
  match (adapter.message item).get "content" with
  | .array blocks => some blocks
  | _ => none

def assistantHasBlocks : Bool := (contentBlocks adapter item).isSome

def isAssistantContentEmpty : Bool :=
  match contentBlocks adapter item with
  | some blocks => blocks.isEmpty
  | none => true

def isToolCallBlock (value : JsValue) : Bool :=
  match value with
  | .object _ => (value.get "type").isText "toolCall"
  | _ => false

/-- The id of a block, if it is a text. -/
def blockId (block : JsValue) : Option String :=
  match block.get "id" with
  | .string id => some id
  | _ => none

def readAssistantToolCallIds : List String :=
  match contentBlocks adapter item with
  | none => []
  | some blocks => blocks.flatMap fun block =>
    if isToolCallBlock block then ((blockId block).filter (· ≠ "")).toList else []

def readToolNameFromAssistant (toolCallId : String) : String :=
  match contentBlocks adapter item with
  | none => "unknown"
  | some blocks =>
    match blocks.find? fun entry => isToolCallBlock entry && blockId entry = some toolCallId with
    | none => "unknown"
    | some block =>
      match block.get "name" with
      | .string name => if name ≠ "" then name else "unknown"
      | _ => "unknown"

/-- The block is no call with one of the ids. -/
def keepsBlock (toolCallIds : List String) (block : JsValue) : Bool :=
  !isToolCallBlock block || !(blockId block).any (toolCallIds.contains ·)

def filterToolCallBlocks (toolCallIds : List String) : T :=
  match contentBlocks adapter item with
  | none => item
  | some blocks => adapter.replaceAssistantContent item (blocks.filter (keepsBlock toolCallIds))

end Reading

section Normalizer

variable {T : Type} (adapter : LegacyHistoryItemAdapter T) (tagSuffix : String)

/-- `:${tag}`, unless the tag is empty. -/
def tagSuffixOf (tag : Option String) : String :=
  match tag with
  | none => ""
  | some tag => if tag = "" then "" else s!":{tag}"

def createNormalizerState (inspected : ℕ) : NormalizerState T where
  out := []
  warnings := []
  stats := { inspected }
  inFlight := none

def recordOrphanToolCall (toolCallId toolName : String) (state : NormalizerState T) :
    NormalizerState T :=
  { state with
    warnings := state.warnings ++
      [s!"sanitizer_dropped_orphan_tool_call:{toolCallId}:{toolName}{tagSuffix}"]
    stats.orphanToolCallDropped := state.stats.orphanToolCallDropped + 1 }

def recordReorderedToolCall (toolCallId toolName : String) (state : NormalizerState T) :
    NormalizerState T :=
  { state with
    warnings := state.warnings ++
      [s!"sanitizer_dropped_reordered_tool_pair:{toolCallId}:{toolName}{tagSuffix}"]
    stats.reorderedPairDropped := state.stats.reorderedPairDropped + 1 }

def recordEmptyAssistant (state : NormalizerState T) : NormalizerState T :=
  { state with
    warnings := state.warnings ++ [s!"sanitizer_dropped_empty_assistant:1{tagSuffix}"]
    stats.emptyAssistantDropped := state.stats.emptyAssistantDropped + 1 }

def recordDroppedCalls (assistant : T) (flight : InFlight) (state : NormalizerState T) :
    NormalizerState T :=
  flight.pendingIds.foldl (fun state toolCallId =>
    let toolName := readToolNameFromAssistant adapter assistant toolCallId
    if flight.seenAtLeastOneResult then recordOrphanToolCall tagSuffix toolCallId toolName state
    else recordReorderedToolCall tagSuffix toolCallId toolName state) state

/-- The state with the assistant replaced, or dropped where nothing is left of it, and its index. -/
def replaceOrDropAssistant (filtered : T) (outIndex : ℕ) (state : NormalizerState T) :
    NormalizerState T × Option ℕ :=
  if isAssistantContentEmpty adapter filtered then
    ({ recordEmptyAssistant tagSuffix state with out := state.out.eraseIdx outIndex }, none)
  else ({ state with out := state.out.set outIndex filtered }, some outIndex)

/-- The assistant in flight and its index, if it has blocks. -/
def flightAssistant (flight : InFlight) (state : NormalizerState T) : Option (ℕ × T) := do
  let outIndex ← flight.outIndex
  let assistant ← state.out[outIndex]?
  if assistantHasBlocks adapter assistant then some (outIndex, assistant) else none

def breakPendingPair (state : NormalizerState T) : NormalizerState T :=
  match state.inFlight with
  | none => state
  | some flight =>
    if flight.pendingIds = [] then state
    else
      match flightAssistant adapter flight state with
      | none => { state with inFlight := none }
      | some (outIndex, assistant) =>
        let recorded := recordDroppedCalls adapter tagSuffix assistant flight state
        let filtered := filterToolCallBlocks adapter assistant flight.pendingIds
        let replaced := replaceOrDropAssistant adapter tagSuffix filtered outIndex recorded
        { replaced.1 with
          inFlight := some
            { outIndex := replaced.2
              pendingIds := []
              dropReorderedForIds := (flight.dropReorderedForIds ++ flight.pendingIds).eraseDups
              seenAtLeastOneResult := flight.seenAtLeastOneResult } }

def acceptMatchingToolResult (item : T) (toolCallId : String) (flight : InFlight)
    (state : NormalizerState T) : NormalizerState T :=
  let pendingIds := flight.pendingIds.filter (· ≠ toolCallId)
  { state with
    out := state.out ++ [item]
    inFlight := if pendingIds = [] then none
      else some { flight with pendingIds, seenAtLeastOneResult := true } }

def dropReorderedToolResult (item : T) (toolCallId : String) (flight : InFlight)
    (state : NormalizerState T) : NormalizerState T :=
  recordReorderedToolCall tagSuffix toolCallId (readToolName adapter item)
    { state with
      inFlight := some { flight with
        dropReorderedForIds := flight.dropReorderedForIds.filter (· ≠ toolCallId) } }

def dropOrphanToolResult (item : T) (state : NormalizerState T) : NormalizerState T :=
  let toolCallId := (readToolCallId adapter item).getD "unknown"
  { state with
    warnings := state.warnings ++
      [s!"sanitizer_dropped_orphan_tool_result:{toolCallId}:{readToolName adapter item}{tagSuffix}"]
    stats.orphanToolResultDropped := state.stats.orphanToolResultDropped + 1 }

def acceptToolResult (item : T) (state : NormalizerState T) : NormalizerState T :=
  match readToolCallId adapter item, state.inFlight with
  | some toolCallId, some flight =>
    if toolCallId ∈ flight.pendingIds then acceptMatchingToolResult item toolCallId flight state
    else if toolCallId ∈ flight.dropReorderedForIds then
      dropReorderedToolResult adapter tagSuffix item toolCallId flight state
    else dropOrphanToolResult adapter tagSuffix item state
  | _, _ => dropOrphanToolResult adapter tagSuffix item state

def acceptAssistant (assistant : T) (state : NormalizerState T) : NormalizerState T :=
  if !assistantHasBlocks adapter assistant || isAssistantContentEmpty adapter assistant then
    recordEmptyAssistant tagSuffix state
  else
    let toolCallIds := readAssistantToolCallIds adapter assistant
    let out := state.out ++ [assistant]
    if toolCallIds = [] then { state with out }
    else
      { state with
        out
        inFlight := some
          { outIndex := some state.out.length
            pendingIds := toolCallIds.eraseDups
            dropReorderedForIds := []
            seenAtLeastOneResult := false } }

def acceptHistoryItem (item : T) (state : NormalizerState T) : NormalizerState T :=
  if readRole adapter item = some "toolResult" then acceptToolResult adapter tagSuffix item state
  else
    let broken := breakPendingPair adapter tagSuffix state
    if readRole adapter item = some "assistant" then acceptAssistant adapter tagSuffix item broken
    else { broken with out := broken.out ++ [item] }

def finaliseInFlight (state : NormalizerState T) : NormalizerState T :=
  match state.inFlight with
  | none => state
  | some flight =>
    if flight.pendingIds = [] then state
    else
      match flightAssistant adapter flight state with
      | none => state
      | some (outIndex, assistant) =>
        let recorded := recordDroppedCalls adapter tagSuffix assistant
          { flight with seenAtLeastOneResult := true } state
        let filtered := filterToolCallBlocks adapter assistant flight.pendingIds
        { (replaceOrDropAssistant adapter tagSuffix filtered outIndex recorded).1 with
          inFlight := none }

structure LegacyHistoryNormalizationResult (T : Type) where
  items : List T
  warnings : List String
  stats : LegacyHistoryNormalizationStats

def normalizeLegacyHistoryForMessages (items : List T) (tag : Option String) :
    LegacyHistoryNormalizationResult T :=
  let accepted := items.foldl (fun state item =>
    acceptHistoryItem adapter (tagSuffixOf tag) item state) (createNormalizerState items.length)
  let state := finaliseInFlight adapter (tagSuffixOf tag) accepted
  { items := state.out, warnings := state.warnings, stats := state.stats }

end Normalizer

/-! ## What is promised -/

section Promises

variable {T : Type} (adapter : LegacyHistoryItemAdapter T)

def IsResult (item : T) : Prop := readRole adapter item = some "toolResult"

def IsAssistant (item : T) : Prop := readRole adapter item = some "assistant"

instance (item : T) : Decidable (IsResult adapter item) := inferInstanceAs (Decidable (_ = _))

instance (item : T) : Decidable (IsAssistant adapter item) := inferInstanceAs (Decidable (_ = _))

/-- The tool calls of an assistant. -/
def toolCalls (item : T) : List JsValue :=
  if IsAssistant adapter item then ((contentBlocks adapter item).getD []).filter isToolCallBlock
  else []

/-- The ids of an assistant's tool calls are texts, not empty, and distinct. -/
structure WellCalled (item : T) : Prop where
  named : ∀ block ∈ toolCalls adapter item, ∃ id, id ≠ "" ∧ block.get "id" = .string id
  distinct : ((toolCalls adapter item).map (·.get "id")).Nodup

/-- Every assistant has content and is followed by one result for each of its calls. -/
inductive Paired : List T → Prop
  | nil : Paired []
  | other {item : T} {rest : List T} (hresult : ¬IsResult adapter item)
      (hassistant : ¬IsAssistant adapter item) (hrest : Paired rest) : Paired (item :: rest)
  | assistant {item : T} {results rest : List T} (hassistant : IsAssistant adapter item)
      (hcontent : isAssistantContentEmpty adapter item = false)
      (hresults : ∀ result ∈ results, IsResult adapter result)
      (hcalls : (results.map fun result => (adapter.message result).get "toolCallId").Perm
        ((toolCalls adapter item).map (·.get "id")))
      (hrest : Paired rest) : Paired (item :: (results ++ rest))

/-- An item is kept as it is, or it is an assistant some of whose calls are left out. -/
def Reduced (kept item : T) : Prop :=
  kept = item ∨ IsAssistant adapter item ∧ ∃ blocks keeps, contentBlocks adapter item = some blocks ∧
    (∀ block ∈ blocks, keeps block = false → isToolCallBlock block = true) ∧
      kept = adapter.replaceAssistantContent item (blocks.filter keeps)

def countCalls : List T → ℕ
  | [] => 0
  | item :: items => (toolCalls adapter item).length + countCalls items

def countResults (items : List T) : ℕ := items.countP fun item => IsResult adapter item

def countAssistants (items : List T) : ℕ := items.countP fun item => IsAssistant adapter item

def LegacyHistoryNormalizationStats.dropped (stats : LegacyHistoryNormalizationStats) : ℕ :=
  stats.orphanToolCallDropped + stats.orphanToolResultDropped + stats.reorderedPairDropped +
    stats.emptyAssistantDropped

/-- What is left of a history, and what is said of the rest. -/
structure Normalized (items : List T) (result : LegacyHistoryNormalizationResult T) : Prop where
  reduced : List.SublistForall₂ (Reduced adapter) result.items items
  paired : Paired adapter result.items
  kept : (result.items.filter fun item => ¬IsResult adapter item ∧ ¬IsAssistant adapter item) =
    items.filter fun item => ¬IsResult adapter item ∧ ¬IsAssistant adapter item
  counted : result.stats.dropped + (countCalls adapter result.items +
      countResults adapter result.items + countAssistants adapter result.items) =
    countCalls adapter items + countResults adapter items + countAssistants adapter items
  warned : result.warnings.length = result.stats.dropped
  inspected : result.stats.inspected = items.length

end Promises

end LegacyNormalizer

end Kinetick
