import Kinetick.AgentMessage
import Mathlib.Order.Bounds.Defs

/-!
# The cut of the context manager

When a context has grown over its trigger, the manager summarises its older messages and keeps the
recent ones. The cut stands where the messages from it on are estimated at enough tokens, or before:
a tool call is never parted from its results.
-/

namespace Kinetick

namespace ContextManager

/-! ## Messages -/

/-- The blocks of the message's content. -/
def blocks (message : AgentMessage) : List JsValue :=
  match message.get "content" with
  | .array blocks => blocks
  | _ => []

/-- The text, if the value is one. -/
def textOf : JsValue → Option String
  | .string text => some text
  | _ => none

def assistantToolCallIds (message : AgentMessage) : List String :=
  (blocks message).filterMap fun block =>
    if (block.get "type").isText "toolCall" then textOf (block.get "id") else none

def isHardToolGroupBoundary (message : AgentMessage) : Bool :=
  message.hasRole "user" || message.hasRole "branchSummary" || message.hasRole "compactionSummary"

def isValidFirstKeptMessage (message : AgentMessage) : Bool := !message.hasRole "toolResult"

/-- `toolCallIds.has(message.toolCallId)` -/
def answersOne (toolCallIds : List String) (message : AgentMessage) : Bool :=
  (textOf (message.get "toolCallId")).any toolCallIds.contains

def assistantHasToolCall (message result : AgentMessage) : Bool :=
  answersOne (assistantToolCallIds message) result

def compactionSummaryText (message : AgentMessage) : Option String :=
  if message.hasRole "compactionSummary" then textOf (message.get "summary") else none

/-! ## Groups of tool calls -/

/-- The loop of `findToolGroupEnd` from `i` on. -/
def groupEndFrom (toolCallIds : List String) :
    (rest : List AgentMessage) → (i groupEnd : ℕ) → ℕ
  | [], _, groupEnd => groupEnd
  | message :: rest, i, groupEnd =>
    if isHardToolGroupBoundary message || message.hasRole "assistant" then groupEnd
    else groupEndFrom toolCallIds rest (i + 1)
      (if message.hasRole "toolResult" && answersOne toolCallIds message then i else groupEnd)

def findToolGroupEnd (messages : List AgentMessage) (assistantIndex : ℕ)
    (toolCallIds : List String) : ℕ :=
  groupEndFrom toolCallIds (messages.drop (assistantIndex + 1)) (assistantIndex + 1) assistantIndex

/-- The loop of `findToolGroupStartForIndex` below an index. -/
def groupStartBelow (messages : List AgentMessage) (index boundaryStart : ℕ) : ℕ → Option ℕ
  | 0 => none
  | i + 1 =>
    if i < boundaryStart then none
    else match messages[i]? with
      | none => groupStartBelow messages index boundaryStart i
      | some candidate =>
        if candidate.hasRole "assistant" then
          if (assistantToolCallIds candidate).isEmpty then none
          else if index ≤ findToolGroupEnd messages i (assistantToolCallIds candidate) then some i
          else none
        else if isHardToolGroupBoundary candidate then none
        else groupStartBelow messages index boundaryStart i

def findToolGroupStartForIndex (messages : List AgentMessage) (index boundaryStart : ℕ) : Option ℕ :=
  groupStartBelow messages index boundaryStart (index + 1)

/-- The loop of `findAssistantForToolResult` below an index. -/
def assistantBelow (messages : List AgentMessage) (result : AgentMessage) (boundaryStart : ℕ) :
    ℕ → Option ℕ
  | 0 => none
  | i + 1 =>
    if i < boundaryStart then none
    else match messages[i]? with
      | none => assistantBelow messages result boundaryStart i
      | some candidate =>
        if candidate.hasRole "assistant" && assistantHasToolCall candidate result then some i
        else if isHardToolGroupBoundary candidate then none
        else assistantBelow messages result boundaryStart i

def findAssistantForToolResult (messages : List AgentMessage) (toolResultIndex boundaryStart : ℕ) :
    Option ℕ :=
  (messages[toolResultIndex]?).bind fun result =>
    assistantBelow messages result boundaryStart toolResultIndex

/-- The loop of `firstValidCutAtOrAfter` from `i` on. -/
def firstValidCutFrom (messages : List AgentMessage) (boundaryStart : ℕ) :
    (rest : List AgentMessage) → (i : ℕ) → Option ℕ
  | [], _ => none
  | message :: rest, i =>
    if message.hasRole "toolResult" then
      match findAssistantForToolResult messages i boundaryStart with
      | some assistantIndex => some assistantIndex
      | none => firstValidCutFrom messages boundaryStart rest (i + 1)
    else if isValidFirstKeptMessage message then some i
    else firstValidCutFrom messages boundaryStart rest (i + 1)

def firstValidCutAtOrAfter (messages : List AgentMessage) (index boundaryStart : ℕ) : Option ℕ :=
  firstValidCutFrom messages boundaryStart (messages.drop (max index boundaryStart))
    (max index boundaryStart)

def safeCutForIndex (messages : List AgentMessage) (index boundaryStart : ℕ) : Option ℕ :=
  match messages[index]? with
  | none => none
  | some message =>
    match findToolGroupStartForIndex messages index boundaryStart with
    | some toolGroupStart => some toolGroupStart
    | none =>
      if message.hasRole "toolResult" then findAssistantForToolResult messages index boundaryStart
      else if isValidFirstKeptMessage message then some index
      else firstValidCutAtOrAfter messages index boundaryStart

/-! ## The plan -/

/-- The settings that a checkpoint depends on once its trigger is evaluated. -/
structure ContextManagerSettings where
  keepRecentTokens : JsNumber
  minMessagesToCompact : JsNumber
  strategyVersion : String

structure TokenEstimator where
  estimateMessage : AgentMessage → ℚ
  estimateContextTokens : List AgentMessage → JsNumber

/-- `Math.min(a, b)` -/
def jsMin (a b : JsNumber) : JsNumber :=
  if a = .nan ∨ b = .nan then .nan else if a.le b then a else b

/-- `Math.max(a, b)` -/
def jsMax (a b : JsNumber) : JsNumber :=
  if a = .nan ∨ b = .nan then .nan else if a.le b then b else a

structure ContextCompactionPlan where
  previousSummary : Option String
  compactedMessages : List AgentMessage
  keptMessages : List AgentMessage
  firstKeptIndex : ℕ
  boundaryStartIndex : ℕ
  tokensBefore : JsNumber

/-- The loop of `findLatestCompactionSummaryIndex` below an index. -/
def latestSummaryBelow (messages : List AgentMessage) : ℕ → Option ℕ
  | 0 => none
  | i + 1 =>
    if ((messages[i]?).bind compactionSummaryText).isSome then some i
    else latestSummaryBelow messages i

def findLatestCompactionSummaryIndex (messages : List AgentMessage) : Option ℕ :=
  latestSummaryBelow messages messages.length

section Plan

variable (settings : ContextManagerSettings) (tokenEstimator : TokenEstimator)

/-- The loop of `selectFirstKeptIndex` below an index. -/
def firstKeptBelow (messages : List AgentMessage) (boundaryStart : ℕ) (keepRecentTokens : JsNumber)
    (candidate : Option ℕ) : ℕ → (tokens : ℚ) → Option ℕ
  | 0, _ => candidate
  | i + 1, tokens =>
    if i < boundaryStart then candidate
    else
      let tokens := tokens + ((messages[i]?).map tokenEstimator.estimateMessage).getD 0
      if keepRecentTokens.le (.finite tokens) then safeCutForIndex messages i boundaryStart
      else firstKeptBelow messages boundaryStart keepRecentTokens candidate i tokens

def selectFirstKeptIndex (messages : List AgentMessage) (boundaryStart : ℕ)
    (keepRecentTokens : JsNumber) : Option ℕ :=
  match firstValidCutAtOrAfter messages boundaryStart boundaryStart with
  | none => none
  | some candidate =>
    firstKeptBelow tokenEstimator messages boundaryStart keepRecentTokens (some candidate)
      messages.length 0

def boundaryStartOf (messages : List AgentMessage) : ℕ :=
  ((findLatestCompactionSummaryIndex messages).map (· + 1)).getD 0

def effectiveKeepRecentTokens (triggerAt : JsNumber) : JsNumber :=
  jsMin settings.keepRecentTokens (jsMax (.finite 1) triggerAt)

/-- `count < this.settings.minMessagesToCompact` -/
def tooFew (count : ℕ) : Bool := JsNumber.lt (.finite count) settings.minMessagesToCompact

def selectPlan (activeMessages : List AgentMessage) (tokensBefore triggerAt : JsNumber) :
    Option ContextCompactionPlan :=
  let previousSummaryIndex := findLatestCompactionSummaryIndex activeMessages
  let boundaryStartIndex := boundaryStartOf activeMessages
  if tooFew settings (activeMessages.length - boundaryStartIndex) then none
  else match selectFirstKeptIndex tokenEstimator activeMessages boundaryStartIndex
      (effectiveKeepRecentTokens settings triggerAt) with
    | none => none
    | some firstKeptIndex =>
      if firstKeptIndex ≤ boundaryStartIndex ∨ activeMessages.length ≤ firstKeptIndex then none
      else
        let compactedMessages := (activeMessages.take firstKeptIndex).drop boundaryStartIndex
        let keptMessages := activeMessages.drop firstKeptIndex
        if tooFew settings compactedMessages.length || keptMessages.isEmpty then none
        else some {
          previousSummary :=
            (previousSummaryIndex.bind (activeMessages[·]?)).bind compactionSummaryText
          compactedMessages
          keptMessages
          firstKeptIndex
          boundaryStartIndex
          tokensBefore }

/-! ## Checkpoints -/

structure TriggerEvaluation where
  shouldCompact : Bool
  reason : Option String
  tokens : JsNumber
  triggerAt : JsNumber

/-- What a checkpoint learns from outside: how its trigger was evaluated, whether the hook lets it
compact, the summary or that it failed, and the time. -/
structure CheckpointInput where
  trigger : TriggerEvaluation
  beforeCompaction : Bool
  generateSummary : ContextCompactionPlan → Except String String
  nowMs : JsNumber
  replacementId : String

structure CheckpointMetadata where
  replacementId : String
  strategyVersion : String
  summary : String
  compactedMessages : List AgentMessage
  keptMessages : List AgentMessage
  firstKeptIndex : ℕ
  tokensBefore : JsNumber
  tokensAfter : JsNumber
  messagesBefore : ℕ
  messagesAfter : ℕ

inductive CheckpointDecision
  | skip (reason : String)
  | replaceMessages (messages : List AgentMessage) (metadata : CheckpointMetadata)

def createCompactionSummary (summary : String) (tokensBefore timestamp : JsNumber)
    (keptMessageCount : ℕ) : AgentMessage where
  fields := [("role", .string "compactionSummary"), ("summary", .string summary),
    ("tokensBefore", .number tokensBefore), ("timestamp", .number timestamp),
    ("keptMessageCount", .number (.finite keptMessageCount))]

/-- The messages in place of those that the plan compacts, and what is said of them. -/
def replacementOf (messages : List AgentMessage) (input : CheckpointInput)
    (plan : ContextCompactionPlan) (summary : String) : CheckpointDecision :=
  let replacementMessages := createCompactionSummary summary plan.tokensBefore input.nowMs
    plan.keptMessages.length :: plan.keptMessages
  .replaceMessages replacementMessages {
    replacementId := input.replacementId
    strategyVersion := settings.strategyVersion
    summary
    compactedMessages := plan.compactedMessages
    keptMessages := plan.keptMessages
    firstKeptIndex := plan.firstKeptIndex
    tokensBefore := plan.tokensBefore
    tokensAfter := tokenEstimator.estimateContextTokens replacementMessages
    messagesBefore := messages.length
    messagesAfter := replacementMessages.length }

def checkpointLocked (messages : List AgentMessage) (input : CheckpointInput) :
    CheckpointDecision :=
  if !input.trigger.shouldCompact then
    .skip (input.trigger.reason.getD "context_manager_below_threshold")
  else match selectPlan settings tokenEstimator messages input.trigger.tokens
      input.trigger.triggerAt with
    | none => .skip "context_manager_no_safe_cut_point"
    | some plan =>
      if !input.beforeCompaction then .skip "context_manager_deferred_by_plugin_hook"
      else match input.generateSummary plan with
        | .error _ => .skip "context_manager_summary_failed"
        | .ok summary =>
          if jsTrim summary = "" then .skip "context_manager_summary_empty"
          else replacementOf settings tokenEstimator messages input plan summary

/-- The messages after the decision. -/
def CheckpointDecision.apply (messages : List AgentMessage) : CheckpointDecision → List AgentMessage
  | .skip _ => messages
  | .replaceMessages messages _ => messages

/-- What the decision summarises. -/
def CheckpointDecision.summarised : CheckpointDecision → List AgentMessage
  | .skip _ => []
  | .replaceMessages _ metadata => metadata.compactedMessages

/-- Messages and what was summarised of them, in order. -/
structure Context where
  messages : List AgentMessage
  summarised : List AgentMessage := []

/-- Further messages come in, and a checkpoint is taken. -/
def Context.step (context : Context) (more : List AgentMessage) (input : CheckpointInput) :
    Context :=
  let messages := context.messages ++ more
  let decision := checkpointLocked settings tokenEstimator messages input
  { messages := decision.apply messages
    summarised := context.summarised ++ decision.summarised }

def Context.run (context : Context) : List (List AgentMessage × CheckpointInput) → Context
  | [] => context
  | (more, input) :: steps =>
    Context.run (context.step settings tokenEstimator more input) steps

end Plan

/-! ## What is promised -/

/-- The assistant message calls what the message at the index results from, and nothing between
them parts them. -/
def Answers (messages : List AgentMessage) (assistantIndex index : ℕ) : Prop :=
  assistantIndex < index ∧
    (∃ assistant result, messages[assistantIndex]? = some assistant ∧ messages[index]? = some result ∧
      assistant.hasRole "assistant" = true ∧ result.hasRole "toolResult" = true ∧
      assistantHasToolCall assistant result = true) ∧
    ∀ i message, assistantIndex < i → i < index → messages[i]? = some message →
      message.hasRole "assistant" = false ∧ isHardToolGroupBoundary message = false

/-- Every tool result answers a call. -/
def WellFormed (messages : List AgentMessage) : Prop :=
  ∀ index result, messages[index]? = some result → result.hasRole "toolResult" = true →
    ∃ assistantIndex, Answers messages assistantIndex index

/-- Inside a tool round, behind its first message. -/
def InRound (messages : List AgentMessage) (index : ℕ) : Prop :=
  ∃ assistantIndex last, Answers messages assistantIndex last ∧ assistantIndex < index ∧ index ≤ last

/-- A compaction summary comes first, if there is one. -/
def SummaryFirst (messages : List AgentMessage) : Prop :=
  ∀ index message, messages[index]? = some message → message.hasRole "compactionSummary" = true →
    index = 0 ∧ (compactionSummaryText message).isSome = true

def NoSummary (messages : List AgentMessage) : Prop :=
  ∀ message ∈ messages, message.hasRole "compactionSummary" = false

/-- The index behind a summary that comes first. -/
def afterSummaryIndex (messages : List AgentMessage) : ℕ :=
  if messages.head?.any (·.hasRole "compactionSummary") then 1 else 0

/-- The messages without a summary that comes first. -/
def afterSummary (messages : List AgentMessage) : List AgentMessage :=
  messages.drop (afterSummaryIndex messages)

/-- What the messages from the index on are estimated at. -/
def suffixTokens (tokenEstimator : TokenEstimator) (messages : List AgentMessage) (index : ℕ) : ℚ :=
  (messages.drop index).foldr (fun message tokens => tokenEstimator.estimateMessage message + tokens) 0

/-- The indexes where the messages after the summary may be cut, for what is to be kept. -/
def cuts (settings : ContextManagerSettings) (tokenEstimator : TokenEstimator)
    (messages : List AgentMessage) (triggerAt : JsNumber) : Set ℕ :=
  { index | afterSummaryIndex messages ≤ index ∧ index < messages.length ∧
    ¬InRound messages index ∧
    (effectiveKeepRecentTokens settings triggerAt).le
      (.finite (suffixTokens tokenEstimator messages index)) = true }

/-- The plan cuts the messages after the summary, at the last index where they may be cut, and no
round is cut. -/
structure Plans (settings : ContextManagerSettings) (tokenEstimator : TokenEstimator)
    (messages : List AgentMessage) (triggerAt : JsNumber) (plan : ContextCompactionPlan) : Prop where
  all : plan.compactedMessages ++ plan.keptMessages = afterSummary messages
  compacted : plan.compactedMessages.length = plan.firstKeptIndex - afterSummaryIndex messages
  greatest : IsGreatest (cuts settings tokenEstimator messages triggerAt) plan.firstKeptIndex
  rounds : ∀ assistantIndex index, Answers messages assistantIndex index →
    (assistantIndex < plan.firstKeptIndex ↔ index < plan.firstKeptIndex)

/-- Cut at the index, there are messages to compact, and not too few. -/
def LeavesEnough (settings : ContextManagerSettings) (messages : List AgentMessage) (index : ℕ) :
    Prop :=
  1 ≤ index - afterSummaryIndex messages ∧
    tooFew settings (index - afterSummaryIndex messages) = false

end ContextManager

end Kinetick
