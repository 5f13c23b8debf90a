import Kinetick.AgentMessage

/-!
# The reductions of a history

A compaction that does not fit its provider tries smaller histories: tool results replaced by a
note, media taken out, and whole closures deleted from the middle outwards. A closure is a message
or a tool round, the assistant message of some tool calls with exactly their results after it.
-/

namespace Kinetick

namespace HistoryReduction

def TOOL_RESULT_REMOVED_TEXT : String := "[Tool result removed by context compaction.]"

def MEDIA_REMOVED_TEXT : String := "[Media removed by context compaction.]"

def ELIGIBLE_TOOL_NAMES : List String :=
  ["read", "bash", "grep", "glob", "web_search", "web_fetch", "edit", "write"]

structure ToolCallIdentity where
  id : String
  name : String
  arguments : JsValue

/-- `toolCallsById` are the calls, each under its id. -/
structure ToolRound where
  assistantIndex : ℕ
  resultIndexes : List ℕ
  toolCallsById : List ToolCallIdentity
  settled : Bool

/-- The indexes of its messages. -/
abbrev HistoryClosure := List ℕ

structure ToolTrimCandidate where
  messages : List AgentMessage
  trimmedResultCount : ℕ
  trimmedRoundCount : ℕ

structure AttachmentFreeCandidate where
  messages : List AgentMessage
  replacedBlockCount : ℕ

/-- A text block. -/
def textBlock (text : String) : JsValue :=
  .object [("type", .string "text"), ("text", .string text)]

/-- A field that is a text and not blank, trimmed. -/
def readNonEmpty : JsValue → Option String
  | .string s => if jsTrim s = "" then none else some (jsTrim s)
  | _ => none

/-! ## Tool rounds -/

def readToolCall (block : JsValue) : Except String (List ToolCallIdentity) :=
  match block with
  | .undefined => .error "Cannot read properties of undefined (reading 'type')"
  | .null => .error "Cannot read properties of null (reading 'type')"
  | block =>
    if !(block.get "type").isText "toolCall" then .ok []
    else match readNonEmpty (block.get "id"), readNonEmpty (block.get "name") with
    | some id, some name => .ok [{ id, name, arguments := block.get "arguments" }]
    | _, _ => .error "Context compaction history contains an invalid tool call."

def readBlocks : List JsValue → Except String (List ToolCallIdentity)
  | [] => .ok []
  | block :: blocks => do
    let call ← readToolCall block
    let calls ← readBlocks blocks
    return call ++ calls

def readToolCalls (message : AgentMessage) : Except String (List ToolCallIdentity) :=
  match message.get "content" with
  | .array blocks => readBlocks blocks
  | _ => .error "message.content.flatMap is not a function"

def readRoundToolCalls (message : AgentMessage) :
    Except String (Option (List ToolCallIdentity)) :=
  if message.hasRole "toolResult" then
    .error "Context compaction history contains an orphan tool result."
  else if !message.hasRole "assistant" then .ok none
  else do
    let calls ← readToolCalls message
    return if calls.isEmpty then none else some calls

def indexToolCalls (calls : List ToolCallIdentity) : Except String (List ToolCallIdentity) :=
  if (calls.map (·.id)).Nodup then .ok calls
  else .error "Context compaction history contains a duplicate tool call."

def readSettledCallId (result : Option AgentMessage) (toolCallsById : List ToolCallIdentity)
    (matched : List String) : Except String String :=
  match result with
  | none => .error "Context compaction history ends before all tool results settle."
  | some result =>
    if !result.hasRole "toolResult" then
      .error "Context compaction history ends before all tool results settle."
    else match readNonEmpty (result.get "toolCallId") with
    | none => .error "Context compaction history contains an invalid tool result."
    | some callId =>
      if callId ∉ toolCallsById.map (·.id) ∨ callId ∈ matched then
        .error "Context compaction history contains an invalid tool result."
      else .ok callId

/-- The loop of `settleToolRound`: `callCount` results are to come, from `index` on. -/
def settleToolRound (allowIncompleteTail : Bool) (toolCallsById : List ToolCallIdentity) :
    (callCount : ℕ) → (matched : List String) → (index : ℕ) → (rest : List AgentMessage) →
      Except String (List ℕ × Bool)
  | 0, _, _, _ => .ok ([], true)
  | callCount + 1, matched, index, rest =>
    if rest.isEmpty && allowIncompleteTail then .ok ([], false)
    else do
      let callId ← readSettledCallId rest.head? toolCallsById matched
      let (resultIndexes, settled) ← settleToolRound allowIncompleteTail toolCallsById callCount
        (matched ++ [callId]) (index + 1) rest.tail
      return (index :: resultIndexes, settled)

/-- The loop of `parseToolRounds` from `index` on; the next `skip` messages were read already. -/
def parseFrom (allowIncompleteTail : Bool) :
    (index skip : ℕ) → (rest : List AgentMessage) → Except String (List ToolRound)
  | _, _, [] => .ok []
  | index, skip + 1, _ :: rest => parseFrom allowIncompleteTail (index + 1) skip rest
  | index, 0, message :: rest => do
    match ← readRoundToolCalls message with
    | none => parseFrom allowIncompleteTail (index + 1) 0 rest
    | some calls =>
      let toolCallsById ← indexToolCalls calls
      let (resultIndexes, settled) ←
        settleToolRound allowIncompleteTail toolCallsById calls.length [] (index + 1) rest
      let rounds ← parseFrom allowIncompleteTail (index + 1) resultIndexes.length rest
      return { assistantIndex := index, resultIndexes, toolCallsById, settled } :: rounds

def parseToolRounds (messages : List AgentMessage) (allowIncompleteTail : Bool := false) :
    Except String (List ToolRound) :=
  parseFrom allowIncompleteTail 0 0 messages

/-! ## Tool results -/

def isRemovedToolResult (message : AgentMessage) : Except String Bool :=
  match message.get "content" with
  | .undefined => .error "Cannot read properties of undefined (reading 'length')"
  | .null => .error "Cannot read properties of null (reading 'length')"
  | .array [block] => .ok ((block.get "type").isText "text" &&
      (block.get "text").isText TOOL_RESULT_REMOVED_TEXT)
  | _ => .ok false

/-- The replacement of a result of the round, if it gets one. -/
def replacement (messages : List AgentMessage) (eligible : (toolName : String) → Bool)
    (round : ToolRound) (index : ℕ) : Except String (List (ℕ × AgentMessage)) :=
  match messages[index]? with
  | none => .error "Context compaction history contains an invalid tool result."
  | some message =>
    if !message.hasRole "toolResult" then
      .error "Context compaction history contains an invalid tool result."
    else
      let call := (readNonEmpty (message.get "toolCallId")).bind fun callId =>
        round.toolCallsById.find? (·.id = callId)
      match call with
      | none => .ok []
      | some call =>
        if !eligible call.name then .ok []
        else do
          if ← isRemovedToolResult message then return []
          else return [(index, message.withContent (.array [textBlock TOOL_RESULT_REMOVED_TEXT]))]

/-- The message, or what replaces it. -/
def replaced (replacements : List (ℕ × AgentMessage)) (messages : List AgentMessage) :
    List AgentMessage :=
  messages.mapIdx fun index message =>
    ((replacements.find? (·.1 = index)).map (·.2)).getD message

/-- `eligible` by the position of the round and the tool's name. -/
def buildToolResultCandidate (messages : List AgentMessage) (rounds : List ToolRound)
    (eligible : (position : ℕ) → (toolName : String) → Bool) : Except String ToolTrimCandidate := do
  let replacements ← rounds.zipIdx.mapM fun (round, position) =>
    return (← round.resultIndexes.mapM (replacement messages (eligible position) round)).flatten
  return {
    messages := replaced replacements.flatten messages
    trimmedResultCount := replacements.flatten.length
    trimmedRoundCount := (replacements.filter fun r => !r.isEmpty).length }

/-- Of the characters `toLowerCase` makes a letter of ASCII, only those of ASCII are in the names
this is compared with. -/
def canonicalToolName (name : String) : String :=
  let normalized := (jsTrim name).toLower
  if normalized = "powershell" ∨ normalized = "powershell.exe" ∨ normalized = "pwsh" ∨
    normalized = "pwsh.exe" then "bash" else normalized

/-- `Math.ceil(count * PROTECTED_TOOL_ROUND_RATIO)` -/
def protectedRoundCount (count : ℕ) : ℕ := (3 * count + 9) / 10

def buildToolTrimCandidate (messages : List AgentMessage) : Except String ToolTrimCandidate := do
  let rounds ← parseToolRounds messages
  let trimmable := rounds.length - protectedRoundCount rounds.length
  buildToolResultCandidate messages rounds fun position toolName =>
    position < trimmable && ELIGIBLE_TOOL_NAMES.contains (canonicalToolName toolName)

def buildAllToolResultsCandidate (messages : List AgentMessage) :
    Except String ToolTrimCandidate := do
  let rounds ← parseToolRounds messages
  buildToolResultCandidate messages rounds fun _ _ => true

/-! ## Media -/

def isStructuredMediaBlock (block : JsValue) : Bool :=
  (block.get "type").isText "image" || (block.get "type").isText "video"

/-- The blocks that are not media, or a note in their place. -/
def withoutMedia (blocks : List JsValue) : List JsValue :=
  let next := blocks.filter fun block => !isStructuredMediaBlock block
  if next.isEmpty then [textBlock MEDIA_REMOVED_TEXT] else next

def attachmentFree (message : AgentMessage) : AgentMessage :=
  match message.get "content" with
  | .array blocks =>
    if blocks.any isStructuredMediaBlock then message.withContent (.array (withoutMedia blocks))
    else message
  | _ => message

def mediaBlockCount (message : AgentMessage) : ℕ :=
  match message.get "content" with
  | .array blocks => blocks.countP isStructuredMediaBlock
  | _ => 0

def buildAttachmentFreeCandidate (messages : List AgentMessage) : AttachmentFreeCandidate where
  messages := messages.map attachmentFree
  replacedBlockCount := (messages.map mediaBlockCount).foldl (· + ·) 0

/-! ## Closures -/

/-- The loop of `buildHistoryClosures` from `index` on. -/
def closuresFrom (rounds : List ToolRound) :
    (index skip : ℕ) → (rest : List AgentMessage) → List HistoryClosure
  | _, _, [] => []
  | index, skip + 1, _ :: rest => closuresFrom rounds (index + 1) skip rest
  | index, 0, _ :: rest =>
    match rounds.find? (·.assistantIndex = index) with
    | none => [index] :: closuresFrom rounds (index + 1) 0 rest
    | some round => (round.assistantIndex :: round.resultIndexes) ::
        closuresFrom rounds (index + 1) round.resultIndexes.length rest

def buildHistoryClosures (messages : List AgentMessage) : Except String (List HistoryClosure) := do
  let rounds ← parseToolRounds messages
  return closuresFrom rounds 0 0 messages

/-- The closure at the position is the first or has a user message. -/
def isProtected (messages : List AgentMessage) (closures : List HistoryClosure) (position : ℕ) :
    Bool :=
  position = 0 || (closures[position]?.getD []).any fun index =>
    (messages[index]?).any fun message => message.hasRole "user"

/-- What a distance from the middle adds to the order. -/
def atDistance (closureIndexes : List ℕ) (middle distance : ℕ) : List ℕ :=
  (if distance ≤ middle then closureIndexes[middle - distance]?.toList else []) ++
    if distance = 0 then [] else closureIndexes[middle + distance]?.toList

/-- The loop of `middleOutOrder`, for so many distances at most. -/
def middleOutFrom (closureIndexes : List ℕ) (middle : ℕ) :
    (fuel distance : ℕ) → (order : List ℕ) → List ℕ
  | 0, _, order => order
  | fuel + 1, distance, order =>
    if order.length < closureIndexes.length then
      middleOutFrom closureIndexes middle fuel (distance + 1)
        (order ++ atDistance closureIndexes middle distance)
    else order

def middleOutOrder (closureIndexes : List ℕ) : List ℕ :=
  middleOutFrom closureIndexes ((closureIndexes.length - 1) / 2) (closureIndexes.length + 1) 0 []

/-- The messages whose index is kept. -/
def keeping (keep : ℕ → Bool) (messages : List AgentMessage) : List AgentMessage :=
  (messages.zipIdx.filter fun entry => keep entry.2).map (·.1)

/-- The loop of `buildMiddleDeletionCandidate`. -/
def deleteUntilFits (messages : List AgentMessage) (closures : List HistoryClosure)
    (fits : List AgentMessage → Bool) :
    (deletionOrder removedIndexes : List ℕ) → Except String (Option (List AgentMessage))
  | [], _ => .ok none
  | position :: deletionOrder, removedIndexes => do
    let removedIndexes := removedIndexes ++ closures[position]?.getD []
    let candidate := keeping (fun index => !removedIndexes.contains index) messages
    let _ ← parseToolRounds candidate
    if fits candidate then return some candidate
    else deleteUntilFits messages closures fits deletionOrder removedIndexes

/-- The positions of the closures that may be deleted. -/
def deletablePositions (messages : List AgentMessage) (closures : List HistoryClosure) : List ℕ :=
  (List.range closures.length).filter fun position => !isProtected messages closures position

def buildMiddleDeletionCandidate (messages : List AgentMessage)
    (fits : List AgentMessage → Bool) : Except String (Option (List AgentMessage)) := do
  let closures ← buildHistoryClosures messages
  deleteUntilFits messages closures fits (middleOutOrder (deletablePositions messages closures)) []

def buildProtectedSkeletonCandidate (messages : List AgentMessage) :
    Except String (List AgentMessage) := do
  let closures ← buildHistoryClosures messages
  let keptIndexes := (List.range closures.length).flatMap fun position =>
    if isProtected messages closures position then closures[position]?.getD [] else []
  return keeping keptIndexes.contains messages

end HistoryReduction

end Kinetick

/-!
## What the reductions keep of a history

The candidates are chained as the compaction's ladder does, each built from the last.
-/

namespace Kinetick

namespace HistoryReduction

/-- The ids of the calls. -/
def ToolRound.callIds (round : ToolRound) : List String := round.toolCallsById.map (·.id)

/-- The ids the round's results answer. -/
def ToolRound.resultIds (messages : List AgentMessage) (round : ToolRound) :
    List (Option String) :=
  round.resultIndexes.map fun index =>
    messages[index]?.bind fun message => readNonEmpty (message.get "toolCallId")

/-- The call and result ids of the rounds. -/
def roundIds (messages : List AgentMessage) (rounds : List ToolRound) :
    List (List String × List (Option String)) :=
  rounds.map fun round => (ToolRound.callIds round, ToolRound.resultIds messages round)

/-- A history built from another by any reductions in any order. -/
inductive Ladder (history : List AgentMessage) : List AgentMessage → Prop
  | start : Ladder history history
  | toolTrim {messages candidate} (h : Ladder history messages)
      (hbuild : buildToolTrimCandidate messages = .ok candidate) :
      Ladder history candidate.messages
  | allToolResults {messages candidate} (h : Ladder history messages)
      (hbuild : buildAllToolResultsCandidate messages = .ok candidate) :
      Ladder history candidate.messages
  | attachmentFree {messages} (h : Ladder history messages) :
      Ladder history (buildAttachmentFreeCandidate messages).messages
  | middleDeletion {messages fits candidate} (h : Ladder history messages)
      (hbuild : buildMiddleDeletionCandidate messages fits = .ok (some candidate)) :
      Ladder history candidate
  | protectedSkeleton {messages candidate} (h : Ladder history messages)
      (hbuild : buildProtectedSkeletonCandidate messages = .ok candidate) :
      Ladder history candidate

/-- Message for message, the same in all fields but the content, and that is as said. -/
def Rewrites (change : AgentMessage → JsValue → Prop) (messages messages' : List AgentMessage) :
    Prop :=
  messages'.length = messages.length ∧
    ∀ (i : ℕ) (m m' : AgentMessage), messages[i]? = some m → messages'[i]? = some m' →
      m' = m ∨ change m (m'.get "content") ∧ ∀ key ≠ "content", m'.get key = m.get key

/-- A tool result's text is the note of its removal. -/
def TrimsResult (m : AgentMessage) (content : JsValue) : Prop :=
  m.hasRole "toolResult" = true ∧ content = .array [textBlock TOOL_RESULT_REMOVED_TEXT]

/-- The media blocks are gone. -/
def DropsMedia (m : AgentMessage) (content : JsValue) : Prop :=
  ∃ blocks, m.get "content" = .array blocks ∧ content = .array (withoutMedia blocks)

/-- The history without the closures at the positions. -/
def without (messages : List AgentMessage) (closures : List HistoryClosure) (positions : List ℕ) :
    List AgentMessage :=
  keeping (fun index => !(positions.flatMap fun p => closures[p]?.getD []).contains index) messages

/-- What a middle deletion removes: closures as a whole, so that a tool round is removed as a whole
or not at all, and neither the first closure nor a user message. -/
structure RemovesClosures (messages : List AgentMessage) (rounds : List ToolRound)
    (closures : List HistoryClosure) (removed : List ℕ) : Prop where
  closure : ∀ closure ∈ closures, (∀ i ∈ closure, i ∈ removed) ∨ ∀ i ∈ closure, i ∉ removed
  round : ∀ round ∈ rounds, round.assistantIndex :: round.resultIndexes ∈ closures
  first : ∀ i ∈ closures[0]?.getD [], i ∉ removed
  user : ∀ (i : ℕ) (m : AgentMessage), messages[i]? = some m → m.hasRole "user" = true → i ∉ removed

/-- The middle deletion tries the prefixes of its order, from one closure on, and answers the first
that fits. -/
structure DeletesMiddle (messages : List AgentMessage) (rounds : List ToolRound)
    (fits : List AgentMessage → Bool) (closures : List HistoryClosure)
    (answer : Option (List AgentMessage)) : Prop where
  /-- The closures are the history's messages, in order. -/
  partition : closures.flatten = List.range messages.length
  order : (middleOutOrder (deletablePositions messages closures)).Perm
    (deletablePositions messages closures)
  some : ∀ candidate, answer = some candidate → fits candidate = true ∧
    candidate.Sublist messages ∧
    ∃ k, 0 < k ∧ candidate =
        without messages closures ((middleOutOrder (deletablePositions messages closures)).take k) ∧
      RemovesClosures messages rounds closures
        (((middleOutOrder (deletablePositions messages closures)).take k).flatMap fun p =>
          closures[p]?.getD [])
  none : answer = none → ∀ k, 0 < k →
    k ≤ (middleOutOrder (deletablePositions messages closures)).length →
    fits (without messages closures
      ((middleOutOrder (deletablePositions messages closures)).take k)) = false

end HistoryReduction

end Kinetick
