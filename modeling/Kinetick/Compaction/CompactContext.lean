import Kinetick.Compaction.HistoryReduction
import Kinetick.Effect

/-!
# The ladder of a checkpoint

A checkpoint of a history is generated by the provider from the first candidate that it accepts: the
history as it is, with fewer tool results, without media, without its middle, and at last the latest
query alone. A candidate that does not fit is not sent, one that overflows is followed by the next,
and one refused for its media by the same history without them.
-/

namespace Kinetick

namespace CompactContext

open HistoryReduction

/-! ## The latest query -/

/-- `text.slice(startOffset, endOffset)`, with U+FFFD for half a character at either end. -/
def sliceUnits (startOffset endOffset : ℕ) : (offset : ℕ) → List Char → List Char
  | _, [] => []
  | offset, c :: text =>
    let next := offset + (CodeUnits.ofText (String.ofList [c])).length
    let rest := sliceUnits startOffset endOffset next text
    if next ≤ startOffset ∨ endOffset ≤ offset then rest
    else if startOffset ≤ offset ∧ next ≤ endOffset then c :: rest
    else Char.ofNat 0xfffd :: rest

def readSingleText (message : AgentMessage) : Option String :=
  match message.get "content" with
  | .string text => some text
  | .array blocks =>
    match blocks.filter fun block => (block.get "type").isText "text" with
    | [block] =>
      match block.get "text" with
      | .string text => some text
      | _ => none
    | _ => none
  | _ => none

def readCanonicalRangeText (message : AgentMessage) : Option String := do
  let content ← readSingleText message
  let range := message.get "canonicalTextRange"
  let startOffset ← (range.get "startOffset").safeInteger
  let endOffset ← (range.get "endOffset").safeInteger
  if content = "" ∨ startOffset < 0 ∨ endOffset < startOffset ∨
    (CodeUnits.ofText content).length < endOffset then none
  else some (String.ofList (sliceUnits startOffset.toNat endOffset.toNat 0 content.toList))

def readGenuineUserQueryText (message : AgentMessage) : Option String :=
  if message.hasOwn "genuineUserQueryText" then
    match message.get "genuineUserQueryText" with
    | .string text => some text
    | _ => none
  else if !message.hasOwn "canonicalTextRange" then none
  else readCanonicalRangeText message

/-- `/^\/compact(?:\s|$)/iu` -/
def isCompactCommand (text : List Char) : Bool :=
  (text.take 8).map Char.toLower = "/compact".toList && (text.drop 8).head?.all isJsWhitespace

def isUserQueryCandidate (message : AgentMessage) : Bool :=
  message.hasRole "user" && !(message.get "archonCompaction").truthy

def hasUserQueryProvenance (message : AgentMessage) : Bool :=
  message.hasOwn "genuineUserQueryText" || message.hasOwn "canonicalTextRange"

/-- The query of the message, if it is a genuine one. -/
def genuineUserQueryText (message : AgentMessage) : Option String :=
  if !isUserQueryCandidate message || !hasUserQueryProvenance message then none
  else (readGenuineUserQueryText message).filter fun queryText =>
    jsTrim queryText ≠ "" && !isCompactCommand (jsTrim queryText).toList

def findLatestGenuineUserQueryText (messages : List AgentMessage) : Option String :=
  messages.reverse.findSome? genuineUserQueryText

def buildMinimalGenuineQueryCandidate (messages : List AgentMessage) :
    Option (List AgentMessage) :=
  (findLatestGenuineUserQueryText messages).map fun text =>
    [{ fields := [("role", .string "user"), ("content", .array [textBlock text]),
        ("timestamp", .number (.finite 0))] }]

/-! ## The provider -/

inductive CheckpointCandidate
  | h0
  | htrim
  | hall
  | hvideo
  | hmid
  | hmin
  deriving DecidableEq

inductive CheckpointStopReason
  | stop
  | length
  | toolUse
  | error
  | aborted
  deriving DecidableEq

structure CheckpointGeneration where
  text : String
  responseContentKinds : List String
  stopReason : CheckpointStopReason
  outputTokens : JsNumber

inductive CheckpointCandidateTooLargeReason
  | inputOverflow
  | outputExhausted

/-- What is thrown: `CheckpointCandidateTooLargeError`, `CheckpointCandidateMediaRejectedError`, a
`ContextCompactionError` of the stage `llm_checkpoint`, the signal's reason, or something else. -/
inductive Thrown
  | candidateTooLarge (reason : CheckpointCandidateTooLargeReason)
  | candidateMediaRejected
  | contextCompaction (code message : String) (cause : Option Thrown)
  | aborted
  | other (message : String)

def Thrown.isTooLarge : Thrown → Bool
  | .candidateTooLarge _ => true
  | _ => false

structure CheckpointRequestInput where
  messages : List AgentMessage
  instructions : Option String

/-- `generate` is what the provider answers, by how many requests were sent before. -/
structure CheckpointSession where
  maxOutputTokens : JsNumber
  fits : CheckpointRequestInput → Bool
  generate : (sent : ℕ) → Except Thrown CheckpointGeneration

/-- `aborted` is what the signal shows, by how often it was looked at before. -/
structure CompactContextInput where
  history : List AgentMessage
  openSession : Except Thrown CheckpointSession
  getTokenUsage : (sent : ℕ) → Option JsValue
  aborted : (looks : ℕ) → Bool

inductive CheckpointAttemptOutcome
  | generated
  | inputTooLarge
  | outputExhausted
  | aborted
  | failed

structure CheckpointAttemptMetadata where
  candidate : CheckpointCandidate
  attemptNumber : ℕ
  outcome : CheckpointAttemptOutcome
  inputMessageCount : ℕ

/-- A request that was sent, for which candidate, and what came of it. -/
structure SentRequest where
  candidate : CheckpointCandidate
  request : CheckpointRequestInput
  answer : Except Thrown CheckpointGeneration

structure LadderState where
  requests : List SentRequest := []
  reports : List CheckpointAttemptMetadata := []
  counter : ℕ := 0
  looks : ℕ := 0

abbrev LadderM := Effect LadderState Thrown

structure CheckpointResult where
  generation : CheckpointGeneration
  attempts : ℕ
  maxOutputTokens : JsNumber
  hmidOverflowRecovered : Bool
  tokenUsage : Option JsValue

/-- A candidate with its messages. -/
structure Rung where
  candidate : CheckpointCandidate
  messages : List AgentMessage

/-! ## Attempts -/

section Ladder

variable (input : CompactContextInput) (session : CheckpointSession) (instructions : Option String)

/-- `input.signal?.aborted` -/
def lookAtSignal : LadderM Bool :=
  fun s => (.ok (input.aborted s.looks), { s with looks := s.looks + 1 })

def throwIfAborted : LadderM Unit := do
  if ← lookAtSignal input then Effect.raise .aborted else return ()

def checkpointRequest (messages : List AgentMessage) : CheckpointRequestInput where
  messages
  instructions := instructions.filter (· ≠ "")

/-- `session.generate` -/
def send (rung : Rung) : LadderM CheckpointGeneration := fun s =>
  let answer := session.generate s.requests.length
  let sent : SentRequest :=
    { candidate := rung.candidate, request := checkpointRequest instructions rung.messages, answer }
  (answer, { s with requests := s.requests ++ [sent] })

def reportCheckpointAttempt (metadata : CheckpointAttemptMetadata) : LadderM Unit :=
  Effect.change fun s => { s with reports := s.reports ++ [metadata] }

def checkpointAttemptOutcome : CheckpointStopReason → CheckpointAttemptOutcome
  | .aborted => .aborted
  | .error => .failed
  | _ => .generated

/-- The outcome of a request that threw. -/
def thrownOutcome : Thrown → LadderM CheckpointAttemptOutcome
  | .candidateTooLarge .outputExhausted => pure .outputExhausted
  | .candidateTooLarge .inputOverflow => pure .inputTooLarge
  | _ => do return if ← lookAtSignal input then .aborted else .failed

def generateCheckpointAttempt (rung : Rung) (attemptNumber : ℕ) : LadderM CheckpointGeneration := do
  match ← (send session instructions rung).attempt with
  | .ok generation =>
    reportCheckpointAttempt
      { candidate := rung.candidate, attemptNumber,
        outcome := checkpointAttemptOutcome generation.stopReason,
        inputMessageCount := rung.messages.length }
    return generation
  | .error cause =>
    let outcome ← thrownOutcome input cause
    reportCheckpointAttempt
      { candidate := rung.candidate, attemptNumber, outcome,
        inputMessageCount := rung.messages.length }
    Effect.raise cause

/-- `counter.value += 1` -/
def countAttempt : LadderM ℕ := fun s => (.ok (s.counter + 1), { s with counter := s.counter + 1 })

def generateCandidateWithProviderRetry (rung : Rung) : LadderM (CheckpointGeneration × ℕ) := do
  let attemptNumber ← countAttempt
  let first ← generateCheckpointAttempt input session instructions rung attemptNumber
  if first.stopReason ≠ .error then return (first, attemptNumber)
  else
    throwIfAborted input
    let attemptNumber ← countAttempt
    let second ← generateCheckpointAttempt input session instructions rung attemptNumber
    if second.stopReason ≠ .error then return (second, attemptNumber)
    else
      Effect.raise (.contextCompaction "CHECKPOINT_PROVIDER_FAILED"
        "Checkpoint Provider request failed after one retry." none)

/-- The body of each `try`. -/
def generateRung (rung : Rung) (hmidOverflowRecovered : Bool) : LadderM CheckpointResult := do
  let (generation, attempts) ← generateCandidateWithProviderRetry input session instructions rung
  let sent ← Effect.read (·.requests.length)
  return {
    generation
    attempts
    maxOutputTokens := session.maxOutputTokens
    hmidOverflowRecovered
    tokenUsage := input.getTokenUsage sent }

/-- `catch`, of a candidate that is too large. -/
def orTooLarge (m : LadderM CheckpointResult) (handler : Thrown → LadderM CheckpointResult) :
    LadderM CheckpointResult := do
  match ← m.attempt with
  | .ok result => return result
  | .error cause => if cause.isTooLarge then handler cause else Effect.raise cause

/-! ## The ladder -/

def inputTooLarge (cause : Option Thrown) : Thrown :=
  .contextCompaction "COMPACTION_INPUT_TOO_LARGE"
    "Context is too large for bounded checkpoint generation." cause

def mediaRejectedProviderFailure (cause : Thrown) : Thrown :=
  .contextCompaction "CHECKPOINT_PROVIDER_FAILED"
    "Checkpoint Provider rejected the request for carrying too many images." (some cause)

def generateHminCheckpoint (attachmentFreeMessages : List AgentMessage) (overflow : Option Thrown) :
    LadderM CheckpointResult := do
  throwIfAborted input
  match buildMinimalGenuineQueryCandidate attachmentFreeMessages with
  | none => Effect.raise (inputTooLarge overflow)
  | some hmin =>
    if !session.fits (checkpointRequest instructions hmin) then
      Effect.raise (inputTooLarge overflow)
    else
      throwIfAborted input
      orTooLarge (generateRung input session instructions ⟨.hmin, hmin⟩ overflow.isSome)
        fun cause => Effect.raise (inputTooLarge (some cause))

/-- `recoverAfterHall` from the middle deletion on. -/
def recoverAfterHvideo (attachmentFreeMessages : List AgentMessage) (overflow : Option Thrown) :
    LadderM CheckpointResult := do
  match ← Effect.ofExcept ((buildMiddleDeletionCandidate attachmentFreeMessages fun messages =>
    session.fits (checkpointRequest instructions messages)).mapError .other) with
  | none => generateHminCheckpoint input session instructions attachmentFreeMessages overflow
  | some hmid =>
    throwIfAborted input
    orTooLarge (generateRung input session instructions ⟨.hmid, hmid⟩ false) fun cause =>
      generateHminCheckpoint input session instructions attachmentFreeMessages (some cause)

def recoverAfterHall (hallMessages : List AgentMessage) (priorOverflow : Option Thrown)
    (skipHvideo : Bool) : LadderM CheckpointResult := do
  throwIfAborted input
  let hvideo := buildAttachmentFreeCandidate hallMessages
  if !skipHvideo && 0 < hvideo.replacedBlockCount &&
      session.fits (checkpointRequest instructions hvideo.messages) then
    throwIfAborted input
    orTooLarge (generateRung input session instructions ⟨.hvideo, hvideo.messages⟩ false)
      fun cause => recoverAfterHvideo input session instructions hvideo.messages (some cause)
  else recoverAfterHvideo input session instructions hvideo.messages priorOverflow

/-- The body of the outer `try` of `recoverAfterMediaRejection`. -/
def recoverWithoutMedia (attachmentFreeMessages hallMessages : List AgentMessage)
    (hallIsDistinct : Bool) (priorOverflow : Option Thrown) : LadderM CheckpointResult :=
  if session.fits (checkpointRequest instructions attachmentFreeMessages) then
    orTooLarge (generateRung input session instructions ⟨.hvideo, attachmentFreeMessages⟩ false)
      fun next => recoverAfterHall input session instructions hallMessages (some next)
        (!hallIsDistinct)
  else recoverAfterHall input session instructions hallMessages priorOverflow false

def recoverAfterMediaRejection (rejectedMessages hallMessages : List AgentMessage)
    (hallIsDistinct : Bool) (priorOverflow : Option Thrown) (cause : Thrown) :
    LadderM CheckpointResult := do
  throwIfAborted input
  let attachmentFree := buildAttachmentFreeCandidate rejectedMessages
  if attachmentFree.replacedBlockCount = 0 then Effect.raise (mediaRejectedProviderFailure cause)
  else
    match ← (recoverWithoutMedia input session instructions attachmentFree.messages hallMessages
      hallIsDistinct priorOverflow).attempt with
    | .ok result => return result
    | .error .candidateMediaRejected =>
      Effect.raise (mediaRejectedProviderFailure .candidateMediaRejected)
    | .error next => Effect.raise next

/-- The loop of `generateCheckpoint`. Of the candidates only Hall has the messages of `hall`, where
it is one. -/
def generateFirst (hall : ToolTrimCandidate) :
    List Rung → (overflow : Option Thrown) → LadderM CheckpointResult
  | [], overflow => recoverAfterHall input session instructions hall.messages overflow false
  | rung :: rungs, overflow => do
    throwIfAborted input
    if !session.fits (checkpointRequest instructions rung.messages) then
      generateFirst hall rungs overflow
    else
      match ← (generateRung input session instructions rung false).attempt with
      | .ok result => return result
      | .error .candidateMediaRejected =>
        recoverAfterMediaRejection input session instructions rung.messages hall.messages
          (0 < hall.trimmedResultCount && rung.candidate ≠ .hall) overflow .candidateMediaRejected
      | .error cause =>
        if cause.isTooLarge then generateFirst hall rungs (some cause) else Effect.raise cause

end Ladder

/-- `ToolResultCompactionCandidate | ToolTrimCandidate` -/
inductive ReductionCandidate
  | archived (messages : List AgentMessage) (archivedResultCount : ℕ)
  | trimmed (messages : List AgentMessage) (trimmedResultCount : ℕ)

def ReductionCandidate.messages : ReductionCandidate → List AgentMessage
  | archived messages _ => messages
  | trimmed messages _ => messages

def toolResultReplacementCount : ReductionCandidate → ℕ
  | .archived _ archivedResultCount => archivedResultCount
  | .trimmed _ trimmedResultCount => trimmedResultCount

/-- The candidates before Hall. -/
def rungsBeforeHall (history : List AgentMessage) (candidate : Option ReductionCandidate) :
    List Rung :=
  ⟨.h0, history⟩ :: (candidate.filter fun candidate => 0 < toolResultReplacementCount candidate).elim
    [] fun candidate => [⟨.htrim, candidate.messages⟩]

/-- `buildAllToolResultsCandidate(checkpointCandidates.at(-1)?.messages ?? input.history)` -/
def buildHall (history : List AgentMessage) (candidate : Option ReductionCandidate) :
    Except String ToolTrimCandidate :=
  buildAllToolResultsCandidate
    (((rungsBeforeHall history candidate).getLast?.map (·.messages)).getD history)

/-- Hall, if it differs from the candidate before. -/
def hallRungs (hall : ToolTrimCandidate) : List Rung :=
  if 0 < hall.trimmedResultCount then [⟨.hall, hall.messages⟩] else []

def validateNonNegativeSafeInteger (value : JsNumber) (field : String) : Except Thrown Unit :=
  if (JsValue.number value).safeInteger.any (0 ≤ ·) then .ok ()
  else .error (.other s!"Context compaction {field} must be a non-negative safe integer.")

def generateCheckpoint (input : CompactContextInput) (candidate : Option ReductionCandidate)
    (instructions : Option String) : LadderM CheckpointResult := do
  let session ← Effect.ofExcept input.openSession
  Effect.ofExcept (validateNonNegativeSafeInteger session.maxOutputTokens "maxOutputTokens")
  let hall ← Effect.ofExcept ((buildHall input.history candidate).mapError .other)
  generateFirst input session instructions hall
    (rungsBeforeHall input.history candidate ++ hallRungs hall) none

/-! ## What is promised -/

/-- The candidate of a request: its place in the ladder, and its messages field by field. -/
def candidateOf (candidate : CheckpointCandidate) (messages : List AgentMessage) :
    CheckpointCandidate × List (String → JsValue) :=
  (candidate, messages.map AgentMessage.get)

def SentRequest.sentFor (sent : SentRequest) : CheckpointCandidate × List (String → JsValue) :=
  candidateOf sent.candidate sent.request.messages

/-- The provider answered with the stop reason `error`. -/
def SentRequest.Failed (sent : SentRequest) : Prop :=
  ∃ generation, sent.answer = .ok generation ∧ generation.stopReason = .error

def SentRequest.Overflowed (sent : SentRequest) : Prop :=
  ∃ reason, sent.answer = .error (.candidateTooLarge reason)

/-- What was sent fits; a candidate is sent again only right after it failed, and so not a third
time, and never after it overflowed; the attempts are numbered; and there are at most two for each
of the candidates. -/
structure Bounded (fits : CheckpointRequestInput → Bool) (s : LadderState) : Prop where
  fits : ∀ sent ∈ s.requests, fits sent.request = true
  again : ∀ before first between second after,
    s.requests = before ++ first :: (between ++ second :: after) →
    first.sentFor = second.sentFor → between = [] ∧ first.Failed
  overflowed : ∀ before first after, s.requests = before ++ first :: after → first.Overflowed →
    ∀ later ∈ after, later.sentFor ≠ first.sentFor
  attempts : s.reports.map (fun report => (report.candidate, report.attemptNumber)) =
    (s.requests.map (·.candidate)).zipIdx 1
  count : ∀ candidates : List (CheckpointCandidate × List (String → JsValue)),
    (∀ sent ∈ s.requests, sent.sentFor ∈ candidates) →
    s.requests.length ≤ 2 * candidates.length

/-- Hall cleared a result and carries media, but without them it is what a candidate before it, that
carries media too, is without them; and all of these fit. -/
def HallSentAgain (history : List AgentMessage) (candidate : Option ReductionCandidate)
    (instructions : Option String) (fits : CheckpointRequestInput → Bool) : Prop :=
  ∃ hall, buildHall history candidate = .ok hall ∧ 0 < hall.trimmedResultCount ∧
    ∃ rejected ∈ rungsBeforeHall history candidate,
      fits (checkpointRequest instructions rejected.messages) = true ∧
      0 < (buildAttachmentFreeCandidate rejected.messages).replacedBlockCount ∧
      fits (checkpointRequest instructions
        (buildAttachmentFreeCandidate rejected.messages).messages) = true ∧
      0 < (buildAttachmentFreeCandidate hall.messages).replacedBlockCount ∧
      fits (checkpointRequest instructions
        (buildAttachmentFreeCandidate hall.messages).messages) = true ∧
      (buildAttachmentFreeCandidate rejected.messages).messages.map AgentMessage.get =
        (buildAttachmentFreeCandidate hall.messages).messages.map AgentMessage.get

end CompactContext

end Kinetick
