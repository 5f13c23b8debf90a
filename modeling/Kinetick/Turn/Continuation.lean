import Kinetick.Machine
import Kinetick.Turn.CanonicalMessage

/-!
# Continuing an interrupted Turn

What a Session's canonical history says of its last Turn, and the transcript the Turn is continued
with: the tail is left out where it is an assistant's message, as the attempt that was interrupted.
The histories are those that Turns build message by message, each ended anywhere and continued any
number of times.
-/

namespace Kinetick

inductive CanonicalContinuationState
  | unavailable
  | available
  | waitingForUser
  deriving DecidableEq

/-- `CanonicalHistorySnapshot` -/
structure CanonicalHistorySnapshot where
  revision : String
  messages : List AgentMessage
  identityVector : Option (List String)

inductive ContinuationError
  | validation (field : CanonicalHistory.ValidationField)
  | unavailable (state : CanonicalContinuationState)

namespace CanonicalHistory

open HistorySequence (isPlainRecord tolerantAssistantToolCallIds nonEmptyString)

open Jsonl (NumberFormat)

section Inspection

variable (format : NumberFormat)

def validateCanonicalHistoryMessages (messages : List AgentMessage) :
    Except ContinuationError Unit :=
  if messages.all (isCanonicalMessage format) then .ok () else .error (.validation .message)

def validateCanonicalHistorySnapshot (snapshot : CanonicalHistorySnapshot) :
    Except ContinuationError Unit :=
  if jsTrim snapshot.revision = "" then .error (.validation .revision)
  else validateCanonicalHistoryMessages format snapshot.messages

/-- The last of the first messages that is no read settlement, and its index. -/
def tailBefore (messages : List AgentMessage) : (count : ℕ) → Option (ℕ × AgentMessage)
  | 0 => none
  | index + 1 =>
    match messages[index]? with
    | some message =>
      if isBackgroundTaskReadSettlement message then tailBefore messages index
      else some (index, message)
    | none => tailBefore messages index

def continuationTail (messages : List AgentMessage) : Option (ℕ × AgentMessage) :=
  tailBefore messages messages.length

def isWaitingForUser (message : AgentMessage) : Bool :=
  let details := message.get "details"
  (message.get "toolName").isText "ask_user" ||
    isPlainRecord details &&
      match details.get "waiting_for_user" with
      | .boolean waiting => waiting
      | _ => false

/-- The state that the tail tells of. -/
def tailState : Option AgentMessage → CanonicalContinuationState
  | none => .unavailable
  | some last =>
    if last.hasRole "compactionSummary" then .unavailable
    else if last.hasRole "toolResult" && isWaitingForUser last then .waitingForUser
    else if !last.hasRole "assistant" then .available
    else if (last.get "stopReason").isText "stop" then .unavailable
    else .available

def inspectContinuationHistory (messages : List AgentMessage) :
    Except ContinuationError CanonicalContinuationState := do
  validateCanonicalHistoryMessages format messages
  return tailState ((continuationTail messages).map Prod.snd)

/-- `elements.filter((_, index) => index !== tail.index)` -/
def withoutIndex {α : Type} (index : ℕ) (elements : List α) : List α := elements.eraseIdx index

/-- The snapshot without an interrupted attempt at its end. -/
def withoutAttempt (snapshot : CanonicalHistorySnapshot) : CanonicalHistorySnapshot :=
  match continuationTail snapshot.messages with
  | none => snapshot
  | some (index, message) =>
    if !message.hasRole "assistant" then snapshot
    else { snapshot with
      messages := withoutIndex index snapshot.messages
      identityVector := snapshot.identityVector.map (withoutIndex index) }

def continuationRunnerHistory (snapshot : CanonicalHistorySnapshot) :
    Except ContinuationError CanonicalHistorySnapshot := do
  validateCanonicalHistorySnapshot format snapshot
  let state ← inspectContinuationHistory format snapshot.messages
  if state ≠ .available then .error (.unavailable state)
  else return withoutAttempt snapshot

end Inspection

/-! ## Histories that Turns build -/

/-- A Session: its canonical history, and the transcript of the Turn that runs. -/
structure ContinuedSession where
  snapshot : CanonicalHistorySnapshot
  transcript : Option (List AgentMessage)

/-- The calls of the last assistant's message. -/
def lastCalls : List AgentMessage → List String
  | [] => []
  | message :: messages =>
    if messages.any (·.hasRole "assistant") then lastCalls messages
    else tolerantAssistantToolCallIds message

/-- A message as it is recorded: its identity, and the revision the history has then. -/
structure Recording where
  message : AgentMessage
  messageId : String
  revision : String

inductive ContinuationEvent
  /-- A Turn starts with a user's message. -/
  | prompt (recording : Recording)
  /-- A Turn is continued: Pi takes no transcript that ends in an assistant's message. -/
  | resume
  /-- The model responds, to its end or to where it is interrupted. -/
  | respond (recording : Recording)
  /-- A tool call of the last response has its result. -/
  | answer (recording : Recording)
  /-- Anything else is recorded, read settlements among it, whether a Turn runs or not. -/
  | note (recording : Recording)
  /-- The Turn that runs ends, wherever it is. -/
  | finish

/-- The history with one more message. -/
def recorded (snapshot : CanonicalHistorySnapshot) (recording : Recording) :
    CanonicalHistorySnapshot where
  revision := recording.revision
  messages := snapshot.messages ++ [recording.message]
  identityVector := snapshot.identityVector.map (· ++ [recording.messageId])

/-- A transcript that the model may respond to. -/
def mayRespond (transcript : List AgentMessage) : Bool :=
  !transcript.getLast?.any (·.hasRole "assistant")

section System

variable (format : NumberFormat)

/-- The store takes canonical messages, at a revision that is not blank. -/
def recordable (recording : Recording) : Bool :=
  isCanonicalMessage format recording.message && jsTrim recording.revision ≠ ""

/-- What may happen in the state. -/
def enabled (s : ContinuedSession) : ContinuationEvent → Bool
  | .prompt r => s.transcript.isNone && recordable format r && r.message.hasRole "user"
  | .resume => s.transcript.isNone
  | .respond r =>
    s.transcript.any mayRespond && recordable format r && r.message.hasRole "assistant"
  | .answer r =>
    (s.transcript.any fun transcript =>
      (nonEmptyString (r.message.get "toolCallId")).any (· ∈ lastCalls transcript)) &&
    recordable format r && r.message.hasRole "toolResult"
  | .note r => recordable format r && !r.message.hasRole "assistant" &&
    !r.message.hasRole "toolResult"
  | .finish => true

/-- The message is recorded, and is behind the transcript of the Turn that runs. -/
def ContinuedSession.record (s : ContinuedSession) (r : Recording) : ContinuedSession where
  snapshot := recorded s.snapshot r
  transcript := s.transcript.map (· ++ [r.message])

/-- The Turn is continued. One that Pi does not continue fails, and records nothing. -/
def ContinuedSession.resume (s : ContinuedSession) : ContinuedSession :=
  match continuationRunnerHistory format s.snapshot with
  | .ok runner => if mayRespond runner.messages then { s with transcript := some runner.messages }
    else s
  | .error _ => s

def ContinuedSession.next (s : ContinuedSession) : ContinuationEvent → ContinuedSession
  | .prompt r =>
    { snapshot := recorded s.snapshot r, transcript := some (recorded s.snapshot r).messages }
  | .resume => s.resume format
  | .respond r => s.record r
  | .answer r => s.record r
  | .note r => s.record r
  | .finish => { s with transcript := none }

/-- A Session whose history is empty, at a revision and with or without identities. -/
def emptySession (revision : String) (identified : Bool) : ContinuedSession where
  snapshot := { revision, messages := [], identityVector := if identified then some [] else none }
  transcript := none

def continuationSystem (revision : String) (identified : Bool) :
    Machine ContinuedSession ContinuationEvent Unit where
  initial := emptySession revision identified
  step s e := (s.next format e, ())

/-! ## What a continuation promises -/

/-- The results whose calls are in a message before them. -/
def ResultsCalled (messages : List AgentMessage) : Prop :=
  ∀ (n : ℕ) (result : AgentMessage), messages[n]? = some result →
    result.hasRole "toolResult" = true → ∃ m < n, ∃ call, messages[m]? = some call ∧ ∃ id,
      nonEmptyString (result.get "toolCallId") = some id ∧ id ∈ tolerantAssistantToolCallIds call

/-- The tail of the messages is an assistant's. -/
def TailResponds (messages : List AgentMessage) : Prop :=
  ∃ index message, continuationTail messages = some (index, message) ∧
    message.hasRole "assistant" = true

/-- The snapshot a Turn is continued with keeps all but an attempt at the end, ends in no assistant's
message, and has the call of every result. -/
structure ContinuesWith (snapshot runner : CanonicalHistorySnapshot) : Prop where
  tail : ¬ TailResponds runner.messages
  kept : runner = snapshot ∨ ∃ before attempt after,
    snapshot.messages = before ++ attempt :: after ∧ attempt.hasRole "assistant" = true ∧
    (∀ message ∈ after, isBackgroundTaskReadSettlement message = true) ∧
    runner.messages = before ++ after ∧ runner.revision = snapshot.revision ∧
    runner.identityVector = snapshot.identityVector.map (withoutIndex before.length)
  aligned : ∀ ids, runner.identityVector = some ids → ids.length = runner.messages.length
  called : ResultsCalled runner.messages

/-- Where a continuation is available, there is a snapshot to continue with. -/
def Continuable (s : ContinuedSession) : Prop :=
  inspectContinuationHistory format s.snapshot.messages = .ok .available →
    ∃ runner, continuationRunnerHistory format s.snapshot = .ok runner ∧
      ContinuesWith s.snapshot runner

/-- A response behind an assistant's message, as of a continuation that tries an attempt again, ends
with `stop`. -/
def AttemptsOnce (s : ContinuedSession) (e : ContinuationEvent) : Prop :=
  ∀ r, e = .respond r → TailResponds s.snapshot.messages →
    (r.message.get "stopReason").isText "stop" = true

end System

end CanonicalHistory

end Kinetick
