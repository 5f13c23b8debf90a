import Kinetick.Async
import Kinetick.Task.Task

/-!
# The manager of background tasks

`DefaultBackgroundTaskManager`: it writes a task down and starts its runner, and ends the task when
it is told to. What it asks is an operation of the store, which runs in one go, or something of a
runner or the output store, which may take any time. It asks for the clock and for ids as well;
other calls may go on at each of these points.
-/

namespace Kinetick.Task

structure TaskRuntimeHandle where
  taskId : String
  outputRef : Option TaskOutputRef := none

structure StartTaskRequest where
  kind : BackgroundTaskKind
  ownerSessionId : String
  description : Option String := none
  toolCallId : Option String := none
  parentMessageId : Option String := none
  parentTaskId : Option (Option String) := none
  input : JsValue := .undefined
  metadata : Option Record := none

/-- `CompleteTaskOptions['status']` -/
inductive CompletedStatus
  | succeeded
  | canceled
  deriving DecidableEq

def CompletedStatus.status : CompletedStatus → BackgroundTaskStatus
  | succeeded => .succeeded
  | canceled => .canceled

structure CompleteTaskOptions where
  status : Option CompletedStatus := none
  outputRef : Option TaskOutputRef := none
  summary : Option String := none
  usage : Option TaskUsage := none
  metadata : Option Record := none

/-- What an event is told of it: its id, its time and its number. -/
structure EventStamp where
  eventId : String
  timestamp : ℤ
  sequence : ℕ

inductive TaskCommand
  | now
  | generateTaskId
  | stampEvent
  | create (task : BackgroundTask)
  | get (taskId : String)
  | patch (taskId : String) (patch : BackgroundTaskPatch)
  | appendEvent (event : TaskLifecycleEvent)
  | runnerStart (task : BackgroundTask) (input : JsValue)
  | runnerStop (kind : BackgroundTaskKind) (taskId : String) (reason : Option String)
  | finalizeOutput (taskId : String) (summary : String)

def TaskCommand.Answer : TaskCommand → Type
  | now => ℤ
  | generateTaskId => String
  | stampEvent => EventStamp
  | create _ => Except Thrown BackgroundTask
  | get _ => Option BackgroundTask
  | patch _ _ => Except Thrown BackgroundTask
  | appendEvent _ => Unit
  | runnerStart _ _ => Except Thrown TaskRuntimeHandle
  | runnerStop _ _ _ => Except Thrown Unit
  | finalizeOutput _ _ => Except Thrown Unit

abbrev Program := Async TaskCommand TaskCommand.Answer Thrown

namespace Program

def now : Program ℤ := .ask .now fun now => .ret (.ok now)

def generateTaskId : Program String := .ask .generateTaskId fun taskId => .ret (.ok taskId)

def stampEvent : Program EventStamp := .ask .stampEvent fun stamp => .ret (.ok stamp)

def create (task : BackgroundTask) : Program BackgroundTask := .ask (.create task) .ret

def get (taskId : String) : Program (Option BackgroundTask) :=
  .ask (.get taskId) fun task => .ret (.ok task)

def patch (taskId : String) (patch : BackgroundTaskPatch) : Program BackgroundTask :=
  .ask (.patch taskId patch) .ret

def appendEvent (event : TaskLifecycleEvent) : Program Unit :=
  .ask (.appendEvent event) fun _ => .ret (.ok ())

def runnerStart (task : BackgroundTask) (input : JsValue) : Program TaskRuntimeHandle :=
  .ask (.runnerStart task input) .ret

def runnerStop (kind : BackgroundTaskKind) (taskId : String) (reason : Option String) :
    Program Unit :=
  .ask (.runnerStop kind taskId reason) .ret

def finalizeOutput (taskId : String) (summary : String) : Program Unit :=
  .ask (.finalizeOutput taskId summary) .ret

end Program

open Program

/-- The event of a task, appended. -/
def emit (task : BackgroundTask) (type : TaskLifecycleEventType) (payload : Option Record) :
    Program Unit := do
  let stamp ← stampEvent
  appendEvent {
    eventId := stamp.eventId
    taskId := task.taskId
    ownerSessionId := task.ownerSessionId
    type
    timestamp := stamp.timestamp
    sequence := stamp.sequence
    payload }

def requireTask (taskId : String) : Program BackgroundTask := do
  let some task ← Program.get taskId | Async.raise (taskNotFoundError taskId)
  return task

section

variable (runners : BackgroundTaskKind → Bool)

/-- The runner of the kind is registered. -/
def getRunner (kind : BackgroundTaskKind) : Program Unit :=
  if runners kind then pure () else Async.raise (taskRunnerNotFoundError kind)

/-- What `start` tries once the task is created. -/
def startCreated (created : BackgroundTask) (input : JsValue) : Program BackgroundTask := do
  let handle ← runnerStart created input
  let started ← patch created.taskId {
    status := some .running
    startedAt := some (← now)
    outputRef := handle.outputRef }
  emit started .started (some [("hasOutputRef", .boolean handle.outputRef.isSome)])
  return started

def start (request : StartTaskRequest) : Program BackgroundTask := do
  getRunner runners request.kind
  let now ← Program.now
  let taskId ← generateTaskId
  let created ← create {
    taskId
    kind := request.kind
    status := .queued
    ownerSessionId := request.ownerSessionId
    description := request.description
    toolCallId := request.toolCallId
    parentMessageId := request.parentMessageId
    parentTaskId := request.parentTaskId
    createdAt := now
    updatedAt := now
    metadata := request.metadata }
  emit created .created (some [("inputKind", .string request.kind.text)])
  match ← (startCreated created request.input).attempt with
  | .ok started => return started
  | .error error =>
    let failed ← patch created.taskId {
      status := some .failed
      endedAt := some (← Program.now)
      lastError := some (normalizeTaskError error "TASK_START_FAILED") }
    emit failed .completed (some [("status", .string "failed")])
    return failed

/-- What `stop` tries once the task is stopping. -/
def stopRunner (task : BackgroundTask) (taskId : String) (reason : Option String) :
    Program BackgroundTask := do
  getRunner runners task.kind
  runnerStop task.kind taskId reason
  let canceled ← patch taskId {
    status := some .canceled
    endedAt := some (← now)
    lastError := (reason.filter (· ≠ "")).map fun reason => ⟨reason, some "TASK_CANCELED", none⟩ }
  emit canceled .completed (some [("status", .string "canceled")])
  return canceled

def stop (taskId : String) (reason : Option String) : Program BackgroundTask := do
  let task ← requireTask taskId
  if isTerminalTaskStatus task.status then return task
  if task.status = .stopping then return task
  let stopping ← patch taskId { status := some .stopping }
  emit stopping .stopRequested (some [("reason", reason.elim .undefined .string)])
  match ← (stopRunner runners task taskId reason).attempt with
  | .ok canceled => return canceled
  | .error error =>
    let canceled ← patch taskId {
      status := some .canceled
      endedAt := some (← now)
      lastError := some (normalizeTaskError error "TASK_STOP_FAILED") }
    emit canceled .completed
      (some [("status", .string "canceled"), ("stopFailed", .boolean true)])
    return canceled

end

/-- What `complete` does to a task that has not ended. -/
def completeOpen (taskId : String) (options : CompleteTaskOptions) : Program BackgroundTask := do
  let completed ← patch taskId {
    status := some (options.status.getD .succeeded).status
    endedAt := some (← now)
    outputRef := options.outputRef
    usage := options.usage
    metadata := options.metadata }
  emit completed .completed (some [("status", .string completed.status.text)])
  return completed

def complete (taskId : String) (options : CompleteTaskOptions) : Program BackgroundTask := do
  let task ← requireTask taskId
  if isTerminalTaskStatus task.status then return task
  match options.summary with
  | some summary =>
    finalizeOutput taskId summary
    completeOpen taskId options
  | none => completeOpen taskId options

def fail (taskId : String) (error : Thrown) : Program BackgroundTask := do
  let task ← requireTask taskId
  if isTerminalTaskStatus task.status then return task
  let failed ← patch taskId {
    status := some .failed
    endedAt := some (← now)
    lastError := some (normalizeTaskError error) }
  emit failed .completed (some [("status", .string "failed")])
  return failed

end Kinetick.Task
