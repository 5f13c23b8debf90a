import Kinetick.Js

/-!
# Background tasks

What a background task is, by which transitions its status moves, and what the store of tasks in
memory makes of a patch. The store copies what it takes and gives, so that its records are values.
-/

namespace Kinetick.Task

inductive BackgroundTaskKind
  | bash
  | subagent
  | workflow
  | custom
  deriving DecidableEq

inductive BackgroundTaskStatus
  | queued
  | running
  | stopping
  | succeeded
  | failed
  | canceled
  | lost
  deriving DecidableEq

/-- The status as its text. -/
def BackgroundTaskStatus.text : BackgroundTaskStatus → String
  | queued => "queued"
  | running => "running"
  | stopping => "stopping"
  | succeeded => "succeeded"
  | failed => "failed"
  | canceled => "canceled"
  | lost => "lost"

def BackgroundTaskKind.text : BackgroundTaskKind → String
  | bash => "bash"
  | subagent => "subagent"
  | workflow => "workflow"
  | custom => "custom"

/-- `Record<string, unknown>` -/
abbrev Record := List (String × JsValue)

structure TaskError where
  message : String
  code : Option String := none
  details : Option Record := none

structure TaskUsage where
  inputTokens : Option JsNumber := none
  outputTokens : Option JsNumber := none
  totalTokens : Option JsNumber := none
  costUsd : Option JsNumber := none
  metadata : Option Record := none

inductive TaskOutputKind
  | file
  | oss
  | sandboxJob
  | sessionTranscript
  | memory
  deriving DecidableEq

structure TaskOutputRef where
  taskId : String
  kind : TaskOutputKind
  uri : String
  offset : Option JsNumber := none
  updatedAt : Option JsNumber := none
  metadata : Option Record := none

structure BackgroundTask where
  taskId : String
  kind : BackgroundTaskKind
  status : BackgroundTaskStatus
  ownerSessionId : String
  description : Option String := none
  toolCallId : Option String := none
  parentMessageId : Option String := none
  parentTaskId : Option (Option String) := none
  createdAt : ℤ
  updatedAt : ℤ
  startedAt : Option ℤ := none
  endedAt : Option ℤ := none
  outputRef : Option TaskOutputRef := none
  lastError : Option TaskError := none
  usage : Option TaskUsage := none
  metadata : Option Record := none

/-- `BackgroundTaskPatch`, of the fields that are patched. -/
structure BackgroundTaskPatch where
  status : Option BackgroundTaskStatus := none
  startedAt : Option ℤ := none
  endedAt : Option ℤ := none
  outputRef : Option TaskOutputRef := none
  lastError : Option TaskError := none
  usage : Option TaskUsage := none
  metadata : Option Record := none
  updatedAt : Option ℤ := none

inductive TaskLifecycleEventType
  | created
  | started
  | stopRequested
  | completed
  deriving DecidableEq

structure TaskLifecycleEvent where
  eventId : String
  taskId : String
  ownerSessionId : String
  type : TaskLifecycleEventType
  timestamp : ℤ
  sequence : ℕ
  payload : Option Record

/-! ### `status.ts` -/

def isTerminalTaskStatus : BackgroundTaskStatus → Bool
  | .succeeded | .failed | .canceled | .lost => true
  | .queued | .running | .stopping => false

def canTransitionTaskStatus (source target : BackgroundTaskStatus) : Bool :=
  if source = target then true
  else if isTerminalTaskStatus source then false
  else match source with
  | .queued => [.running, .stopping, .succeeded, .failed, .canceled, .lost].contains target
  | .running => [.stopping, .succeeded, .failed, .canceled, .lost].contains target
  | .stopping => [.succeeded, .failed, .canceled, .lost].contains target
  | _ => false

/-! ### `errors.ts` -/

/-- What may be thrown: an error of the tasks, any other error, or any other value as its text. -/
inductive Thrown
  | background (message code : String) (details : Option Record)
  | error (message : String) (stack : Option String)
  | other (text : String)

def taskNotFoundError (taskId : String) : Thrown :=
  .background ("Background task not found: " ++ taskId) "TASK_NOT_FOUND"
    (some [("taskId", .string taskId)])

def taskAlreadyExistsError (taskId : String) : Thrown :=
  .background ("Background task already exists: " ++ taskId) "TASK_ALREADY_EXISTS"
    (some [("taskId", .string taskId)])

def taskRunnerNotFoundError (kind : BackgroundTaskKind) : Thrown :=
  .background ("No background task runner registered for kind: " ++ kind.text)
    "TASK_RUNNER_NOT_FOUND" (some [("kind", .string kind.text)])

def invalidTaskStatusTransitionError (taskId : String) (source target : BackgroundTaskStatus) :
    Thrown :=
  .background ("Invalid background task status transition for " ++ taskId ++ ": " ++ source.text ++
      " -> " ++ target.text) "INVALID_TASK_STATUS_TRANSITION"
    (some [("taskId", .string taskId), ("from", .string source.text), ("to", .string target.text)])

def normalizeTaskError (error : Thrown) (fallbackCode : String := "TASK_ERROR") : TaskError :=
  match error with
  | .background message code details => ⟨message, some code, details⟩
  | .error message stack =>
    ⟨message, some fallbackCode,
      (stack.filter (· ≠ "")).map fun stack => [("stack", .string stack)]⟩
  | .other text => ⟨text, some fallbackCode, none⟩

/-! ### `in-memory-store.ts` -/

/-- `{ ...record, [key]: value }` -/
def assignField : Record → String × JsValue → Record
  | [], field => [field]
  | other :: fields, field =>
    if other.1 = field.1 then field :: fields else other :: assignField fields field

def mergeRecord (current patch : Option Record) : Option Record :=
  if current.isNone && patch.isNone then none
  else some ((patch.getD []).foldl assignField (current.getD []))

/-- The task with a patch, at a time. -/
def BackgroundTask.patched (current : BackgroundTask) (patch : BackgroundTaskPatch) (now : ℤ) :
    BackgroundTask :=
  { current with
    status := patch.status.getD current.status
    startedAt := patch.startedAt.or current.startedAt
    endedAt := patch.endedAt.or current.endedAt
    outputRef := patch.outputRef.or current.outputRef
    lastError := patch.lastError.or current.lastError
    usage := patch.usage.or current.usage
    metadata := mergeRecord current.metadata patch.metadata
    updatedAt := patch.updatedAt.getD now }

/-- `InMemoryTaskStore`: the tasks in the order they were created. -/
structure InMemoryTaskStore where
  tasks : List BackgroundTask := []
  events : List TaskLifecycleEvent := []

namespace InMemoryTaskStore

def get (taskId : String) (store : InMemoryTaskStore) : Option BackgroundTask :=
  store.tasks.find? (·.taskId = taskId)

def create (task : BackgroundTask) (store : InMemoryTaskStore) :
    Except Thrown BackgroundTask × InMemoryTaskStore :=
  if (store.get task.taskId).isSome then (.error (taskAlreadyExistsError task.taskId), store)
  else (.ok task, { store with tasks := store.tasks ++ [task] })

def patch (taskId : String) (patch : BackgroundTaskPatch) (now : ℤ) (store : InMemoryTaskStore) :
    Except Thrown BackgroundTask × InMemoryTaskStore :=
  match store.get taskId with
  | none => (.error (taskNotFoundError taskId), store)
  | some current =>
    match patch.status.filter fun status => !canTransitionTaskStatus current.status status with
    | some status => (.error (invalidTaskStatusTransitionError taskId current.status status), store)
    | none =>
      let updated := current.patched patch now
      (.ok updated, { store with
        tasks := store.tasks.map fun task => if task.taskId = taskId then updated else task })

def appendEvent (event : TaskLifecycleEvent) (store : InMemoryTaskStore) : InMemoryTaskStore :=
  { store with events := store.events ++ [event] }

end InMemoryTaskStore

end Kinetick.Task
