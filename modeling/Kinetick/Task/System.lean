import Kinetick.Machine
import Kinetick.Task.Manager

/-!
# One task and the calls on it

Calls on one task, any number of them at once: a call is begun, or what it waits for is answered,
by the store there is or as the world likes. The task ends once in every run in which no patch
reaches the store when the task has ended already.
-/

namespace Kinetick.Task

/-- A call on the task. -/
inductive TaskCall
  | start (request : StartTaskRequest)
  | stop (reason : Option String)
  | complete (options : CompleteTaskOptions)
  | fail (error : Thrown)

def TaskCall.isStart : TaskCall → Bool
  | start _ => true
  | _ => false

/-- A patch of the store. -/
def TaskCommand.isPatch : TaskCommand → Bool
  | patch _ _ => true
  | _ => false

/-- A call that was begun, and what is left to do of it. -/
structure BegunCall where
  call : TaskCall
  rest : Program BackgroundTask

/-- The store, how many events were stamped, what the output store threw, and the calls. -/
structure TaskSystem where
  store : InMemoryTaskStore := {}
  sequence : ℕ := 0
  outputErrors : List Thrown := []
  calls : List BegunCall := []

/-- What the world answers: the clock, an id for an event, a runner and the output store. -/
structure Reply where
  now : ℤ := 0
  eventId : String := ""
  handle : Except Thrown TaskRuntimeHandle := .error (.other "")
  done : Except Thrown Unit := .ok ()

inductive TaskSystemEvent
  | begin (call : TaskCall)
  | answer (index : ℕ) (reply : Reply)

section

variable (runners : BackgroundTaskKind → Bool) (taskId : String)

def TaskCall.program : TaskCall → Program BackgroundTask
  | start request => Task.start runners request
  | stop reason => Task.stop runners taskId reason
  | complete options => Task.complete taskId options
  | fail error => Task.fail taskId error

namespace TaskSystem

/-- The task, once it was created. -/
def task (s : TaskSystem) : Option BackgroundTask := s.store.get taskId

/-- What is answered, and what it makes of the store. -/
def answer (s : TaskSystem) (reply : Reply) : (c : TaskCommand) → c.Answer × TaskSystem
  | .now => (reply.now, s)
  | .generateTaskId => (taskId, s)
  | .stampEvent =>
    (⟨reply.eventId, reply.now, s.sequence + 1⟩, { s with sequence := s.sequence + 1 })
  | .create task => ((s.store.create task).1, { s with store := (s.store.create task).2 })
  | .get taskId => (s.store.get taskId, s)
  | .patch taskId patch =>
    ((s.store.patch taskId patch reply.now).1,
      { s with store := (s.store.patch taskId patch reply.now).2 })
  | .appendEvent event => ((), { s with store := s.store.appendEvent event })
  | .runnerStart _ _ => (reply.handle, s)
  | .runnerStop _ _ _ => (reply.done, s)
  | .finalizeOutput _ _ =>
    (reply.done, { s with
      outputErrors := s.outputErrors ++ match reply.done with
        | .error error => [error]
        | .ok () => [] })

def step (s : TaskSystem) : TaskSystemEvent → TaskSystem
  | .begin call => { s with calls := s.calls ++ [⟨call, call.program runners taskId⟩] }
  | .answer index reply =>
    match s.calls[index]? with
    | some ⟨call, .ask c next⟩ =>
      let (r, s') := s.answer taskId reply c
      { s' with calls := s.calls.set index ⟨call, next r⟩ }
    | _ => s

/-- The task is begun once: an id is given to one task. -/
def Permitted (s : TaskSystem) : TaskSystemEvent → Prop
  | .begin call => call.isStart = true → ∀ begun ∈ s.calls, begun.call.isStart = false
  | .answer _ _ => True

/-- The task has ended. -/
def ended (s : TaskSystem) : Bool := (s.task taskId).any fun task => isTerminalTaskStatus task.status

/-- What the call at the index waits for. -/
def asked (s : TaskSystem) (index : ℕ) : Option TaskCommand :=
  s.calls[index]?.bind fun begun => begun.rest.asked

/-- No patch is answered once the task has ended. -/
def Unended (s : TaskSystem) : TaskSystemEvent → Prop
  | .begin _ => True
  | .answer index _ => (s.asked index).any TaskCommand.isPatch = true → s.ended taskId = false

instance (s : TaskSystem) : (event : TaskSystemEvent) → Decidable (s.Permitted event)
  | .begin call => inferInstanceAs
    (Decidable (call.isStart = true → ∀ begun ∈ s.calls, begun.call.isStart = false))
  | .answer _ _ => .isTrue trivial

instance (s : TaskSystem) : (event : TaskSystemEvent) → Decidable (s.Unended taskId event)
  | .begin _ => .isTrue trivial
  | .answer index _ => inferInstanceAs
    (Decidable ((s.asked index).any TaskCommand.isPatch = true → s.ended taskId = false))

/-! ### What a run keeps -/

end TaskSystem

/-- What is decided when a task ends is the same. -/
structure SameEnd (task task' : BackgroundTask) : Prop where
  status : task'.status = task.status
  endedAt : task'.endedAt = task.endedAt
  lastError : task'.lastError = task.lastError
  usage : task'.usage = task.usage
  outputRef : task'.outputRef = task.outputRef
  metadata : task'.metadata = task.metadata

/-- A task later on: its status moved forward, and not once it had ended. -/
structure Later (task task' : BackgroundTask) : Prop where
  forward : canTransitionTaskStatus task.status task'.status = true
  ended : isTerminalTaskStatus task.status = true → SameEnd task task'

namespace TaskSystem

/-- A step leaves the task there is as it is, or moves it forward. -/
def Forward (s : TaskSystem) (event : TaskSystemEvent) : Prop :=
  ∀ task, s.task taskId = some task →
    ∃ task', (s.step runners taskId event).task taskId = some task' ∧ Later task task'

/-- The completed events of the task. -/
def completedEvents (s : TaskSystem) : List TaskLifecycleEvent :=
  s.store.events.filter fun event => event.taskId = taskId && event.type = .completed

/-- A call is over. -/
def finished (begun : BegunCall) : Prop := begun.rest.asked = none

/-- A task the call answers is the task that is stored, as it was then. -/
def Answered (s : TaskSystem) (answered : BackgroundTask) : Prop :=
  ∃ task, s.task taskId = some task ∧ Later answered task

end TaskSystem

/-- What a call may throw: `start` that its runner is not there, the others that the task is not,
and `complete` what the output store threw. -/
def MayThrow (outputErrors : List Thrown) (error : Thrown) : TaskCall → Prop
  | .start request => runners request.kind = false
  | .complete _ => error = taskNotFoundError taskId ∨ error ∈ outputErrors
  | _ => error = taskNotFoundError taskId

/-- How far the task is that a call answers. -/
def AnswersWith (status : BackgroundTaskStatus) : TaskCall → Prop
  | .start _ => True
  | .stop _ => isTerminalTaskStatus status = true ∨ status = .stopping
  | _ => isTerminalTaskStatus status = true

namespace TaskSystem

structure EndsOnce (s : TaskSystem) : Prop where
  /-- There is at most one completed event, of a task that has ended and with its status. -/
  single : (s.completedEvents taskId).length ≤ 1
  final : ∀ event ∈ s.completedEvents taskId, ∃ task, s.task taskId = some task ∧
    isTerminalTaskStatus task.status = true ∧
    ∃ payload, event.payload = some payload ∧
      JsValue.lookup "status" payload = .string task.status.text
  /-- It is there once no call is under way. -/
  completed : s.ended taskId = true → (∀ begun ∈ s.calls, finished begun) →
    (s.completedEvents taskId).length = 1
  answers : ∀ begun ∈ s.calls, ∀ answered, begun.rest = .ret (.ok answered) →
    s.Answered taskId answered ∧ AnswersWith answered.status begun.call
  throws : ∀ begun ∈ s.calls, ∀ error, begun.rest = .ret (.error error) →
    MayThrow runners taskId s.outputErrors error begun.call

end TaskSystem

/-- The calls as a machine. -/
def taskMachine : Machine TaskSystem TaskSystemEvent Unit where
  initial := {}
  step s event := (s.step runners taskId event, ())

end

end Kinetick.Task
