import Mathlib.Logic.Function.Basic
import Kinetick.Machine
import Kinetick.Scheduler.Job

/-!
# The scheduler

The scheduler holds its jobs in memory and in the database, and a timer for each job that is to
run. Timers are made paused and resumed once the job is stored. A timer that is resumed may fire at
any time, until it is stopped or its process ends; the fire counts the run in the database and then
calls the handler, if it is still the timer of an active job.

What an operation reads of its surroundings (the clock, what a new timer says of its next run,
whether the database fails) is given to it.
-/

namespace Kinetick

namespace Scheduler

/-- The time of a date: `date.getTime()`. -/
abbrev DateMs := { ms : ℤ // ms.natAbs ≤ 8640000000000000 }

inductive TimerOutcome
  | invalid
  | noFutureRun
  | nextRun (date : DateMs)

/-- The readings of the clock in order, the outcome of a new timer, the next run of an old one, and
whether the database fails. -/
structure Surroundings where
  now : ℕ → ℤ
  timer : TimerOutcome
  nextRun : Option DateMs
  fails : Bool

/-- A call of a handler: the job and its timer, and the job's row then. -/
structure Invocation where
  record : JobRecord
  timer : ℕ
  row : Option JobRow

/-- `running` are the timers that are resumed, with their jobs. Timers and random ids are
numbered. -/
structure State where
  handlers : List String
  jobs : String → Option JobRecord
  timers : String → Option ℕ
  started : Bool
  rows : List JobRow
  running : ℕ → Option String
  nextTimer : ℕ
  nextUuid : ℕ
  invocations : List Invocation

def initialState : State where
  handlers := []
  jobs := fun _ => none
  timers := fun _ => none
  started := false
  rows := []
  running := fun _ => none
  nextTimer := 0
  nextUuid := 0
  invocations := []

/-- `randomUUID()`: texts that are never the same. -/
structure UuidSource where
  uuid : ℕ → String
  injective : Function.Injective uuid

namespace State

variable (s : State)

def setJob (id : String) (record : Option JobRecord) : State :=
  { s with jobs := Function.update s.jobs id record }

def setTimer (id : String) (timer : Option ℕ) : State :=
  { s with timers := Function.update s.timers id timer }

/-- `timer.stop()` -/
def stopTimer (timer : ℕ) : State := { s with running := Function.update s.running timer none }

/-- `this.timers.get(id)?.stop()` -/
def stopTimerOf (id : String) : State :=
  match s.timers id with
  | none => s
  | some timer => s.stopTimer timer

/-- `timer.resume()` -/
def resumeTimer (timer : ℕ) (id : String) : State :=
  { s with running := Function.update s.running timer (some id) }

/-- The row of the job. -/
def row (id : String) : Option JobRow := s.rows.find? (·.schedulerId = id)

/-- Stops the timers and forgets them and the jobs. -/
def cleared : State :=
  { s with
    running := fun timer => (s.running timer).filter fun id => s.timers id ≠ some timer
    timers := fun _ => none
    jobs := fun _ => none
    started := false }

end State

/-- A new timer, paused, and its next run. -/
def createTimer (env : Surroundings) (s : State) : Except String (ℕ × ℤ) × State :=
  let s' := { s with nextTimer := s.nextTimer + 1 }
  match env.timer with
  | .invalid => (.error "invalid schedule", s')
  | .noFutureRun => (.error "schedule has no future run", s')
  | .nextRun date => (.ok (s.nextTimer, date.1), s')

def isNoFutureRun : TimerOutcome → Bool
  | .noFutureRun => true
  | _ => false

def registerHandler (handlerKey : String) (s : State) : Except String Unit × State :=
  if s.started then (.error "scheduler handlers must be registered before start", s)
  else if jsTrim handlerKey = "" then (.error "scheduler handler key must not be empty", s)
  else if handlerKey ∈ s.handlers then
    (.error ("scheduler handler already registered: " ++ handlerKey), s)
  else (.ok (), { s with handlers := s.handlers ++ [handlerKey] })

def schedule (source : UuidSource) (env : Surroundings) (handlerKey : String)
    (schedule : JsValue) (s : State) : Except String String × State :=
  if handlerKey ∉ s.handlers then
    (.error ("scheduler handler is not registered: " ++ handlerKey), s)
  else if !s.started then (.error "scheduler has not started", s)
  else match normalizeSchedule schedule (env.now 0) false with
  | .error e => (.error e, s)
  | .ok normalized =>
    let schedulerId := source.uuid s.nextUuid
    match createTimer env { s with nextUuid := s.nextUuid + 1 } with
    | (.error e, s) => (.error e, s)
    | (.ok (timer, nextRunAtMs), s) =>
      let record : JobRecord := {
        schedulerId, handlerKey
        schedule := normalized
        scheduleGeneration := 0
        runCount := 0
        state := .active
        nextRunAtMs := some nextRunAtMs
        createdAtMs := env.now 1
        updatedAtMs := env.now 1 }
      match insertJob env.fails s.rows record with
      | .error e => (.error e, s.stopTimer timer)
      | .ok rows =>
        let s := ({ s with rows }.setJob schedulerId (some record)).setTimer schedulerId (some timer)
        (.ok schedulerId, s.resumeTimer timer schedulerId)

def reschedule (env : Surroundings) (schedulerId : String) (schedule : JsValue) (s : State) :
    Except String Unit × State :=
  if !s.started then (.error "scheduler has not started", s)
  else match s.jobs schedulerId with
  | none => (.error ("scheduler job not found: " ++ schedulerId), s)
  | some current =>
    if current.handlerKey ∉ s.handlers then
      (.error ("scheduler handler is not registered: " ++ current.handlerKey), s)
    else match normalizeSchedule schedule (env.now 0) false with
    | .error e => (.error e, s)
    | .ok normalized =>
      match nextScheduleGeneration current.scheduleGeneration with
      | .error e => (.error e, s)
      | .ok scheduleGeneration =>
        match createTimer env s with
        | (.error e, s) => (.error e, s)
        | (.ok (nextTimer, nextRunAtMs), s) =>
          let next : JobRecord := { current with
            schedule := normalized
            scheduleGeneration
            runCount := 0
            state := .active
            nextRunAtMs := some nextRunAtMs
            updatedAtMs := env.now 1 }
          match updateJob env.fails s.rows next with
          | .error e => (.error e, s.stopTimer nextTimer)
          | .ok rows =>
            let s := { s with rows }.stopTimerOf schedulerId
            let s := (s.setJob schedulerId (some next)).setTimer schedulerId (some nextTimer)
            (.ok (), s.resumeTimer nextTimer schedulerId)

def cancel (env : Surroundings) (schedulerId : String) (s : State) : Except String Unit × State :=
  if !s.started then (.error "scheduler has not started", s)
  else match s.jobs schedulerId with
  | none => (.ok (), s)
  | some current =>
    if current.state = .cancelled then (.ok (), s)
    else
      let cancelled : JobRecord := { current with
        state := .cancelled
        nextRunAtMs := none
        updatedAtMs := env.now 0 }
      match updateJob env.fails s.rows cancelled with
      | .error e => (.error e, s)
      | .ok rows =>
        let s := { s with rows }.stopTimerOf schedulerId
        (.ok (), (s.setTimer schedulerId none).setJob schedulerId (some cancelled))

/-- The next run of a recurring job, where it is another than the record has. -/
def readCurrentRecurringState (env : Surroundings) (record : JobRecord) : Option ℤ :=
  match record.state, record.schedule with
  | .active, .cron _ _ _ =>
    if record.nextRunAtMs.any (env.now 0 < ·) then none
    else match env.timer with
    | .nextRun date => if record.nextRunAtMs = some date.1 then none else some date.1
    | _ => none
  | _, _ => none

/-- The record is changed in memory first. -/
def refreshRecurringInspectionState (env : Surroundings) (record : JobRecord) (s : State) :
    Except String Unit × State :=
  match readCurrentRecurringState env record with
  | none => (.ok (), s)
  | some nextRunAtMs =>
    let record := { record with nextRunAtMs := some nextRunAtMs, updatedAtMs := env.now 1 }
    let s := s.setJob record.schedulerId (some record)
    match updateJob env.fails s.rows record with
    | .error e => (.error e, s)
    | .ok rows => (.ok (), { s with rows })

def get (env : Surroundings) (schedulerId : String) (s : State) :
    Except String (Option JobRecord) × State :=
  if !s.started then (.error "scheduler has not started", s)
  else match s.jobs schedulerId with
  | none => (.ok none, s)
  | some record =>
    if (s.timers schedulerId).isSome then (.ok (some record), s)
    else match refreshRecurringInspectionState env record s with
    | (.error e, s) => (.error e, s)
    | (.ok (), s) => (.ok (s.jobs schedulerId), s)

/-- `fails` where the database does. -/
def remove (fails : Bool) (schedulerId : String) (s : State) : Except String Bool × State :=
  if !s.started then (.error "scheduler has not started", s)
  else if fails then (.error "delete failed", s)
  else
    let existed := (s.row schedulerId).isSome || (s.jobs schedulerId).isSome
    let s := { s with rows := s.rows.filter (·.schedulerId ≠ schedulerId) }
    let s := s.stopTimerOf schedulerId
    (.ok existed, (s.setTimer schedulerId none).setJob schedulerId none)

/-- A job in memory is changed and then its row. -/
def restoreChanged (env : Surroundings) (record : JobRecord) (s : State) :
    Except String Unit × State :=
  let s := s.setJob record.schedulerId (some record)
  match updateJob env.fails s.rows record with
  | .error e => (.error e, s)
  | .ok rows => (.ok (), { s with rows })

def expireOnce (env : Surroundings) (record : JobRecord) (s : State) : Except String Unit × State :=
  restoreChanged env
    { record with state := .expired, nextRunAtMs := none, updatedAtMs := env.now 2 } s

def restoreTimer (env : Surroundings) (record : JobRecord) (s : State) :
    Except String Unit × State :=
  match createTimer env s with
  | (.error _, s) =>
    if isNoFutureRun env.timer && isOnce record.schedule then expireOnce env record s
    else (.ok (), s)
  | (.ok (timer, nextRunAtMs), s) =>
    let record := { record with nextRunAtMs := some nextRunAtMs, updatedAtMs := env.now 2 }
    match restoreChanged env record s with
    | (.error e, s) => (.error e, s.stopTimer timer)
    | (.ok (), s) =>
      (.ok (), (s.setTimer record.schedulerId (some timer)).resumeTimer timer record.schedulerId)

def restoreJob (env : Surroundings) (record : JobRecord) (s : State) : Except String Unit × State :=
  if record.state ≠ .active then (.ok (), s)
  else
    let past := match record.schedule with
      | .once runAtMs => decide (runAtMs ≤ env.now 1)
      | _ => false
    if past then expireOnce env record s
    else if hasReachedMaxRuns record then
      restoreChanged env
        { record with state := .completed, nextRunAtMs := none, updatedAtMs := env.now 1 } s
    else if record.handlerKey ∉ s.handlers then (.ok (), s)
    else restoreTimer env record s

/-- The loop of `restoreActiveJobs` over the rows, each with the surroundings at its index. -/
def restoreActiveJobs (restoreExecution : Bool) (env : ℕ → Surroundings) :
    (index : ℕ) → List JobRow → State → Except String Unit × State
  | _, [], s => (.ok (), s)
  | index, row :: rows, s =>
    match parseJobRow row ((env index).now 0) with
    | none => restoreActiveJobs restoreExecution env (index + 1) rows s
    | some record =>
      let s := s.setJob record.schedulerId (some record)
      let restored := if restoreExecution then restoreJob (env index) record s
        else refreshRecurringInspectionState (env index) record s
      match restored with
      | (.error e, s) => (.error e, s)
      | (.ok (), s) => restoreActiveJobs restoreExecution env (index + 1) rows s

def start (env : ℕ → Surroundings) (restoreExecution : Bool) (s : State) :
    Except String Unit × State :=
  if s.started then (.ok (), s)
  else match restoreActiveJobs restoreExecution env 0 s.rows { s with started := true } with
  | (.error e, s) => (.error e, s.cleared)
  | (.ok (), s) => (.ok (), s)

def stop (s : State) : State := s.cleared

def advanceJob (env : Surroundings) (record : JobRecord) : JobRecord :=
  let next := { record with
    runCount := Double.roundNat (record.runCount + 1)
    updatedAtMs := env.now 0 }
  if isOnce next.schedule || hasReachedMaxRuns next then
    { next with state := .completed, nextRunAtMs := none }
  else { next with nextRunAtMs := env.nextRun.map (·.1) }

/-- What is in the log is the call of the handler. -/
def invokeHandler (record : JobRecord) (timer : ℕ) (s : State) : State :=
  if record.handlerKey ∈ s.handlers then
    { s with
      invocations := s.invocations ++ [{ record, timer, row := s.row record.schedulerId }] }
  else s

def trigger (env : Surroundings) (schedulerId : String) (timer : ℕ) (s : State) :
    Except String Unit × State :=
  if s.timers schedulerId ≠ some timer then (.ok (), s)
  else match s.jobs schedulerId with
  | none => (.ok (), s)
  | some record =>
    if record.state ≠ .active then (.ok (), s)
    else
      let next := advanceJob env record
      match updateJob env.fails s.rows next with
      | .error e =>
        if isOnce next.schedule then (.error e, (s.stopTimer timer).setTimer schedulerId none)
        else (.error e, s)
      | .ok rows =>
        let s := { s with rows }.setJob schedulerId (some next)
        let s := if next.state = .completed then (s.stopTimer timer).setTimer schedulerId none
          else s
        (.ok (), invokeHandler next timer s)

/-! ## Events -/

/-- The process may end at any time, and so may a new one start. -/
inductive Event
  | registerHandler (handlerKey : String)
  | start (env : ℕ → Surroundings) (restoreExecution : Bool)
  | stop
  | crash
  | schedule (env : Surroundings) (handlerKey : String) (schedule : JsValue)
  | reschedule (env : Surroundings) (schedulerId : String) (schedule : JsValue)
  | cancel (env : Surroundings) (schedulerId : String)
  | get (env : Surroundings) (schedulerId : String)
  | remove (fails : Bool) (schedulerId : String)
  | fire (env : Surroundings) (timer : ℕ)

/-- The rows and what was called, and nothing of the process. -/
def crashed (s : State) : State :=
  { initialState with
    rows := s.rows
    nextTimer := s.nextTimer
    nextUuid := s.nextUuid
    invocations := s.invocations }

/-- The answer of the operation is `true` where it returns. -/
def returned {α : Type} (result : Except String α × State) : State × Bool :=
  (result.2, result.1.isOk)

def step (source : UuidSource) (s : State) : Event → State × Bool
  | .registerHandler handlerKey => returned (registerHandler handlerKey s)
  | .start env restoreExecution => returned (start env restoreExecution s)
  | .stop => (stop s, true)
  | .crash => (crashed s, true)
  | .schedule env handlerKey json => returned (schedule source env handlerKey json s)
  | .reschedule env schedulerId json => returned (reschedule env schedulerId json s)
  | .cancel env schedulerId => returned (cancel env schedulerId s)
  | .get env schedulerId => returned (get env schedulerId s)
  | .remove fails schedulerId => returned (remove fails schedulerId s)
  | .fire env timer =>
    match s.running timer with
    | none => (s, true)
    | some schedulerId => returned (trigger env schedulerId timer s)

def machine (source : UuidSource) : Machine State Event Bool where
  initial := initialState
  step := step source

end Scheduler

end Kinetick

/-!
## What the scheduler guarantees

Whatever fires when and whatever fails, a generation of a job runs no more often than its schedule
allows, and only the timer that a job has at the time calls its handler. Memory and database agree
on the jobs, as long as the database does not fail when a job that is looked up is refreshed.
-/

namespace Kinetick

namespace Scheduler

/-- How often a schedule may run. -/
def limit : Schedule → Option ℕ
  | .once _ => some 1
  | .cron _ _ maxRuns => maxRuns

/-- How often a generation of a job was called. -/
def callsOf (id : String) (generation : ℕ) (invocations : List Invocation) : ℕ :=
  invocations.countP fun call =>
    call.record.schedulerId = id && call.record.scheduleGeneration = generation

/-- No generation was called more often than its schedule allows. -/
def WithinLimit (invocations : List Invocation) : Prop :=
  ∀ call ∈ invocations, ∀ m, limit call.record.schedule = some m →
    callsOf call.record.schedulerId call.record.scheduleGeneration invocations ≤ m

/-- A handler is called when one more run is counted in the job's row. -/
def Counts (source : UuidSource) (s : State) (e : Event) : Prop :=
  ∀ call ∈ (step source s e).1.invocations, call ∉ s.invocations →
    call.row = some (jobRow call.record) ∧ ∃ row, s.row call.record.schedulerId = some row ∧
      call.record.runCount = Double.roundNat (row.runCount + 1)

/-- The event takes the timer from the job. -/
def Ends (id : String) : Event → Prop
  | .reschedule _ id' _ => id' = id
  | .cancel _ id' => id' = id
  | .remove _ id' => id' = id
  | _ => False

/-- After the number of calls, none of the job is by a timer before the number. -/
def CalledByLater (id : String) (calls timer : ℕ) (s : State) : Prop :=
  ∀ call ∈ s.invocations.drop calls, call.record.schedulerId = id → timer ≤ call.timer

/-- The jobs in memory are as their rows. -/
def Mirrors (s : State) : Prop :=
  ∀ id record, s.jobs id = some record → s.row id = some (jobRow record)

/-- The database does not fail when the job that is looked up is refreshed. -/
def GetPersists (s : State) : Event → Prop
  | .get env id => ∀ record nextRunAtMs, s.jobs id = some record → s.timers id = none →
    readCurrentRecurringState env record = some nextRunAtMs →
      (updateJob env.fails s.rows
        { record with nextRunAtMs := some nextRunAtMs, updatedAtMs := env.now 1 }).isOk = true
  | _ => True

end Scheduler

end Kinetick
