import Kinetick.Double
import Kinetick.Js

/-!
# Scheduler jobs

A job runs its handler once, at a time, or by a cron expression, at most so many times where its
schedule says so. Each new schedule of a job is a generation of it, with runs of its own. A job is
kept in a row of the database, its schedule as JSON, and read back from there after a restart.
-/

namespace Kinetick

namespace Scheduler

inductive Schedule
  | once (runAtMs : ℤ)
  | cron (expression : String) (timezone : Option String) (maxRuns : Option ℕ)
  deriving DecidableEq

inductive JobState
  | active
  | completed
  | expired
  | cancelled
  deriving DecidableEq

structure JobRecord where
  schedulerId : String
  handlerKey : String
  schedule : Schedule
  scheduleGeneration : ℕ
  runCount : ℕ
  state : JobState
  nextRunAtMs : Option ℤ
  createdAtMs : ℤ
  updatedAtMs : ℤ
  deriving DecidableEq

structure JobRow where
  schedulerId : String
  handlerKey : String
  scheduleJson : JsValue
  scheduleGeneration : ℕ
  runCount : ℕ
  state : JobState
  nextRunAtMs : Option ℤ
  createdAtMs : ℤ
  updatedAtMs : ℤ

/-! ## Schedules -/

/-- The schedule as the object it is. -/
def Schedule.toJson : Schedule → JsValue
  | once runAtMs =>
    .object [("kind", .string "once"), ("runAtMs", .number (.finite runAtMs))]
  | cron expression timezone maxRuns =>
    .object ([("kind", .string "cron"), ("expression", .string expression)] ++
      (timezone.map fun zone => ("timezone", .string zone)).toList ++
      (maxRuns.map fun n => ("maxRuns", .number (.finite n))).toList)

def isRecord : JsValue → Bool
  | .object _ => true
  | .array _ => true
  | _ => false

def normalizeOnce (schedule : JsValue) (nowMs : ℤ) (allowPast : Bool) : Except String Schedule :=
  match (schedule.get "runAtMs").safeInteger with
  | none => .error "once schedule runAtMs must be a Unix millisecond integer"
  | some runAtMs =>
    if !allowPast && decide (runAtMs ≤ nowMs) then
      .error "once schedule runAtMs must be in the future"
    else .ok (.once runAtMs)

def readCronExpression (value : JsValue) : Except String String :=
  match value with
  | .string expression =>
    if jsTrim expression = "" then .error "cron schedule expression must not be empty"
    else .ok expression
  | _ => .error "cron schedule expression must not be empty"

def readCronTimezone (value : JsValue) : Except String (Option String) :=
  match value with
  | .undefined => .ok none
  | .string timezone =>
    if jsTrim timezone = "" then .error "cron schedule timezone must not be empty"
    else .ok (some timezone)
  | _ => .error "cron schedule timezone must not be empty"

def readCronMaxRuns (value : JsValue) : Except String (Option ℕ) :=
  if value.isUndefined then .ok none
  else match value.safeInteger with
  | none => .error "cron schedule maxRuns must be a positive integer"
  | some n =>
    if n ≤ 0 then .error "cron schedule maxRuns must be a positive integer"
    else .ok (some n.toNat)

def normalizeCronSchedule (schedule : JsValue) : Except String Schedule := do
  let expression ← readCronExpression (schedule.get "expression")
  let timezone ← readCronTimezone (schedule.get "timezone")
  let maxRuns ← readCronMaxRuns (schedule.get "maxRuns")
  return .cron expression timezone maxRuns

def normalizeSchedule (schedule : JsValue) (nowMs : ℤ) (allowPastOnce : Bool) :
    Except String Schedule :=
  if !isRecord schedule then .error "scheduler schedule must be an object"
  else if (schedule.get "kind").isText "once" then normalizeOnce schedule nowMs allowPastOnce
  else if (schedule.get "kind").isText "cron" then normalizeCronSchedule schedule
  else .error "scheduler schedule kind must be once or cron"

def hasReachedMaxRuns (record : JobRecord) : Bool :=
  match record.schedule with
  | .cron _ _ (some maxRuns) => maxRuns ≤ record.runCount
  | _ => false

def isOnce : Schedule → Bool
  | .once _ => true
  | .cron _ _ _ => false

def nextScheduleGeneration (current : ℕ) : Except String ℕ :=
  if current + 1 ≤ 9007199254740991 then .ok (current + 1)
  else .error "scheduler generation is exhausted"

/-! ## Rows -/

def isSafe (n : ℤ) : Bool := n.natAbs ≤ 9007199254740991

def isValidJobRow (row : JobRow) : Bool :=
  isRecord row.scheduleJson && isSafe row.scheduleGeneration && isSafe row.runCount &&
    isSafe row.createdAtMs && isSafe row.updatedAtMs

def parseJobRow (row : JobRow) (nowMs : ℤ) : Option JobRecord :=
  if !isValidJobRow row then none
  else match normalizeSchedule row.scheduleJson nowMs true with
  | .error _ => none
  | .ok schedule => some {
      schedulerId := row.schedulerId
      handlerKey := row.handlerKey
      schedule
      scheduleGeneration := row.scheduleGeneration
      runCount := row.runCount
      state := row.state
      nextRunAtMs := row.nextRunAtMs.filter isSafe
      createdAtMs := row.createdAtMs
      updatedAtMs := row.updatedAtMs }

/-- The row of a job. -/
def jobRow (record : JobRecord) : JobRow where
  schedulerId := record.schedulerId
  handlerKey := record.handlerKey
  scheduleJson := record.schedule.toJson
  scheduleGeneration := record.scheduleGeneration
  runCount := record.runCount
  state := record.state
  nextRunAtMs := record.nextRunAtMs
  createdAtMs := record.createdAtMs
  updatedAtMs := record.updatedAtMs

/-- The checks of the table. -/
def JobRow.checks (row : JobRow) : Bool :=
  (row.state = .active) == row.nextRunAtMs.isSome && 0 ≤ row.createdAtMs && 0 ≤ row.updatedAtMs

/-- Inserts the job's row, unless the database fails. -/
def insertJob (fails : Bool) (rows : List JobRow) (record : JobRecord) :
    Except String (List JobRow) :=
  if fails || !(jobRow record).checks || rows.any (·.schedulerId = record.schedulerId) then
    .error "insert failed"
  else .ok (rows ++ [jobRow record])

/-- The row with what an update of the job sets. -/
def JobRow.updated (row : JobRow) (record : JobRecord) : JobRow :=
  { row with
    scheduleJson := record.schedule.toJson
    scheduleGeneration := record.scheduleGeneration
    runCount := record.runCount
    state := record.state
    nextRunAtMs := record.nextRunAtMs
    updatedAtMs := record.updatedAtMs }

/-- Updates the job's row, unless the database fails. -/
def updateJob (fails : Bool) (rows : List JobRow) (record : JobRecord) :
    Except String (List JobRow) :=
  let updated := rows.map fun row =>
    if row.schedulerId = record.schedulerId then row.updated record else row
  if fails || !updated.all JobRow.checks then .error "update failed" else .ok updated

end Scheduler

end Kinetick
