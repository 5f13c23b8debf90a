import Kinetick.Goal.Types
import Kinetick.Machine

/-!
# Active time of a Goal

`time-accounting.ts`: how long a Goal was active during a Turn. A baseline for each Turn says from
when the time counts, how long the Goal was paused so far, and since when it is. A row says when it
was last changed, which for a Goal that was paused or stopped is taken for when that was.

A call reads the clock once, in whole milliseconds.
-/

namespace Kinetick.Goal

structure LocalActiveTurnTiming where
  sessionId : String
  turnId : String
  startedAtMs : ℤ
  endedAtMs : Option ℤ := none

structure GoalTurnTimeBaseline where
  sessionId : String
  turnId : String
  goalId : String
  /-- Persisted total observed when this Turn first began accounting the Goal. -/
  baselineTimeUsedSeconds : ℕ
  countingStartedAtMs : ℤ
  totalPausedDurationMs : ℤ := 0
  pausedAtMs : Option ℤ := none

/-- The baselines by their Turns. -/
abbrev Baselines := String → Option GoalTurnTimeBaseline

/-- The baseline is of the Session and the Goal. -/
def GoalTurnTimeBaseline.isOf (timing : LocalActiveTurnTiming) (goal : ThreadGoalState)
    (baseline : GoalTurnTimeBaseline) : Bool :=
  baseline.sessionId = timing.sessionId && baseline.goalId = goal.goalId

/-- `TERMINAL_STATUSES` -/
def isTerminalStatus : ThreadGoalStatus → Bool
  | .complete | .blocked | .budgetLimited | .usageLimited => true
  | .active | .paused => false

namespace TimeAccounting

def clampToTimingWindow (timing : LocalActiveTurnTiming) (timestampMs : ℤ) : ℤ :=
  max timing.startedAtMs (min timestampMs (timing.endedAtMs.getD timestampMs))

def resolveCountingStartedAtMs (nowMs : ℤ) (timing : LocalActiveTurnTiming)
    (goalCreatedAtMs : ℤ) : ℤ :=
  max timing.startedAtMs (min goalCreatedAtMs (timing.endedAtMs.getD nowMs))

def effectiveElapsedSeconds (timing : LocalActiveTurnTiming) (baseline : GoalTurnTimeBaseline)
    (endAtMs : ℤ) : ℤ :=
  let elapsedMs := max 0 (clampToTimingWindow timing endAtMs - baseline.countingStartedAtMs -
    baseline.totalPausedDurationMs)
  if elapsedMs = 0 then 0 else ⌈(elapsedMs : ℚ) / 1000⌉

def resolveOrCreate (nowMs : ℤ) (timing : LocalActiveTurnTiming) (persisted : ThreadGoalState)
    (baselines : Baselines) : GoalTurnTimeBaseline × Baselines :=
  match (baselines timing.turnId).filter (GoalTurnTimeBaseline.isOf timing persisted) with
  | some current => (current, baselines)
  | none =>
    let baseline : GoalTurnTimeBaseline := {
      sessionId := timing.sessionId
      turnId := timing.turnId
      goalId := persisted.goalId
      baselineTimeUsedSeconds := persisted.timeUsedSeconds
      countingStartedAtMs := resolveCountingStartedAtMs nowMs timing persisted.createdAt }
    (baseline, Function.update baselines timing.turnId (some baseline))

/-- Ends the pause of a baseline, if it is of the Goal and there is one. -/
def resumeBaseline (timing : LocalActiveTurnTiming) (goal : ThreadGoalState)
    (baseline : GoalTurnTimeBaseline) (baselines : Baselines) :
    GoalTurnTimeBaseline × Baselines :=
  match baseline.pausedAtMs with
  | none => (baseline, baselines)
  | some pausedAtMs =>
    if baseline.isOf timing goal then
      let resumedAtMs := clampToTimingWindow timing goal.updatedAt
      let resumedBaseline := { baseline with
        totalPausedDurationMs := baseline.totalPausedDurationMs + max 0 (resumedAtMs - pausedAtMs)
        pausedAtMs := none }
      (resumedBaseline, Function.update baselines timing.turnId (some resumedBaseline))
    else (baseline, baselines)

def resume (nowMs : ℤ) (timing : LocalActiveTurnTiming) (goal : ThreadGoalState)
    (baselines : Baselines) : GoalTurnTimeBaseline × Baselines :=
  match baselines timing.turnId with
  | none => resolveOrCreate nowMs timing goal baselines
  | some baseline => resumeBaseline timing goal baseline baselines

/-- `elapsedSeconds` by a baseline. -/
def elapsedSecondsBy (nowMs : ℤ) (timing : LocalActiveTurnTiming) (goal : ThreadGoalState)
    (baseline : GoalTurnTimeBaseline) (baselines : Baselines) : ℤ × Baselines :=
  if isTerminalStatus goal.status then
    let (stoppedBaseline, baselines) := resumeBaseline timing goal baseline baselines
    (effectiveElapsedSeconds timing stoppedBaseline (clampToTimingWindow timing goal.updatedAt),
      baselines)
  else if goal.status ≠ .paused then
    let (resumedBaseline, baselines) := resumeBaseline timing goal baseline baselines
    (effectiveElapsedSeconds timing resumedBaseline (timing.endedAtMs.getD nowMs), baselines)
  else
    match baseline.pausedAtMs with
    | some pausedAtMs => (effectiveElapsedSeconds timing baseline pausedAtMs, baselines)
    | none =>
      let pausedAtMs := clampToTimingWindow timing goal.updatedAt
      let pausedBaseline := { baseline with pausedAtMs := some pausedAtMs }
      (effectiveElapsedSeconds timing pausedBaseline pausedAtMs,
        Function.update baselines timing.turnId (some pausedBaseline))

def elapsedSeconds (nowMs : ℤ) (timing : LocalActiveTurnTiming) (goal : ThreadGoalState)
    (baselines : Baselines) : ℤ × Baselines :=
  let (baseline, baselines) := resolveOrCreate nowMs timing goal baselines
  elapsedSecondsBy nowMs timing goal baseline baselines

/-- The Goal with the time it was active so far, where that is more than its row says. -/
def project (nowMs : ℤ) (persisted : ThreadGoalState) (timing : LocalActiveTurnTiming)
    (baselines : Baselines) : ThreadGoalState × Baselines :=
  let (baseline, baselines) := resolveOrCreate nowMs timing persisted baselines
  let (elapsed, baselines) := elapsedSecondsBy nowMs timing persisted baseline baselines
  ({ persisted with
      timeUsedSeconds :=
        max persisted.timeUsedSeconds (baseline.baselineTimeUsedSeconds + elapsed).toNat },
    baselines)

end TimeAccounting

/-! ### A Turn and its Goal -/

/-- A Turn and the Goal beside its accounting. `history` is what the Goal's status was, and since
when, the latest first; `noted` says that the pause it is in was accounted, and not resumed. -/
structure AccountedTurn where
  timing : LocalActiveTurnTiming
  goal : ThreadGoalState
  baselines : Baselines
  now : ℤ
  history : List (ℤ × ThreadGoalStatus)
  noted : Bool

/-- A Turn that starts, with a Goal that was not changed since, or was created in it. -/
structure StartedTurnOfGoal where
  timing : LocalActiveTurnTiming
  goal : ThreadGoalState
  baselines : Baselines
  now : ℤ
  running : timing.endedAtMs = none
  started : timing.startedAtMs ≤ now
  created : goal.createdAt ≤ now
  ordered : goal.createdAt ≤ goal.updatedAt
  unchanged : goal.updatedAt ≤ max timing.startedAtMs goal.createdAt
  fresh : ∀ baseline ∈ baselines timing.turnId, baseline.isOf timing goal = false

def StartedTurnOfGoal.turn (start : StartedTurnOfGoal) : AccountedTurn where
  timing := start.timing
  goal := start.goal
  baselines := start.baselines
  now := start.now
  history := [(max start.timing.startedAtMs start.goal.createdAt, start.goal.status)]
  noted := false

inductive AccountingCall
  | project
  | elapsedSeconds
  | resume
  deriving DecidableEq

inductive AccountingEvent
  /-- The status changes, and is reported by a call some time after. -/
  | change (time : ℤ) (status : ThreadGoalStatus) (reportedAt : ℤ) (report : AccountingCall)
  /-- The row is written, and keeps its status. -/
  | touch (time : ℤ)
  | call (time : ℤ) (call : AccountingCall)
  /-- The Turn is over, and settles. -/
  | settle (time : ℤ)
  deriving DecidableEq

namespace AccountedTurn

open TimeAccounting

/-- The call, with the row there is. -/
def perform (time : ℤ) (turn : AccountedTurn) : AccountingCall → AccountedTurn
  | .project =>
    { turn with
      now := time, baselines := (project time turn.goal turn.timing turn.baselines).2
      noted := true }
  | .elapsedSeconds =>
    { turn with
      now := time, baselines := (elapsedSeconds time turn.timing turn.goal turn.baselines).2
      noted := true }
  | .resume =>
    { turn with
      now := time, baselines := (resume time turn.timing turn.goal turn.baselines).2
      noted := false }

def changed (time : ℤ) (status : ThreadGoalStatus) (turn : AccountedTurn) : AccountedTurn :=
  { turn with
    goal := { turn.goal with status, updatedAt := time }
    now := time
    history := (time, status) :: turn.history
    noted := false }

def step (turn : AccountedTurn) : AccountingEvent → AccountedTurn
  | .change time status reportedAt report => (turn.changed time status).perform reportedAt report
  | .touch time => { turn with goal := { turn.goal with updatedAt := time }, now := time }
  | .call time call => turn.perform time call
  | .settle time =>
    { turn with
      timing := { turn.timing with endedAtMs := some (turn.timing.endedAtMs.getD time) }
      now := time }

/-- The milliseconds before `stop`, from `start` on, in which the Goal was active. -/
def activeMs (start : ℤ) : ℤ → List (ℤ × ThreadGoalStatus) → ℤ
  | _, [] => 0
  | stop, (since, status) :: earlier =>
    (if status = .active then max 0 (stop - max start since) else 0) +
      activeMs start (min stop since) earlier

/-- The milliseconds within the Turn, after the Goal was created and before `t`, in which it was
active. -/
def activeMsBefore (turn : AccountedTurn) (t : ℤ) : ℤ :=
  activeMs (max turn.timing.startedAtMs turn.goal.createdAt) (turn.timing.endedAtMs.getD t)
    turn.history

/-- From now on, the elapsed seconds are those the Goal was active for. -/
def Right (turn : AccountedTurn) : Prop :=
  ∀ t, turn.now ≤ t →
    (elapsedSeconds t turn.timing turn.goal turn.baselines).1 =
      ⌈(turn.activeMsBefore t : ℚ) / 1000⌉

/-- Time does not go back, and a change is reported as it is: one that pauses by projecting it, any
other by resuming or projecting it. -/
def Permitted (turn : AccountedTurn) : AccountingEvent → Prop
  | .change time status reportedAt report =>
    turn.now ≤ time ∧ time ≤ reportedAt ∧ report ≠ .elapsedSeconds ∧
      (status = .paused → report = .project)
  | .touch time => turn.now ≤ time
  | .call time _ => turn.now ≤ time
  | .settle time => turn.now ≤ time

/-- The Goal is active, or in a pause that was accounted. -/
def Watched (turn : AccountedTurn) : Prop :=
  turn.goal.status = .active ∨ turn.goal.status = .paused ∧ turn.noted = true

/-- A status that stops the Goal is not left and its row not written, nor is a pause before it was
accounted. -/
def Unstopped (turn : AccountedTurn) : AccountingEvent → Prop
  | .change _ _ _ _ => turn.Watched
  | .touch _ => turn.Watched
  | _ => True

instance (turn : AccountedTurn) : Decidable turn.Watched :=
  inferInstanceAs (Decidable (_ ∨ _))

instance (turn : AccountedTurn) (event : AccountingEvent) : Decidable (turn.Permitted event) := by
  cases event <;> unfold Permitted <;> infer_instance

instance (turn : AccountedTurn) (event : AccountingEvent) : Decidable (turn.Unstopped event) := by
  cases event <;> unfold Unstopped <;> infer_instance

end AccountedTurn

/-- The Turn as a machine, from one that starts. -/
def accountedTurns (start : StartedTurnOfGoal) : Machine AccountedTurn AccountingEvent Unit where
  initial := start.turn
  step turn event := (turn.step event, ())

end Kinetick.Goal
