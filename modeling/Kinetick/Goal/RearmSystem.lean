import Kinetick.Goal.Continuation
import Kinetick.Machine

/-!
# Re-arming as a system of calls

The calls of the continuation module run side by side, and an event is one of them going on by an
answer, a call that begins, or another writer's change of a Session's row. A call may be switched
from wherever it asks, which the awaits of the code are among. The state notes each arm that took
place: whether its Goal stayed active since, and whether a message of it at no earlier epoch was
handed to the Queue or to a Turn.
-/

namespace Kinetick.Goal

open Continuation

inductive ContinuationCall
  | armUserPatch (goal : ThreadGoalState)
  | armExplicitReset (goal : ThreadGoalState)
  | drain (sessionId turnId : String)
  | enqueueActive (sessionId turnId : String)
  | handleChanged (event : ThreadGoalChangedEvent)
  | reconcileInitial (goal : ThreadGoalState) (dispatch : Bool)
  | consumeDelivered (goal : ThreadGoalState)
  deriving DecidableEq

def ContinuationCall.run : ContinuationCall → ContinuationM Unit
  | armUserPatch goal => Continuation.armUserPatch goal
  | armExplicitReset goal => Continuation.armExplicitReset goal
  | drain sessionId turnId => Continuation.drain sessionId turnId
  | enqueueActive sessionId turnId => Continuation.enqueueActive sessionId turnId
  | handleChanged event => Continuation.handleChanged event
  | reconcileInitial goal dispatch => do let _ ← reconcile goal dispatch false
  | consumeDelivered goal => Continuation.consumeDelivered goal

def ContinuationCall.isDrain : ContinuationCall → Bool
  | drain _ _ => true
  | _ => false

/-- A call with what is left of it. -/
structure OpenCall where
  call : ContinuationCall
  rest : ContinuationM Unit

/-- An arm that took place. -/
structure ArmNote where
  sessionId : String
  goalId : String
  epoch : ℤ
  generation : ℕ
  /-- The Goal was active ever since. -/
  active : Bool
  /-- A message of the Goal at the epoch or a later one was handed over since. -/
  handed : Bool
  deriving DecidableEq

structure ContinuationState where
  /-- The Goal of each Session. -/
  goals : String → Option ThreadGoalState
  pending : String → Option ArmedRearm
  generations : ℕ
  awaitingRedelivery : List String
  refreshTails : String → Option ℕ
  /-- How many refreshes there were, and those that have settled. -/
  refreshes : ℕ
  settledRefreshes : List ℕ
  calls : List OpenCall
  arms : List ArmNote

def ContinuationState.empty : ContinuationState where
  goals _ := none
  pending _ := none
  generations := 0
  awaitingRedelivery := []
  refreshTails _ := none
  refreshes := 0
  settledRefreshes := []
  calls := []
  arms := []

/-! ### What an answer does -/

/-- The order of a kickoff's states. -/
def ThreadGoalKickoffState.rank : ThreadGoalKickoffState → ℕ
  | pending => 0
  | enqueued => 1
  | consumed => 2

/-- The Goal is the Session's, and active. -/
def hasActive (goals : String → Option ThreadGoalState) (sessionId goalId : String) : Bool :=
  (goals sessionId).any fun goal => goal.goalId = goalId && goal.status = .active

def ArmNote.watch (goals : String → Option ThreadGoalState) (a : ArmNote) : ArmNote :=
  { a with active := a.active && hasActive goals a.sessionId a.goalId }

def ArmNote.hear (message : GoalMessage) (a : ArmNote) : ArmNote :=
  { a with
    handed := a.handed || (message.goalId = a.goalId && a.epoch ≤ message.goalUpdatedAt) }

namespace ContinuationState

/-- The state with the rows of the Sessions changed. -/
def write (s : ContinuationState) (goals : String → Option ThreadGoalState) : ContinuationState :=
  { s with goals, arms := s.arms.map (ArmNote.watch goals) }

/-- The state once a message is handed over. -/
def hand (s : ContinuationState) (message : GoalMessage) : ContinuationState :=
  { s with arms := s.arms.map (ArmNote.hear message) }

/-- `arm` -/
def arm (s : ContinuationState) (goal : ThreadGoalState) : ContinuationState :=
  let generation := s.generations + 1
  { s with
    generations := generation
    pending := Function.update s.pending goal.sessionId (some ⟨goal.goalId, generation⟩)
    arms := s.arms ++ [{
      sessionId := goal.sessionId, goalId := goal.goalId, epoch := goal.updatedAt, generation
      active := hasActive s.goals goal.sessionId goal.goalId, handed := false }] }

/-- `UPDATE … SET kickoff_state = ? WHERE goal_id = ? AND kickoff_state = ?` -/
def transitionKickoff (s : ContinuationState) (sessionId goalId : String)
    (expected next : ThreadGoalKickoffState) : ContinuationState :=
  match s.goals sessionId with
  | some goal =>
    if goal.goalId = goalId ∧ goal.kickoffState = expected then
      { s with
        goals := Function.update s.goals sessionId (some { goal with kickoffState := next }) }
    else s
  | none => s

/-- What may be answered: the fields and the store answer what they hold, the host anything. -/
def Answers (s : ContinuationState) : (c : ContinuationAsk) → c.Reply → Prop
  | .observe sessionId _, r => r = (s.pending sessionId).map ArmedRearm.generation
  | .claim sessionId, r => r = s.pending sessionId
  | .isAwaitingRedelivery goalId, r => r = s.awaitingRedelivery.contains goalId
  | .joinRefreshes sessionId, r => r = (s.refreshTails sessionId, s.refreshes)
  | .previousRefresh previous, _ => ∀ number ∈ previous, number ∈ s.settledRefreshes
  | .getBySession sessionId _, r => ∀ goal ∈ r.toOption, goal = s.goals sessionId
  | _, _ => True

instance (s : ContinuationState) (c : ContinuationAsk) (r : c.Reply) :
    Decidable (s.Answers c r) := by
  cases c <;> unfold Answers <;> infer_instance

/-- What the state is once that is answered. -/
def answered (s : ContinuationState) : (c : ContinuationAsk) → c.Reply → ContinuationState
  | .clearScheduled sessionId observed, _ =>
    if (s.pending sessionId).isSome ∧
        (s.pending sessionId).map ArmedRearm.generation = observed then
      { s with pending := Function.update s.pending sessionId none }
    else s
  | .clear sessionId, _ => { s with pending := Function.update s.pending sessionId none }
  | .arm goal, _ => s.arm goal
  | .claim sessionId, _ => { s with pending := Function.update s.pending sessionId none }
  | .restore sessionId armed, _ =>
    if (s.pending sessionId).isSome then s
    else { s with pending := Function.update s.pending sessionId (some armed) }
  | .awaitRedelivery goalId, _ => { s with awaitingRedelivery := goalId :: s.awaitingRedelivery }
  | .redelivered goalId, _ =>
    { s with awaitingRedelivery := s.awaitingRedelivery.filter (· ≠ goalId) }
  | .joinRefreshes sessionId, _ =>
    { s with
      refreshTails := Function.update s.refreshTails sessionId (some s.refreshes)
      refreshes := s.refreshes + 1 }
  | .leaveRefreshes sessionId number, _ =>
    { s with
      settledRefreshes := number :: s.settledRefreshes
      refreshTails := if s.refreshTails sessionId = some number then
        Function.update s.refreshTails sessionId none else s.refreshTails }
  | .transitionKickoffState sessionId goalId expected next, r =>
    if r.isOk then s.transitionKickoff sessionId goalId expected next else s
  | .enqueueInitialContinuationTurn _ message, r =>
    if r.toOption = some true then s.hand message else s
  | .enqueuePostTurnContinuation _ _ message _, r => if r.isOk then s.hand message else s
  | .startContinuationTurn _ message, r =>
    if r.toOption = some .started then s.hand message else s
  | _, _ => s

end ContinuationState

/-! ### The machine -/

inductive ContinuationEvent
  /-- Another writer leaves the Session with this row. -/
  | write (sessionId : String) (row : Option ThreadGoalState)
  | begin (call : ContinuationCall)
  | reply (i : ℕ) (c : ContinuationAsk) (r : c.Reply)

/-- What a writer leaves: a row of the Session, with neither the epoch of the Goal nor its kickoff
moved back. -/
def Follows (sessionId : String) (row row' : Option ThreadGoalState) : Prop :=
  ∀ goal' ∈ row', goal'.sessionId = sessionId ∧ ∀ goal ∈ row, goal'.goalId = goal.goalId →
    goal.updatedAt ≤ goal'.updatedAt ∧ goal.kickoffState.rank ≤ goal'.kickoffState.rank

instance (sessionId : String) (row row' : Option ThreadGoalState) :
    Decidable (Follows sessionId row row') := by
  unfold Follows
  infer_instance

def ContinuationState.step (s : ContinuationState) : ContinuationEvent → ContinuationState
  | .write sessionId row =>
    if Follows sessionId (s.goals sessionId) row then s.write (Function.update s.goals sessionId row) else s
  | .begin call => { s with calls := s.calls ++ [⟨call, call.run⟩] }
  | .reply i c r =>
    match s.calls[i]? with
    | some entry =>
      match entry.rest.resume c r with
      | some rest =>
        if s.Answers c r then
          { s.answered c r with calls := s.calls.set i ⟨entry.call, rest⟩ }
        else s
      | none => s
    | none => s

def continuationMachine : Machine ContinuationState ContinuationEvent Unit where
  initial := .empty
  step s e := (s.step e, ())

/-! ### What is promised -/

/-- No call is in progress. -/
def Quiescent (s : ContinuationState) : Prop := ∀ entry ∈ s.calls, entry.rest.asked = none

/-- Where no call is in progress, each arm on a Goal that stayed active has its Session armed still
or was followed by a message. -/
def RearmDebtKept (s : ContinuationState) : Prop :=
  Quiescent s → ∀ a ∈ s.arms, a.active → (s.pending a.sessionId).isSome ∨ a.handed

instance (s : ContinuationState) : Decidable (RearmDebtKept s) := by
  unfold RearmDebtKept Quiescent
  infer_instance

/-- An answer with which no debt is lost. -/
def GoodAnswer (s : ContinuationState) (call : ContinuationCall) :
    (c : ContinuationAsk) → c.Reply → Prop
  /- An arm is made with a row of the Goal the Session has. -/
  | .arm goal, _ => ∀ row, s.goals goal.sessionId = some row → row.status = .active →
      row.goalId = goal.goalId ∧ goal.updatedAt ≤ row.updatedAt
  /- A kick that finds the Session armed was told of a row that is not older than the Goal's. -/
  | .observe sessionId (some kicked), _ => (s.pending sessionId).isSome →
      ∀ row, s.goals sessionId = some row → row.status = .active →
        row.goalId = kicked.goalId ∧ row.updatedAt ≤ kicked.updatedAt
  /- A marker is dropped for a Goal that is complete or deleted where none is active. -/
  | .clear sessionId, _ => (s.pending sessionId).isSome →
      ∀ row, s.goals sessionId = some row → row.status ≠ .active
  /- A drain that fails finds no marker, or one that is newer than the one it claimed. -/
  | .restore sessionId armed, _ =>
      ∀ newer, s.pending sessionId = some newer → armed.generation < newer.generation
  /- A drain does not find the kickoff consumed when it reads the Goal again to rebuild it. -/
  | .getBySession _ (some observed), r => call.isDrain → ∀ row, r.toOption.join = some row →
      row.goalId = observed.goalId → row.status = .active → row.kickoffState ≠ .consumed
  /- A kickoff it cancels is queued no more, nor again when it puts its own in the Queue. -/
  | .hasPendingInitialContinuation _ _ cancelled, r =>
      call.isDrain → cancelled → r.toOption ≠ some true
  | .enqueueInitialContinuationTurn _ _, r => call.isDrain → r.toOption ≠ some false
  /- It has a Queue to hand the continuation to. -/
  | .hasPostTurnQueue, r => call.isDrain → r = true
  | _, _ => True

instance decidableForallEqSome {α : Type} {o : Option α} {P : α → Prop} [DecidablePred P] :
    Decidable (∀ a, o = some a → P a) :=
  match o with
  | none => .isTrue nofun
  | some a => decidable_of_iff (P a) (by simp)

instance (s : ContinuationState) (call : ContinuationCall) (c : ContinuationAsk) (r : c.Reply) :
    Decidable (GoodAnswer s call c r) := by
  cases c
  case observe sessionId kicked => cases kicked <;> unfold GoodAnswer <;> infer_instance
  case getBySession sessionId observed => cases observed <;> unfold GoodAnswer <;> infer_instance
  all_goals
    unfold GoodAnswer
    infer_instance

/-- A step with which no debt is lost. -/
def GoodStep (s : ContinuationState) : ContinuationEvent → Prop
  | .reply i c r => ∀ entry, s.calls[i]? = some entry → GoodAnswer s entry.call c r
  | _ => True

instance (s : ContinuationState) (e : ContinuationEvent) : Decidable (GoodStep s e) := by
  cases e <;> unfold GoodStep <;> infer_instance

end Kinetick.Goal
