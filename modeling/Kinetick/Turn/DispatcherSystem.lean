import Mathlib.Logic.Function.Basic
import Kinetick.Machine
import Kinetick.Turn.ClaimDispatch

/-!
# The dispatcher as a system of tasks

`createQueueDispatcher` over all its Sessions: every `dispatch`, drain, continued head, recovery and
`quiesceSession` is a task, and an event is one of them going on from an await, in any order. An
answer of the queue, the executor or an observer may be anything and may come at any time. Tasks and
states of Sessions are told apart by number, as objects are by identity.
-/

namespace Kinetick

structure SessionDispatchState where
  /-- The Session the state was made for. -/
  sessionId : String
  requestedWake : ℕ := 0
  startedWake : ℕ := 0
  recoverBeforeNextClaim : Bool := false
  /-- The drain that runs. -/
  running : Option ℕ := none
  deriving DecidableEq

/-- A call the dispatcher made. -/
inductive DispatcherCall
  | claimNext (continuePaused : Bool) (excludeItemIds : List String)
  | recoverClaims
  | ofClaim (call : DispatchCall)
  deriving DecidableEq

/-- Where the dispatch of one head stands. -/
inductive ClaimPoint (ε : Type)
  | claiming
  /-- Gives back a claim taken as the dispatcher stopped. -/
  | releasing (claim : QueueDispatchClaim)
  | dispatching (claim : QueueDispatchClaim) (rest : Dispatching ε QueueDispatchAttempt)
  /-- With no attempt, nothing was claimed. -/
  | finished (result : Except ε (Option QueueDispatchAttempt))

/-- An answer to what the dispatch of a head waits for. -/
inductive ClaimAnswer (ε : Type)
  | claimed (answer : Except ε (Option QueueDispatchClaim))
  | released (answer : Except ε Unit)
  | answered (call : DispatchCall) (answer : call.Answer ε)

/-- What a drain keeps beside the dispatch of a head. -/
structure DrainMarks where
  recoverBeforeNextClaim : Bool
  yielded : List String
  deriving DecidableEq

/-- The dispatch of one head. -/
structure HeadDispatch (ε : Type) where
  point : ClaimPoint ε
  marks : DrainMarks

namespace HeadDispatch

variable {ε : Type}

/-- A drain marks its Session to recover its claims, and the item as yielded; a continued head does
neither. -/
def answerLocally (drains : Bool) (claim : QueueDispatchClaim) :
    (call : DispatchCall) → DrainMarks → Option (call.Answer ε × DrainMarks)
  | .requireRecovery, marks =>
    some ((), if drains then { marks with recoverBeforeNextClaim := true } else marks)
  | .yieldItem, marks =>
    some ((), if drains then { marks with yielded := marks.yielded ++ [claim.itemId] } else marks)
  | _, _ => none

/-- The dispatch of a claim, up to what it waits for. -/
def goOn (drains : Bool) (claim : QueueDispatchClaim) (rest : Dispatching ε QueueDispatchAttempt)
    (marks : DrainMarks) : HeadDispatch ε :=
  let (rest, marks) := rest.runLocal (answerLocally drains claim) marks
  match rest with
  | .ret result => { point := .finished (result.map some), marks }
  | .ask call next => { point := .dispatching claim (.ask call next), marks }

/-- Goes on by an answer, if that is what it waits for. `stopped`: the dispatcher is closed or the
Session is blocked; `drains`: this is a drain, not a continued head. -/
def answer (stopped drains : Bool) (h : HeadDispatch ε) (a : ClaimAnswer ε) :
    Option (HeadDispatch ε) :=
  match h.point, a with
  | .claiming, .claimed (.error error) => some { h with point := .finished (.error error) }
  | .claiming, .claimed (.ok none) => some { h with point := .finished (.ok none) }
  | .claiming, .claimed (.ok (some claim)) =>
    if stopped then some { h with point := .releasing claim }
    else some (goOn drains claim (Interleaved.dispatchClaim claim drains) h.marks)
  | .releasing _, .released (.error error) => some { h with point := .finished (.error error) }
  | .releasing _, .released (.ok _) => some { h with point := .finished (.ok none) }
  | .dispatching claim rest, .answered call answer =>
    (rest.resume call answer).map fun rest => goOn drains claim rest h.marks
  | _, _ => none

end HeadDispatch

/-- The call a dispatch of a head waits for, of those it makes after it claimed. -/
def ClaimPoint.asked {ε : Type} : ClaimPoint ε → Option DispatcherCall
  | claiming => none
  | releasing _ => some (.ofClaim (.release none))
  | dispatching _ rest => rest.asked.map .ofClaim
  | finished _ => none

/-- Where a drain stands. -/
inductive DrainPoint (ε : Type)
  | recovering
  | heading (head : ClaimPoint ε)
  /-- A head was dispatched, and the drain is to go on or end. -/
  | attempted (drainAgain : Bool)
  /-- The drain is over, and what follows it has not run yet. -/
  | ended (result : Except ε Unit)
  | settled (result : Except ε Unit)

structure Drain (ε : Type) where
  sessionId : String
  /-- The number of its `SessionDispatchState`. -/
  state : ℕ
  yielded : List String
  point : DrainPoint ε

inductive CallPoint
  /-- Awaits the drain. -/
  | waiting (drain : ℕ)
  | resolved
  | rejected
  deriving DecidableEq

/-- A call of `dispatch`, unless it returned or threw at once. -/
structure WakeCall where
  sessionId : String
  state : ℕ
  wake : ℕ
  point : CallPoint
  /-- How many calls the dispatcher had made when it started. -/
  startedAt : ℕ
  deriving DecidableEq

inductive ContinuedPoint (ε : Type)
  | heading (head : ClaimPoint ε)
  | ended (result : Except ε QueueSteerDispatchResult)
  | settled (result : Except ε QueueSteerDispatchResult)

/-- The operation of a `continuePaused`. -/
structure ContinuedDispatch (ε : Type) where
  sessionId : String
  point : ContinuedPoint ε

inductive RecoveryPoint (ε : Type)
  | recoveringState
  | listing
  | recovering (rest : List String)
  | ended (result : Except ε Unit)

/-- A call of `recoverPending`: `forgotten` once it is no longer among the recoveries. -/
structure Recovery (ε : Type) where
  point : RecoveryPoint ε
  forgotten : Bool

inductive QuiescePoint
  | waiting
  /-- With how many calls the dispatcher had made by then. -/
  | resolved (calls : ℕ)
  | rejected
  deriving DecidableEq

/-- A call of `quiesceSession`, with what it awaits. -/
structure QuiesceCall where
  sessionId : String
  running : Option ℕ
  recoveries : List ℕ
  point : QuiescePoint
  deriving DecidableEq

/-- The `drainDispatcher` of `close`, with what it awaits. -/
structure Closing where
  drains : List ℕ
  continued : List ℕ
  recoveries : List ℕ
  settled : Bool
  deriving DecidableEq

/-- `QueueDrainContext`, with every object and task made so far. -/
structure DispatcherState (ε : Type) where
  objects : List SessionDispatchState
  states : String → Option ℕ
  blockedSessions : List String
  continuedDispatches : String → Option ℕ
  closed : Bool
  drains : List (Drain ε)
  wakes : List WakeCall
  continued : List (ContinuedDispatch ε)
  recoveries : List (Recovery ε)
  quiesces : List QuiesceCall
  closing : Option Closing
  /-- The calls made so far, each with its Session. -/
  calls : List (String × DispatcherCall)

/-- A task goes on, or a caller calls. -/
inductive DispatcherEvent (ε : Type)
  | dispatch (sessionId : String)
  | continuePaused (sessionId : String)
  | recoverPending
  | quiesceSession (sessionId : String)
  | close
  /-- The drain's `recoverClaims` answers. -/
  | drainRecovered (drain : ℕ) (answer : Except ε Unit)
  | drainAnswered (drain : ℕ) (answer : ClaimAnswer ε)
  /-- The drain goes on after a head. -/
  | drainResumed (drain : ℕ)
  /-- What follows a drain runs. -/
  | drainSettled (drain : ℕ)
  /-- A `dispatch` goes on after the drain it awaits. -/
  | wakeResumed (wake : ℕ)
  | continuedAnswered (continued : ℕ) (answer : ClaimAnswer ε)
  | continuedSettled (continued : ℕ)
  /-- `recoverState` answers. -/
  | recoveredState (recovery : ℕ) (answer : Except ε Unit)
  | pendingListed (recovery : ℕ) (answer : Except ε (List String))
  | recoveredClaims (recovery : ℕ) (answer : Except ε Unit)
  | recoveryForgotten (recovery : ℕ)
  | quiesceResumed (quiesce : ℕ)
  | closeResumed

namespace DispatcherState

variable {ε : Type} (st : DispatcherState ε)

/-- The dispatcher is closed or the Session is blocked. -/
def stopped (sessionId : String) : Bool := st.closed || st.blockedSessions.contains sessionId

def call (sessionId : String) (c : DispatcherCall) : DispatcherState ε :=
  { st with calls := st.calls ++ [(sessionId, c)] }

def setDrain (n : ℕ) (d : Drain ε) : DispatcherState ε := { st with drains := st.drains.set n d }

def setObject (i : ℕ) (o : SessionDispatchState) : DispatcherState ε :=
  { st with objects := st.objects.set i o }

def setState (sessionId : String) (i : Option ℕ) : DispatcherState ε :=
  { st with states := Function.update st.states sessionId i }

/-- `dispatchNext` of a drain, to its first await. -/
def dispatchNext (n : ℕ) (d : Drain ε) : DispatcherState ε :=
  if st.stopped d.sessionId then st.setDrain n { d with point := .attempted false }
  else (st.setDrain n { d with point := .heading .claiming }).call d.sessionId
    (.claimNext false d.yielded)

/-- A pass of the loop of `drain`, to its first await. -/
def drainPass (n : ℕ) (d : Drain ε) (o : SessionDispatchState) : DispatcherState ε :=
  let d := { d with yielded := if o.startedWake < o.requestedWake then [] else d.yielded }
  let st := st.setObject d.state { o with startedWake := o.requestedWake }
  if o.recoverBeforeNextClaim && !st.stopped d.sessionId then
    (st.setDrain n { d with point := .recovering }).call d.sessionId .recoverClaims
  else st.dispatchNext n d

/-- The drain is the one that runs for its state before its first pass: nothing reads that before
the pass ends. -/
def startDrain (i : ℕ) (o : SessionDispatchState) : DispatcherState ε :=
  let n := st.drains.length
  let o := { o with running := some n }
  let d : Drain ε := {
    sessionId := o.sessionId, state := i, yielded := [], point := .attempted true }
  DispatcherState.drainPass { st with drains := st.drains ++ [d] } n d o

/-- The test of the loop of `dispatch`, and what it awaits. -/
def awaitWake (i wake : ℕ) : CallPoint × DispatcherState ε :=
  match st.objects[i]? with
  | none => (.resolved, st)
  | some o =>
    if o.startedWake < wake then
      match o.running with
      | some n => (.waiting n, st)
      | none => (.waiting st.drains.length, st.startDrain i o)
    else (.resolved, st)

/-- The Session's state, made where there is none. -/
def stateOf (sessionId : String) : ℕ × DispatcherState ε :=
  match st.states sessionId with
  | some i => (i, st)
  | none => (st.objects.length,
      DispatcherState.setState { st with objects := st.objects ++ [{ sessionId }] } sessionId
        (some st.objects.length))

def dispatch (sessionId : String) : DispatcherState ε :=
  if st.stopped sessionId then st
  else
    let startedAt := st.calls.length
    let (i, st) := st.stateOf sessionId
    match st.objects[i]? with
    | none => st
    | some o =>
      let wake := o.requestedWake + 1
      let (point, st) := (st.setObject i { o with requestedWake := wake }).awaitWake i wake
      { st with wakes := st.wakes ++ [{ sessionId, state := i, wake, point, startedAt }] }

/-- How the drain's promise settled. -/
def drainResult (n : ℕ) : Option (Except ε Unit) :=
  match st.drains[n]? with
  | some { point := .settled result, .. } => some result
  | _ => none

def wakeResumed (x : ℕ) : DispatcherState ε :=
  match st.wakes[x]? with
  | some { sessionId, state, wake, point := .waiting n, startedAt } =>
    match st.drainResult n, st.objects[state]? with
    | some result, some o =>
      let (point, st) := if !result.isOk && wake ≤ o.startedWake then (.rejected, st)
        else st.awaitWake state wake
      { st with wakes := st.wakes.set x { sessionId, state, wake, point, startedAt } }
    | _, _ => st
  | _ => st

def drainRecovered (n : ℕ) (answer : Except ε Unit) : DispatcherState ε :=
  match st.drains[n]? with
  | some d =>
    match d.point, st.objects[d.state]? with
    | .recovering, some o =>
      match answer with
      | .error error => st.setDrain n { d with point := .ended (.error error) }
      | .ok _ =>
        (st.setObject d.state { o with recoverBeforeNextClaim := false }).dispatchNext n d
    | _, _ => st
  | none => st

/-- Where a drain stands with its head. -/
def drainPoint : ClaimPoint ε → DrainPoint ε
  | .finished (.ok attempt) => .attempted (attempt.any (·.drainAgain))
  | .finished (.error error) => .ended (.error error)
  | point => .heading point

/-- Logs what a head waits for. -/
def callOf (sessionId : String) (point : ClaimPoint ε) : DispatcherState ε :=
  match point.asked with
  | some c => st.call sessionId c
  | none => st

def drainAnswered (n : ℕ) (answer : ClaimAnswer ε) : DispatcherState ε :=
  match st.drains[n]? with
  | some d =>
    match d.point, st.objects[d.state]? with
    | .heading point, some o =>
      let marks := { recoverBeforeNextClaim := o.recoverBeforeNextClaim, yielded := d.yielded }
      match HeadDispatch.answer (st.stopped d.sessionId) true { point, marks }
        answer with
      | none => st
      | some h =>
        let d := { d with point := drainPoint h.point, yielded := h.marks.yielded }
        let o := { o with recoverBeforeNextClaim := h.marks.recoverBeforeNextClaim }
        ((st.setDrain n d).setObject d.state o).callOf d.sessionId h.point
    | _, _ => st
  | none => st

/-- The test of the loop of `drain`. -/
def drainResumed (n : ℕ) : DispatcherState ε :=
  match st.drains[n]? with
  | some d =>
    match d.point, st.objects[d.state]? with
    | .attempted drainAgain, some o =>
      if !st.stopped d.sessionId && (drainAgain || o.startedWake < o.requestedWake) then
        st.drainPass n d o
      else st.setDrain n { d with point := .ended (.ok ()) }
    | _, _ => st
  | none => st

/-- The `finally` of `drainAndRelease`. -/
def drainSettled (n : ℕ) : DispatcherState ε :=
  match st.drains[n]? with
  | some d =>
    match d.point, st.objects[d.state]? with
    | .ended result, some o =>
      let st := (st.setDrain n { d with point := .settled result }).setObject d.state
        { o with running := none }
      if o.startedWake = o.requestedWake ∧ o.recoverBeforeNextClaim = false ∧
          st.states d.sessionId = some d.state then
        st.setState d.sessionId none
      else st
    | _, _ => st
  | none => st

def continuePaused (sessionId : String) : DispatcherState ε :=
  if st.closed then st
  else match st.continuedDispatches sessionId with
  | some _ => st
  | none =>
    let st := { st with
      continuedDispatches :=
        Function.update st.continuedDispatches sessionId (some st.continued.length) }
    if st.blockedSessions.contains sessionId then
      { st with continued := st.continued ++ [{ sessionId, point := .ended (.ok .notClaimed) }] }
    else
      DispatcherState.call
        { st with continued := st.continued ++ [{ sessionId, point := .heading .claiming }] }
        sessionId (.claimNext true [])

/-- Where a continued dispatch stands with its head. -/
def continuedPoint : ClaimPoint ε → ContinuedPoint ε
  | .finished (.ok none) => .ended (.ok .notClaimed)
  | .finished (.ok (some attempt)) => .ended (.ok attempt.result)
  | .finished (.error error) => .ended (.error error)
  | point => .heading point

def continuedAnswered (n : ℕ) (answer : ClaimAnswer ε) : DispatcherState ε :=
  match st.continued[n]? with
  | some c =>
    match c.point with
    | .heading point =>
      let marks := { recoverBeforeNextClaim := false, yielded := [] }
      match HeadDispatch.answer (st.stopped c.sessionId) false { point, marks }
        answer with
      | none => st
      | some h =>
        let c := { c with point := continuedPoint h.point }
        DispatcherState.callOf { st with continued := st.continued.set n c } c.sessionId h.point
    | _ => st
  | none => st

/-- The `finally` of `runContinuedHead`. -/
def continuedSettled (n : ℕ) : DispatcherState ε :=
  match st.continued[n]? with
  | some c =>
    match c.point with
    | .ended result =>
      { st with
        continued := st.continued.set n { c with point := .settled result }
        continuedDispatches := Function.update st.continuedDispatches c.sessionId none }
    | _ => st
  | none => st

def setRecovery (n : ℕ) (point : RecoveryPoint ε) : DispatcherState ε :=
  { st with recoveries := st.recoveries.modify n fun r => { r with point } }

def recoverPending : DispatcherState ε :=
  if st.closed then st
  else { st with recoveries := st.recoveries ++ [{ point := .recoveringState, forgotten := false }] }

/-- The loop of `recoverDispatcher`, to its next await. -/
def recoverNext (n : ℕ) : List String → DispatcherState ε
  | [] => st.setRecovery n (.ended (.ok ()))
  | sessionId :: rest =>
    if st.closed then st.setRecovery n (.ended (.ok ()))
    else (st.setRecovery n (.recovering rest)).call sessionId .recoverClaims

def recoveryPoint (n : ℕ) : Option (RecoveryPoint ε) := st.recoveries[n]?.map (·.point)

def recoveredState (n : ℕ) (answer : Except ε Unit) : DispatcherState ε :=
  match st.recoveryPoint n, answer with
  | some .recoveringState, .error error => st.setRecovery n (.ended (.error error))
  | some .recoveringState, .ok _ =>
    st.setRecovery n (if st.closed then .ended (.ok ()) else .listing)
  | _, _ => st

def pendingListed (n : ℕ) (answer : Except ε (List String)) : DispatcherState ε :=
  match st.recoveryPoint n, answer with
  | some .listing, .error error => st.setRecovery n (.ended (.error error))
  | some .listing, .ok sessionIds => st.recoverNext n sessionIds
  | _, _ => st

def recoveredClaims (n : ℕ) (answer : Except ε Unit) : DispatcherState ε :=
  match st.recoveryPoint n, answer with
  | some (.recovering _), .error error => st.setRecovery n (.ended (.error error))
  | some (.recovering rest), .ok _ => st.recoverNext n rest
  | _, _ => st

/-- The `finally` of `recoverPending`. -/
def recoveryForgotten (n : ℕ) : DispatcherState ε :=
  match st.recoveryPoint n with
  | some (.ended _) =>
    { st with recoveries := st.recoveries.modify n fun r => { r with forgotten := true } }
  | _ => st

/-- How the recovery's promise settled. -/
def recoveryResult (n : ℕ) : Option (Except ε Unit) :=
  match st.recoveryPoint n with
  | some (.ended result) => some result
  | _ => none

/-- How the continued dispatch's promise settled. -/
def continuedResult (n : ℕ) : Option (Except ε QueueSteerDispatchResult) :=
  match st.continued[n]? with
  | some { point := .settled result, .. } => some result
  | _ => none

/-- The recoveries that are not forgotten. -/
def pendingRecoveries : List ℕ :=
  (List.range st.recoveries.length).filter fun n => st.recoveries[n]?.any fun r => !r.forgotten

def quiesceSession (sessionId : String) : DispatcherState ε :=
  let running := (st.states sessionId).bind fun i => st.objects[i]?.bind (·.running)
  { st with
    blockedSessions := if st.blockedSessions.contains sessionId then st.blockedSessions
      else st.blockedSessions ++ [sessionId]
    quiesces := st.quiesces ++ [{
      sessionId, running, recoveries := st.pendingRecoveries, point := .waiting }] }

def quiesceResumed (n : ℕ) : DispatcherState ε :=
  match st.quiesces[n]? with
  | some q =>
    let results := (q.running.map st.drainResult).toList ++ q.recoveries.map st.recoveryResult
    if q.point = .waiting ∧ ∀ r ∈ results, r.isSome then
      let point := if results.all (·.any Except.isOk) then .resolved st.calls.length else .rejected
      { st.setState q.sessionId none with quiesces := st.quiesces.set n { q with point } }
    else st
  | none => st

/-- The drains that run for a state a Session has. -/
def runningDrains : List ℕ :=
  (List.range st.objects.length).filterMap fun i =>
    st.objects[i]?.bind fun o => if st.states o.sessionId = some i then o.running else none

def close : DispatcherState ε :=
  match st.closing with
  | some _ => st
  | none =>
    { st with
      closed := true
      closing := some {
        drains := st.runningDrains
        continued := (List.range st.continued.length).filter fun n =>
          st.continued[n]?.any fun c => st.continuedDispatches c.sessionId = some n
        recoveries := st.pendingRecoveries
        settled := false } }

def closeResumed : DispatcherState ε :=
  match st.closing with
  | some c =>
    if c.settled = false ∧ (∀ n ∈ c.drains, (st.drainResult n).isSome) ∧
        (∀ n ∈ c.continued, (st.continuedResult n).isSome) ∧
        ∀ n ∈ c.recoveries, (st.recoveryResult n).isSome then
      { st with states := fun _ => none, closing := some { c with settled := true } }
    else st
  | none => st

def next (st : DispatcherState ε) : DispatcherEvent ε → DispatcherState ε
  | .dispatch sessionId => st.dispatch sessionId
  | .continuePaused sessionId => st.continuePaused sessionId
  | .recoverPending => st.recoverPending
  | .quiesceSession sessionId => st.quiesceSession sessionId
  | .close => st.close
  | .drainRecovered n answer => st.drainRecovered n answer
  | .drainAnswered n answer => st.drainAnswered n answer
  | .drainResumed n => st.drainResumed n
  | .drainSettled n => st.drainSettled n
  | .wakeResumed n => st.wakeResumed n
  | .continuedAnswered n answer => st.continuedAnswered n answer
  | .continuedSettled n => st.continuedSettled n
  | .recoveredState n answer => st.recoveredState n answer
  | .pendingListed n answer => st.pendingListed n answer
  | .recoveredClaims n answer => st.recoveredClaims n answer
  | .recoveryForgotten n => st.recoveryForgotten n
  | .quiesceResumed n => st.quiesceResumed n
  | .closeResumed => st.closeResumed

/-- `createQueueDispatcher` -/
def initial : DispatcherState ε where
  objects := []
  states _ := none
  blockedSessions := []
  continuedDispatches _ := none
  closed := false
  drains := []
  wakes := []
  continued := []
  recoveries := []
  quiesces := []
  closing := none
  calls := []

end DispatcherState

/-- The state says all there is to see. -/
def dispatcherSystem (ε : Type) : Machine (DispatcherState ε) (DispatcherEvent ε) Unit where
  initial := .initial
  step st e := (st.next e, ())

/-!
## What the dispatcher promises of its tasks

At most one drain of a Session runs, a `dispatch` that resolves was followed by a claim or the recovery
before one, and a Session that was quiesced is drained no more.
-/

variable {ε : Type}

def DrainPoint.Settled : DrainPoint ε → Prop
  | settled _ => True
  | _ => False

/-- The drain waits for the queue or a dispatch. -/
def DrainPoint.Busy : DrainPoint ε → Prop
  | recovering => True
  | heading _ => True
  | _ => False

/-- One of the calls asks the queue for a head of the Session, or to recover its claims. -/
def Asks (sessionId : String) (cs : List (String × DispatcherCall)) : Prop :=
  (∃ excludeItemIds, (sessionId, .claimNext false excludeItemIds) ∈ cs) ∨
    (sessionId, .recoverClaims) ∈ cs

namespace DispatcherState

/-- At most one drain of the Session runs. -/
def OneDrain (sessionId : String) (st : DispatcherState ε) : Prop :=
  ∀ (n m : ℕ) (d d' : Drain ε), st.drains[n]? = some d → st.drains[m]? = some d' →
    d.sessionId = sessionId → d'.sessionId = sessionId →
    ¬ d.point.Settled → ¬ d'.point.Settled → n = m

/-- Every `dispatch` of the Session that resolved made the dispatcher ask the queue, unless the
dispatcher is closed or the Session blocked. -/
def WakesKept (sessionId : String) (st : DispatcherState ε) : Prop :=
  ∀ w ∈ st.wakes, w.sessionId = sessionId → w.point = .resolved →
    st.stopped sessionId = true ∨ Asks sessionId (st.calls.drop w.startedAt)

/-- No drain of the Session waits for the queue or a dispatch. -/
def Drained (sessionId : String) (st : DispatcherState ε) : Prop :=
  ∀ d ∈ st.drains, d.sessionId = sessionId → ¬ d.point.Busy

/-- A Session is drained once a `quiesceSession` of it or the closing of the dispatcher is over. -/
def StaysDrained (st : DispatcherState ε) : Prop :=
  (∀ q ∈ st.quiesces, q.point ≠ .waiting → st.Drained q.sessionId) ∧
    ∀ c, st.closing = some c → c.settled = true → ∀ sessionId, st.Drained sessionId

end DispatcherState

end Kinetick
