import Kinetick.Table
import Kinetick.Turn.Repository
import Mathlib.Data.Finset.Dedup
import Mathlib.Data.Finset.Erase
import Mathlib.Data.Finset.Lattice.Basic
import Mathlib.Data.Finset.SDiff

/-!
# The Turn controller

The controller holds the accepted Turn of each Session that runs in this process, with the messages
steered into it. The runner drains the ordinary messages, acknowledges or restores them, and claims
those of a tool result's tail. A Turn ends by a close, an abnormal seal or an abort; each hands the
messages nobody consumed to `onSteeringDiscarded`, which the functions return as a list of calls.
What waits for a timer or a promise is left out: a renewal is the call that its answer makes.
-/

namespace Kinetick

/-- What the controller reads of a steering message. -/
structure AgentHostSteeringMessage where
  producerId : String
  idempotencyKey : String
  deriving DecidableEq

def AgentHostSteeringMessage.steeringIdentity (message : AgentHostSteeringMessage) : String :=
  message.producerId ++ "\u0000" ++ message.idempotencyKey

def userSteeringProducers : List String :=
  ["queue-immediate-send", "composer-steer", "paused-queue-composer"]

def isUserSteeringProducer (producerId : String) : Bool :=
  userSteeringProducers.contains producerId

inductive SteeringDiscardCause
  | abort
  | abnormalSeal
  | exitClose
  deriving DecidableEq

/-- One call of `onSteeringDiscarded`. -/
structure SteeringDiscarded where
  sessionId : String
  turnId : String
  messages : List AgentHostSteeringMessage
  cause : SteeringDiscardCause
  abortReason : Option String

inductive SteeringLane
  | ordinary
  | toolResultTail
  deriving DecidableEq

inductive TurnPhase
  | running
  | closing
  | aborted
  deriving DecidableEq

structure RegisterAcceptedTurnInput where
  sessionId : String
  turnId : String
  leaseId : String
  acceptedSequence : ℕ
  acceptedAtMs : ℤ
  busyReason : TurnBusyReason
  foreground : Bool

/-- A registered Turn. Each registration makes an abort signal of its own, here its number. -/
structure AcceptedTurn extends RegisterAcceptedTurnInput where
  signal : ℕ

/-- The two name the same registration: `foreground` and `acceptedAtMs` do not count. -/
def AcceptedTurn.Matches (accepted turn : AcceptedTurn) : Prop :=
  accepted.turnId = turn.turnId ∧ accepted.leaseId = turn.leaseId ∧
    accepted.acceptedSequence = turn.acceptedSequence ∧
    accepted.busyReason = turn.busyReason ∧ accepted.signal = turn.signal

instance (accepted turn : AcceptedTurn) : Decidable (accepted.Matches turn) :=
  inferInstanceAs (Decidable (_ ∧ _ ∧ _ ∧ _ ∧ _))

structure ActiveTurnEntry where
  turn : AcceptedTurn
  steering : List AgentHostSteeringMessage
  /-- The wake signals before this one are aborted. -/
  steeringWake : ℕ
  steeringIdentities : Finset String
  steeringClaims : Finset String
  toolResultTail : List AgentHostSteeringMessage
  toolResultTailClaims : List (String × List AgentHostSteeringMessage)
  toolResultTailOpen : ℕ
  phase : TurnPhase
  abortReason : Option String
  signalAborted : Bool

namespace ActiveTurnEntry

variable (entry : ActiveTurnEntry)

/-- The entry of a new registration. -/
def registered (turn : AcceptedTurn) : ActiveTurnEntry where
  turn
  steering := []
  steeringWake := 0
  steeringIdentities := ∅
  steeringClaims := ∅
  toolResultTail := []
  toolResultTailClaims := []
  toolResultTailOpen := 0
  phase := .running
  abortReason := none
  signalAborted := false

def discardSteering (messages : List AgentHostSteeringMessage) (cause : SteeringDiscardCause) :
    List SteeringDiscarded :=
  if messages = [] then []
  else [{
    sessionId := entry.turn.sessionId
    turnId := entry.turn.turnId
    messages
    cause
    abortReason := truthy entry.abortReason }]

def clearControl (preserveSteeringClaims : Bool) : ActiveTurnEntry :=
  { entry with
    steering := []
    steeringClaims := if preserveSteeringClaims then entry.steeringClaims else ∅
    toolResultTail := []
    toolResultTailClaims := []
    toolResultTailOpen := 0 }

def abortEntry (reason : String) : ActiveTurnEntry × List SteeringDiscarded :=
  let aborted := { entry with phase := .aborted, abortReason := some reason }
  ({ aborted.clearControl true with signalAborted := true },
    aborted.discardSteering aborted.steering .abort)

/-- Drained or claimed steering whose consumption is still committing. -/
def hasInFlightConsumption : Prop :=
  entry.steeringClaims ≠ ∅ ∨ entry.toolResultTail ≠ [] ∨ entry.toolResultTailClaims ≠ []

instance : Decidable entry.hasInFlightConsumption :=
  inferInstanceAs (Decidable (_ ∨ _ ∨ _))

end ActiveTurnEntry

inductive SteerTurnResult
  | accepted (turnId : String)
  | notRunning
  | turnMismatch
  | unsupportedDelivery
  | deliveryClosed
  | closing

inductive AgentHostCloseResult
  | closed
  | staleLease
  | steerPending
  | aborted (abortReason : Option String)

/-- What an abort answers, up to how long the Turn takes to be released. -/
inductive AbortTurnAnswer
  | notRunning
  | turnMismatch
  | closing (turnId : String)
  | aborting (turnId : String)

inductive TurnControllerError
  | shuttingDown
  | turnAlreadyActive (sessionId : String)
  | staleTurnLease (sessionId turnId : String)

def TurnControllerError.message : TurnControllerError → String
  | shuttingDown => "Turn controller is shutting down"
  | turnAlreadyActive sessionId => "Turn already active: " ++ sessionId
  | staleTurnLease sessionId turnId => "Stale Turn lease: " ++ sessionId ++ "/" ++ turnId

/-- One entry for each Session. -/
def turnEntryConstraint : Constraint ActiveTurnEntry :=
  .unique fun entry => some entry.turn.sessionId

/-- The entries in the order of registration, and the number of registrations so far. -/
structure TurnController where
  closed : Bool
  entries : Table turnEntryConstraint
  registrations : ℕ

namespace TurnController

def initial : TurnController where
  closed := false
  entries := .empty _
  registrations := 0

variable (c : TurnController)

def get (sessionId : String) : Option ActiveTurnEntry :=
  c.entries.rows.find? (·.turn.sessionId = sessionId)

theorem put_fixes (entry : ActiveTurnEntry) : turnEntryConstraint.Fixes fun e =>
    if e.turn.sessionId = entry.turn.sessionId then entry else e :=
  Constraint.unique_fixes fun e => by split_ifs with he <;> simp [he]

/-- The entry of its Session after a change made to it. -/
def put (entry : ActiveTurnEntry) : TurnController :=
  { c with
    entries := c.entries.update (fun _ => true)
      (fun e => if e.turn.sessionId = entry.turn.sessionId then entry else e) (put_fixes entry) }

theorem holds_registered {c : TurnController} {entry : ActiveTurnEntry} {sessionId : String}
    (hs : entry.turn.sessionId = sessionId) (hnew : ¬ (c.get sessionId).isSome) :
    turnEntryConstraint.Holds (c.entries.rows ++ [entry]) := by
  refine Constraint.unique_append.2 ⟨c.entries.holds, ?_⟩
  rintro _ ⟨⟩ other hother hsame
  refine hnew (List.find?_isSome.2 ⟨other, hother, ?_⟩)
  simpa [hs] using hsame

def matchingEntry (turn : AcceptedTurn) : Option ActiveTurnEntry :=
  (c.get turn.sessionId).filter fun entry => entry.turn.Matches turn

/-- The entry of a registration, which `onRegister` may cancel at once. -/
def registeredEntry (turn : AcceptedTurn) :
    Option String → ActiveTurnEntry × List SteeringDiscarded
  | some cancellationReason => (ActiveTurnEntry.registered turn).abortEntry cancellationReason
  | none => (ActiveTurnEntry.registered turn, [])

theorem registeredEntry_turn (turn : AcceptedTurn) (cancellationReason : Option String) :
    (registeredEntry turn cancellationReason).1.turn = turn := by
  cases cancellationReason <;> rfl

/-- `cancellationReason` is the answer of `onRegister`. -/
def register (input : RegisterAcceptedTurnInput) (cancellationReason : Option String) :
    Except TurnControllerError (TurnController × AcceptedTurn × List SteeringDiscarded) :=
  if c.closed then .error .shuttingDown
  else if hnew : (c.get input.sessionId).isSome then .error (.turnAlreadyActive input.sessionId)
  else
    let turn : AcceptedTurn := { input with signal := c.registrations }
    let registered := registeredEntry turn cancellationReason
    .ok ({ c with
      entries := ⟨c.entries.rows ++ [registered.1],
        holds_registered (congrArg (·.sessionId) (registeredEntry_turn turn _)) hnew⟩
      registrations := c.registrations + 1 }, turn, registered.2)

/-- The answer of a renewal: `none` where it threw. -/
def renewed (turn : AcceptedTurn) (answer : Option Bool) :
    TurnController × List SteeringDiscarded :=
  match c.get turn.sessionId with
  | none => (c, [])
  | some entry =>
    if entry.turn.signal ≠ turn.signal ∨ entry.phase ≠ .running ∨ answer = some true then (c, [])
    else
      let reason := if answer = some false then "lease-lost" else "lease-renewal-failed"
      let (entry, discarded) := entry.abortEntry reason
      (c.put entry, discarded)

def abort (sessionId : String) (turnId : Option String) (reason : String) :
    TurnController × AbortTurnAnswer × List SteeringDiscarded :=
  match c.get sessionId with
  | none => (c, .notRunning, [])
  | some entry =>
    if (truthy turnId).any (· ≠ entry.turn.turnId) then (c, .turnMismatch, [])
    else if entry.phase = .closing then (c, .closing entry.turn.turnId, [])
    else if entry.signalAborted then (c, .aborting entry.turn.turnId, [])
    else
      let (entry, discarded) := entry.abortEntry reason
      (c.put entry, .aborting entry.turn.turnId, discarded)

def steer (sessionId turnId : String) (message : AgentHostSteeringMessage) (foreground : Bool)
    (lane : SteeringLane) : TurnController × SteerTurnResult :=
  match c.get sessionId with
  | none => (c, .notRunning)
  | some entry =>
    if entry.turn.turnId ≠ turnId then (c, .turnMismatch)
    else if entry.turn.busyReason ≠ .turn then (c, .unsupportedDelivery)
    else if entry.phase ≠ .running then (c, .closing)
    else if lane = .toolResultTail ∧ entry.toolResultTailOpen = 0 then (c, .deliveryClosed)
    else
      let identity := message.steeringIdentity
      -- `promoteForegroundSteer`
      let turn := { entry.turn with
        foreground := entry.turn.foreground || (lane = .ordinary && foreground) }
      if identity ∈ entry.steeringIdentities then (c.put { entry with turn }, .accepted turnId)
      else
        let steeringIdentities := insert identity entry.steeringIdentities
        match lane with
        | .ordinary =>
          (c.put { entry with
            turn
            steering := entry.steering ++ [message]
            steeringIdentities
            steeringWake := entry.steeringWake + 1 }, .accepted turnId)
        | .toolResultTail =>
          (c.put { entry with
            turn
            toolResultTail := entry.toolResultTail ++ [message]
            steeringIdentities }, .accepted turnId)

def hasPendingUserSteering (sessionId : String) : Bool :=
  (c.get sessionId).any fun entry =>
    entry.steering.any fun message => isUserSteeringProducer message.producerId

/-- The identities of the messages. -/
def identities (messages : List AgentHostSteeringMessage) : List String :=
  messages.map (·.steeringIdentity)

def drainSteering (lease : AcceptedTurn) : TurnController × List AgentHostSteeringMessage :=
  match c.matchingEntry lease with
  | none => (c, [])
  | some entry =>
    if entry.phase = .aborted then (c, [])
    else
      (c.put { entry with
        steering := []
        steeringClaims := entry.steeringClaims ∪ (identities entry.steering).toFinset },
        entry.steering)

/-- The wake signal a runner waits on: it is aborted once the entry's number is greater. -/
def steeringSignal (lease : AcceptedTurn) : Option ℕ := (c.matchingEntry lease).map (·.steeringWake)

def ackSteering (lease : AcceptedTurn) (messages : List AgentHostSteeringMessage) :
    TurnController :=
  match c.matchingEntry lease with
  | none => c
  | some entry =>
    c.put { entry with steeringClaims := entry.steeringClaims \ (identities messages).toFinset }

/-- The messages that are claimed, and the claims without them: each is restored once. -/
def restored (claims : Finset String) :
    List AgentHostSteeringMessage → Finset String × List AgentHostSteeringMessage
  | [] => (claims, [])
  | message :: messages =>
    if message.steeringIdentity ∈ claims then
      let (claims, rest) := restored (claims.erase message.steeringIdentity) messages
      (claims, message :: rest)
    else restored claims messages

def restoreSteering (lease : AcceptedTurn) (messages : List AgentHostSteeringMessage) :
    TurnController × List SteeringDiscarded :=
  match c.matchingEntry lease with
  | none => (c, [])
  | some entry =>
    let (steeringClaims, restored) := restored entry.steeringClaims messages
    let entry := { entry with steeringClaims }
    if entry.phase = .aborted then (c.put entry, entry.discardSteering restored .abort)
    else (c.put { entry with steering := restored ++ entry.steering }, [])

def openToolResultTail (lease : AcceptedTurn) : TurnController × Bool :=
  match c.matchingEntry lease with
  | none => (c, false)
  | some entry =>
    if entry.phase ≠ .running then (c, false)
    else (c.put { entry with toolResultTailOpen := entry.toolResultTailOpen + 1 }, true)

def closeAndClaimToolResultTail (lease : AcceptedTurn) (toolCallId : String) :
    TurnController × List AgentHostSteeringMessage :=
  match c.matchingEntry lease with
  | none => (c, [])
  | some entry =>
    if entry.phase = .aborted then (c, [])
    else
      let entry := { entry with toolResultTailOpen := entry.toolResultTailOpen - 1 }
      match entry.toolResultTailClaims.lookup toolCallId with
      | some replay => (c.put entry, replay)
      | none =>
        let claimed := entry.toolResultTail
        (c.put { entry with
          toolResultTail := []
          toolResultTailClaims :=
            if claimed = [] then entry.toolResultTailClaims
            else entry.toolResultTailClaims ++ [(toolCallId, claimed)] }, claimed)

def ackToolResultTail (lease : AcceptedTurn) (toolCallId : String) : TurnController :=
  match c.matchingEntry lease with
  | none => c
  | some entry =>
    c.put { entry with
      toolResultTailClaims := entry.toolResultTailClaims.filter (·.1 ≠ toolCallId) }

def tryBeginClose (lease : AcceptedTurn) :
    TurnController × AgentHostCloseResult × List SteeringDiscarded :=
  match c.matchingEntry lease with
  | none => (c, .staleLease, [])
  | some entry =>
    if entry.phase = .aborted then (c, .aborted (truthy entry.abortReason), [])
    else if entry.hasInFlightConsumption then (c, .steerPending, [])
    else if entry.steering.any fun message => !isUserSteeringProducer message.producerId then
      (c, .steerPending, [])
    else
      (c.put { entry with steering := [], phase := .closing }, .closed,
        entry.discardSteering entry.steering .exitClose)

def sealAbnormalTerminal (lease : AcceptedTurn) :
    Except TurnControllerError (TurnController × List SteeringDiscarded) :=
  match c.matchingEntry lease with
  | none => .error (.staleTurnLease lease.sessionId lease.turnId)
  | some entry =>
    let cleared := entry.clearControl false
    .ok (c.put { cleared with
      phase := if entry.phase = .aborted then .aborted else .closing },
      entry.discardSteering entry.steering .abnormalSeal)

def complete (turn : AcceptedTurn) : TurnController :=
  match c.matchingEntry turn with
  | none => c
  | some _ => { c with entries := c.entries.delete (·.turn.sessionId = turn.sessionId) }

def activeTurnId (sessionId : String) : Option String := (c.get sessionId).map (·.turn.turnId)

/-- Shuts the controller down: aborts every Turn that is not aborted yet, once. -/
def close : TurnController × List SteeringDiscarded :=
  if c.closed then (c, [])
  else
    ({ c with
      closed := true
      entries := c.entries.update (fun entry => !entry.signalAborted)
        (fun entry => (entry.abortEntry "runtime-shutdown").1)
        (Constraint.unique_fixes fun _ => rfl) },
      (c.entries.rows.filter fun entry => !entry.signalAborted).flatMap
        fun entry => (entry.abortEntry "runtime-shutdown").2)

end TurnController

end Kinetick
