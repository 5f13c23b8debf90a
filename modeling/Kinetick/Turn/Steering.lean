import Kinetick.Machine
import Kinetick.Mailbox
import Kinetick.Turn.Controller

/-!
# The steering of one Turn, as its callers see it

Every call of the controller is one event, in any order. The history of a registered Turn follows
each steering identity through the calls and their answers alone: what was accepted, what a drain
returned, what was acknowledged or restored, and what `onSteeringDiscarded` received.
-/

namespace Kinetick

/-- The calls a controller answers; `renewed` is the answer of a renewal. -/
inductive ControllerEvent
  | register (input : RegisterAcceptedTurnInput) (cancellationReason : Option String)
  | renewed (turn : AcceptedTurn) (answer : Option Bool)
  | abort (sessionId : String) (turnId : Option String) (reason : String)
  | steer (sessionId turnId : String) (message : AgentHostSteeringMessage) (foreground : Bool)
      (lane : SteeringLane)
  | drainSteering (lease : AcceptedTurn)
  | ackSteering (lease : AcceptedTurn) (messages : List AgentHostSteeringMessage)
  | restoreSteering (lease : AcceptedTurn) (messages : List AgentHostSteeringMessage)
  | openToolResultTail (lease : AcceptedTurn)
  | closeAndClaimToolResultTail (lease : AcceptedTurn) (toolCallId : String)
  | ackToolResultTail (lease : AcceptedTurn) (toolCallId : String)
  | tryBeginClose (lease : AcceptedTurn)
  | sealAbnormalTerminal (lease : AcceptedTurn)
  | complete (turn : AcceptedTurn)
  | close

inductive ControllerAnswer
  | done
  | threw (error : TurnControllerError)
  | registered (turn : AcceptedTurn)
  | aborting (result : AbortTurnAnswer)
  | steered (result : SteerTurnResult)
  | messages (messages : List AgentHostSteeringMessage)
  | opened (isOpen : Bool)
  | closing (result : AgentHostCloseResult)

/-- What a call answers, and the calls of `onSteeringDiscarded` it makes. -/
structure ControllerReport where
  answer : ControllerAnswer
  discarded : List SteeringDiscarded := []

def TurnController.step (c : TurnController) :
    ControllerEvent → TurnController × ControllerReport
  | .register input cancellationReason =>
    match c.register input cancellationReason with
    | .error error => (c, { answer := .threw error })
    | .ok (c, turn, discarded) => (c, { answer := .registered turn, discarded })
  | .renewed turn answer =>
    let (c, discarded) := c.renewed turn answer
    (c, { answer := .done, discarded })
  | .abort sessionId turnId reason =>
    let (c, result, discarded) := c.abort sessionId turnId reason
    (c, { answer := .aborting result, discarded })
  | .steer sessionId turnId message foreground lane =>
    let (c, result) := c.steer sessionId turnId message foreground lane
    (c, { answer := .steered result })
  | .drainSteering lease =>
    let (c, messages) := c.drainSteering lease
    (c, { answer := .messages messages })
  | .ackSteering lease messages => (c.ackSteering lease messages, { answer := .done })
  | .restoreSteering lease messages =>
    let (c, discarded) := c.restoreSteering lease messages
    (c, { answer := .done, discarded })
  | .openToolResultTail lease =>
    let (c, isOpen) := c.openToolResultTail lease
    (c, { answer := .opened isOpen })
  | .closeAndClaimToolResultTail lease toolCallId =>
    let (c, messages) := c.closeAndClaimToolResultTail lease toolCallId
    (c, { answer := .messages messages })
  | .ackToolResultTail lease toolCallId => (c.ackToolResultTail lease toolCallId, { answer := .done })
  | .tryBeginClose lease =>
    let (c, result, discarded) := c.tryBeginClose lease
    (c, { answer := .closing result, discarded })
  | .sealAbnormalTerminal lease =>
    match c.sealAbnormalTerminal lease with
    | .error error => (c, { answer := .threw error })
    | .ok (c, discarded) => (c, { answer := .done, discarded })
  | .complete turn => (c.complete turn, { answer := .done })
  | .close =>
    let (c, discarded) := c.close
    (c, { answer := .done, discarded })

namespace AcceptedTurn

variable (turn : AcceptedTurn)

/-- The scope the lease comes from is this Turn's. -/
def Scopes (lease : AcceptedTurn) : Prop :=
  lease.sessionId = turn.sessionId ∧ turn.Matches lease

instance (lease : AcceptedTurn) : Decidable (turn.Scopes lease) :=
  inferInstanceAs (Decidable (_ ∧ _))

/-- The steering identities of this Turn that were handed to `onSteeringDiscarded`. -/
def handed (discarded : List SteeringDiscarded) : List String :=
  (discarded.filter fun d => d.sessionId = turn.sessionId ∧ d.turnId = turn.turnId).flatMap
    fun d => TurnController.identities d.messages

/-- What the callers see of this Turn's ordinary steering in one call. -/
def sees (e : ControllerEvent) (report : ControllerReport) : Mailbox.Seen String :=
  let handed := turn.handed report.discarded
  match e, report.answer with
  | .steer sessionId turnId message _ lane, .steered (.accepted _) =>
    if sessionId = turn.sessionId ∧ turnId = turn.turnId then
      match lane with
      | .ordinary => { accepted := some message.steeringIdentity, handed }
      | .toolResultTail => { diverted := some message.steeringIdentity, handed }
    else { handed }
  | .drainSteering lease, .messages messages =>
    if turn.Scopes lease then { drained := TurnController.identities messages, handed }
    else { handed }
  | .ackSteering lease messages, _ =>
    if turn.Scopes lease then { acked := TurnController.identities messages, handed }
    else { handed }
  | .restoreSteering lease messages, _ =>
    if turn.Scopes lease then { restored := TurnController.identities messages, handed }
    else { handed }
  | .sealAbnormalTerminal lease, _ =>
    if turn.Scopes lease then { handed, dropped := true } else { handed }
  | _, _ => { handed }

/-- The event completes this Turn. -/
def Completes (e : ControllerEvent) : Prop := ∃ lease, e = .complete lease ∧ turn.Scopes lease

end AcceptedTurn

/-- The controller since a Turn was registered: where each steering identity of the Turn stands, and
what was handed to `onSteeringDiscarded`. -/
structure SteeringHistory where
  controller : TurnController
  stand : String → Mailbox.Stand
  handed : List String

namespace SteeringHistory

/-- The history of a Turn just registered. -/
def registered (controller : TurnController) : SteeringHistory where
  controller
  stand := fun _ => .unseen
  handed := []

/-- The history of a Turn, call by call. -/
def machine (turn : AcceptedTurn) : Machine SteeringHistory ControllerEvent ControllerReport where
  initial := registered .initial
  step h e :=
    let (controller, report) := h.controller.step e
    let seen := turn.sees e report
    ({ controller
       stand := fun i => (h.stand i).next seen i
       handed := h.handed ++ seen.handed }, report)

/-- Every steering identity of the Turn is where it stands: once in the entry's steering, and drained
by the next call, or once handed to `onSteeringDiscarded`. -/
def Conserved (turn : AcceptedTurn) (h : SteeringHistory) : Prop :=
  ∃ entry, h.controller.matchingEntry turn = some entry ∧ ∀ i,
    (TurnController.identities entry.steering).count i =
        (if h.stand i = .pending then 1 else 0) ∧
      h.handed.count i = (if h.stand i = .handed then 1 else 0) ∧
      (h.stand i = .pending →
        i ∈ TurnController.identities (h.controller.drainSteering turn).2)

/-- The call restores nothing that was drained, and not acknowledged, when the Turn was sealed. -/
def RestoresUnsealed (turn : AcceptedTurn) (h : SteeringHistory) (e : ControllerEvent) : Prop :=
  ∀ lease messages, e = .restoreSteering lease messages → turn.Scopes lease →
    ∀ message ∈ messages, h.stand message.steeringIdentity ≠ .claimed true

end SteeringHistory

/-- A registration of an agent Turn. -/
def plainRegistration (sessionId turnId : String) : RegisterAcceptedTurnInput where
  sessionId
  turnId
  leaseId := "lease"
  acceptedSequence := 1
  acceptedAtMs := 0
  busyReason := .turn
  foreground := false

/-- The first Turn a controller registers so, and the controller then. -/
def plainAcceptedTurn (sessionId turnId : String) : AcceptedTurn :=
  { plainRegistration sessionId turnId with signal := 0 }

def plainController (sessionId turnId : String) : TurnController :=
  (TurnController.initial.step (.register (plainRegistration sessionId turnId) none)).1

/-- A message of the user. -/
def plainSteering : AgentHostSteeringMessage := ⟨"composer-steer", "key"⟩

end Kinetick
