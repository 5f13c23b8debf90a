import Mathlib.Logic.Function.Basic
import Kinetick.Machine

/-!
# The gate of a Session's operations

`createSessionOperationGate`: shared operations enter a Session, an exclusive one takes a lease of it
and waits until it is drained of the shared, and a deletion blocks it and waits until it is drained of
both. The record of a Session is an object, dropped once idle and made anew; permits and leases keep
the object they were made with. A promise is known by its number, as are objects, permits and leases.
-/

namespace Kinetick

structure SessionOperationState where
  active : ℕ := 0
  deleting : Bool := false
  /-- The symbol of a lease, unique to it. -/
  mutation : Option ℕ := none
  sharedDrain : Option ℕ := none
  fullDrain : Option ℕ := none
  deriving DecidableEq

/-- A permit that `tryEnter` answered, or that `tryRun` holds. -/
structure OperationPermit where
  sessionId : String
  state : ℕ
  released : Bool
  deriving DecidableEq

structure SessionExclusiveOperationLease where
  sessionId : String
  state : ℕ
  drained : ℕ
  released : Bool
  deriving DecidableEq

structure SessionOperationGate where
  objects : ℕ → SessionOperationState
  /-- How many objects were made. -/
  made : ℕ
  states : String → Option ℕ
  /-- The promises that resolved. -/
  resolved : ℕ → Bool
  /-- How many promises were made. -/
  promised : ℕ
  permits : List OperationPermit
  leases : List SessionExclusiveOperationLease

inductive OperationGateEvent
  /-- `tryEnter`, and `tryRun` up to its operation. -/
  | tryEnter (sessionId : String)
  /-- The `release` of a permit, and the `finally` of `tryRun`. -/
  | releasePermit (permit : ℕ)
  | tryAcquireExclusive (sessionId : String)
  | releaseLease (lease : ℕ)
  | block (sessionId : String)
  | release (sessionId : String)
  deriving DecidableEq

inductive OperationGateAnswer
  | entered (permit : Option ℕ)
  | acquired (lease : Option ℕ)
  | blocked (promise : ℕ)
  | done
  | throws (message : String)
  deriving DecidableEq

namespace SessionOperationGate

variable (g : SessionOperationGate)

/-- `createSessionOperationGate` -/
def initial : SessionOperationGate where
  objects _ := {}
  made := 0
  states _ := none
  resolved _ := false
  promised := 0
  permits := []
  leases := []

def setObject (k : ℕ) (o : SessionOperationState) : SessionOperationGate :=
  { g with objects := Function.update g.objects k o }

def setState (sessionId : String) (k : Option ℕ) : SessionOperationGate :=
  { g with states := Function.update g.states sessionId k }

/-- `states.get(sessionId) ?? createState()` -/
def stateOf (sessionId : String) : ℕ × SessionOperationGate :=
  match g.states sessionId with
  | some k => (k, g)
  | none => (g.made, { g.setObject g.made {} with made := g.made + 1 })

/-- `deferred` -/
def deferred : ℕ × SessionOperationGate :=
  (g.promised, { g with
    resolved := Function.update g.resolved g.promised false, promised := g.promised + 1 })

/-- `Promise.resolve()` -/
def resolvedPromise : ℕ × SessionOperationGate :=
  (g.promised, { g with
    resolved := Function.update g.resolved g.promised true, promised := g.promised + 1 })

/-- `deferred?.resolve()` -/
def resolve : Option ℕ → SessionOperationGate
  | some p => { g with resolved := Function.update g.resolved p true }
  | none => g

def sharedDrain (k : ℕ) : ℕ × SessionOperationGate :=
  if (g.objects k).active = 0 then g.resolvedPromise
  else match (g.objects k).sharedDrain with
    | some p => (p, g)
    | none =>
      let (p, g) := g.deferred
      (p, g.setObject k { g.objects k with sharedDrain := some p })

/-- The first half of `settleState`: resolves the waiters whose condition became true. -/
def settleDrains (k : ℕ) : SessionOperationGate :=
  let o := g.objects k
  if o.active = 0 then
    let g := (g.resolve o.sharedDrain).setObject k { o with sharedDrain := none }
    if o.mutation = none then
      (g.resolve o.fullDrain).setObject k { o with sharedDrain := none, fullDrain := none }
    else g
  else g

def settleState (sessionId : String) (k : ℕ) : SessionOperationGate :=
  let g := g.settleDrains k
  let o := g.objects k
  if o.active = 0 ∧ o.deleting = false ∧ o.mutation = none ∧ g.states sessionId = some k then
    g.setState sessionId none
  else g

def tryEnter (sessionId : String) : SessionOperationGate × OperationGateAnswer :=
  let (k, next) := g.stateOf sessionId
  let o := next.objects k
  if o.deleting ∨ o.mutation ≠ none then (g, .entered none)
  else
    let g := (next.setState sessionId (some k)).setObject k { o with active := o.active + 1 }
    ({ g with permits := g.permits ++ [{ sessionId, state := k, released := false }] },
      .entered (some g.permits.length))

def releasePermit (i : ℕ) : SessionOperationGate × OperationGateAnswer :=
  match g.permits[i]? with
  | none => (g, .done)
  | some permit =>
    if permit.released then (g, .done)
    else
      let o := g.objects permit.state
      let g := { g with permits := g.permits.set i { permit with released := true } }
      ((g.setObject permit.state { o with active := o.active - 1 }).settleState
        permit.sessionId permit.state, .done)

def tryAcquireExclusive (sessionId : String) : SessionOperationGate × OperationGateAnswer :=
  let (k, next) := g.stateOf sessionId
  let o := next.objects k
  if o.deleting ∨ o.mutation ≠ none then (g, .acquired none)
  else
    let token := g.leases.length
    let (drained, g) := ((next.setObject k { o with mutation := some token }).setState sessionId
      (some k)).sharedDrain k
    ({ g with leases := g.leases ++ [{ sessionId, state := k, drained, released := false }] },
      .acquired (some token))

def releaseLease (i : ℕ) : SessionOperationGate × OperationGateAnswer :=
  match g.leases[i]? with
  | none => (g, .done)
  | some lease =>
    if lease.released then (g, .done)
    else
      let o := g.objects lease.state
      let g := { g with leases := g.leases.set i { lease with released := true } }
      if o.mutation ≠ some i then
        (g, .throws ("Session exclusive operation lease was lost: " ++ lease.sessionId))
      else ((g.setObject lease.state { o with mutation := none }).settleState
        lease.sessionId lease.state, .done)

/-- `state.fullDrain ??= deferred()` -/
def fullDrain (k : ℕ) : ℕ × SessionOperationGate :=
  match (g.objects k).fullDrain with
  | some p => (p, g)
  | none =>
    let (p, g) := g.deferred
    (p, g.setObject k { g.objects k with fullDrain := some p })

def block (sessionId : String) : SessionOperationGate × OperationGateAnswer :=
  let (k, g) := g.stateOf sessionId
  let g := (g.setState sessionId (some k)).setObject k { g.objects k with deleting := true }
  let (promise, g) := if (g.objects k).active = 0 ∧ (g.objects k).mutation = none
    then g.resolvedPromise else g.fullDrain k
  (g, .blocked promise)

def release (sessionId : String) : SessionOperationGate × OperationGateAnswer :=
  match g.states sessionId with
  | none => (g, .done)
  | some k =>
    let o := g.objects k
    if o.active ≠ 0 ∨ o.mutation ≠ none then
      (g, .throws ("Session operation gate released while active: " ++ sessionId))
    else ((g.setObject k { o with deleting := false }).settleState sessionId k, .done)

def isExclusiveActive (sessionId : String) : Bool :=
  (g.states sessionId).any fun k => (g.objects k).mutation.isSome

end SessionOperationGate

open SessionOperationGate in
/-- The gate under any calls of it, in any order. -/
def operationGateSystem : Machine SessionOperationGate OperationGateEvent OperationGateAnswer where
  initial := .initial
  step g
    | .tryEnter sessionId => g.tryEnter sessionId
    | .releasePermit permit => g.releasePermit permit
    | .tryAcquireExclusive sessionId => g.tryAcquireExclusive sessionId
    | .releaseLease lease => g.releaseLease lease
    | .block sessionId => g.block sessionId
    | .release sessionId => g.release sessionId

/-! ## What the gate is to guarantee -/

namespace SessionOperationGate

variable (g : SessionOperationGate)

/-- A shared operation of the Session is active. -/
def Entered (sessionId : String) : Prop :=
  ∃ permit ∈ g.permits, permit.sessionId = sessionId ∧ permit.released = false

/-- A lease of the Session is held. -/
def Leased (sessionId : String) : Prop :=
  ∃ lease ∈ g.leases, lease.sessionId = sessionId ∧ lease.released = false

/-- The Session is blocked. -/
def Blocked (sessionId : String) : Prop :=
  ∃ k, g.states sessionId = some k ∧ (g.objects k).deleting = true

/-- No shared operation of the Session is active, and none can enter. -/
def Closed (sessionId : String) : Prop :=
  ¬ g.Entered sessionId ∧ (g.tryEnter sessionId).2 = .entered none

/-- From when it is drained until it is released, a lease is alone. -/
def LeasesAlone : Prop :=
  ∀ lease ∈ g.leases, lease.released = false → g.resolved lease.drained = true →
    g.Closed lease.sessionId

/-- At most one lease of a Session is held. -/
def OneLease : Prop :=
  ∀ (i j : ℕ) (a b : SessionExclusiveOperationLease), g.leases[i]? = some a → g.leases[j]? = some b →
    a.sessionId = b.sessionId → a.released = false → b.released = false → i = j

/-- A permit or lease whose record is no more the Session's is released without effect. -/
def LateReleasesIdle : Prop :=
  (∀ (i : ℕ) (permit : OperationPermit), g.permits[i]? = some permit →
    g.states permit.sessionId ≠ some permit.state → g.releasePermit i = (g, .done)) ∧
  ∀ (i : ℕ) (lease : SessionExclusiveOperationLease), g.leases[i]? = some lease →
    g.states lease.sessionId ≠ some lease.state → g.releaseLease i = (g, .done)

/-- A Session with nothing active, leased or blocked has no record. -/
def IdleDropped : Prop :=
  ∀ sessionId, ¬ g.Entered sessionId → ¬ g.Leased sessionId → ¬ g.Blocked sessionId →
    g.states sessionId = none

/-- The operations of the Session that entered when there were so many permits and leases have
released. -/
def ReleasedBefore (sessionId : String) (permits leases : ℕ) : Prop :=
  (∀ (i : ℕ) (permit : OperationPermit), i < permits → g.permits[i]? = some permit →
    permit.sessionId = sessionId → permit.released = true) ∧
  ∀ (i : ℕ) (lease : SessionExclusiveOperationLease), i < leases → g.leases[i]? = some lease →
    lease.sessionId = sessionId → lease.released = true

/-- The event is a release of the gate that goes through. -/
def Unblocks (sessionId : String) (g : SessionOperationGate) (e : OperationGateEvent) : Prop :=
  e = .release sessionId ∧ (operationGateSystem.step g e).2 = .done

end SessionOperationGate

end Kinetick
