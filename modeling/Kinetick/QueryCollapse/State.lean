import Kinetick.Machine
import Kinetick.Sql
import Kinetick.Table

/-!
# How long a query has been processed

A row of a query has the turn that processes it and two stamps. A query that is resumed keeps the
time of its earlier processing: its start is moved to where one interval of all that time would have
begun. Only the turn of the last start finishes the query, and a recovery finishes all.
-/

namespace Kinetick

namespace QueryCollapse

structure QueryCollapseRow where
  sessionId : String
  queryKey : String
  currentTurnId : String
  forceExpanded : ℤ
  processingStartedAtMs : ℤ
  processingFinishedAtMs : Option ℤ
  updatedAtMs : ℤ
  deriving DecidableEq

structure QueryCollapseViewState where
  sessionId : String
  queryKey : String
  currentTurnId : String
  forceExpanded : Bool
  processingStartedAtMs : ℤ
  processingFinishedAtMs : Option ℤ
  updatedAtMs : ℤ
  deriving DecidableEq

def toState (row : QueryCollapseRow) : QueryCollapseViewState where
  sessionId := row.sessionId
  queryKey := row.queryKey
  currentTurnId := row.currentTurnId
  forceExpanded := row.forceExpanded = 1
  processingStartedAtMs := row.processingStartedAtMs
  processingFinishedAtMs := row.processingFinishedAtMs
  updatedAtMs := row.updatedAtMs

/-- `local_runtime_query_view_states`, with its primary key. -/
abbrev ViewStates :=
  Table (Constraint.unique fun row : QueryCollapseRow => some (row.sessionId, row.queryKey))

def readByKey (db : ViewStates) (sessionId queryKey : String) : Option QueryCollapseRow :=
  db.rows.find? fun row => row.sessionId = sessionId && row.queryKey = queryKey

def readByCurrentTurn (db : ViewStates) (sessionId currentTurnId : String) :
    Option QueryCollapseRow :=
  (Sql.orderBy [true, true] (fun row => [.integer row.updatedAtMs, .text row.queryKey])
    (db.rows.filter fun row => row.sessionId = sessionId && row.currentTurnId = currentTurnId)).head?

/-- `UPDATE … SET f WHERE p`, where the key stays. -/
def setWhere (db : ViewStates) (p : QueryCollapseRow → Bool)
    (f : QueryCollapseRow → QueryCollapseRow)
    (hf : ∀ row, (f row).sessionId = row.sessionId ∧ (f row).queryKey = row.queryKey) : ViewStates :=
  db.update p f (Constraint.unique_fixes fun row => by rw [(hf row).1, (hf row).2])

/-! ## Starting -/

/-- The row that is inserted. -/
def startedRow (sessionId queryKey currentTurnId : String) (now : ℤ) : QueryCollapseRow where
  sessionId
  queryKey
  currentTurnId
  forceExpanded := 0
  processingStartedAtMs := now
  processingFinishedAtMs := none
  updatedAtMs := now

/-- The row that is there already, as it is updated. -/
def restartedRow (currentTurnId : String) (now : ℤ) (row : QueryCollapseRow) : QueryCollapseRow :=
  { row with
    currentTurnId
    forceExpanded := 0
    processingStartedAtMs :=
      match row.processingFinishedAtMs with
      | none => row.processingStartedAtMs
      | some finished =>
        if finished ≥ row.processingStartedAtMs then now - (finished - row.processingStartedAtMs)
        else now
    processingFinishedAtMs := none
    updatedAtMs := now }

/-- `INSERT … ON CONFLICT DO UPDATE` -/
def upsertStarted (db : ViewStates) (now : ℤ) (sessionId queryKey currentTurnId : String) :
    ViewStates :=
  match db.insert (startedRow sessionId queryKey currentTurnId now) with
  | some db => db
  | none =>
    setWhere db (fun row => row.sessionId = sessionId && row.queryKey = queryKey)
      (restartedRow currentTurnId now) fun _ => ⟨rfl, rfl⟩

def start (db : ViewStates) (now : ℤ) (sessionId queryKey currentTurnId : String) :
    ViewStates × Except String QueryCollapseViewState :=
  let db := upsertStarted db now sessionId queryKey currentTurnId
  match readByKey db sessionId queryKey with
  | none => (db, .error s!"Query collapse state missing: {sessionId}/{queryKey}")
  | some row => (db, .ok (toState row))

/-! ## Finishing -/

def finishedRow (forceExpanded : Bool) (now : ℤ) (row : QueryCollapseRow) : QueryCollapseRow :=
  { row with
    forceExpanded := if row.forceExpanded = 1 ∨ forceExpanded then 1 else 0
    processingFinishedAtMs := some now
    updatedAtMs := now }

/-- The rows that a finish is about. -/
def finishable (sessionId queryKey currentTurnId : String) (row : QueryCollapseRow) : Bool :=
  row.sessionId = sessionId && row.queryKey = queryKey && row.currentTurnId = currentTurnId &&
    row.processingFinishedAtMs.isNone

def finish (db : ViewStates) (now : ℤ) (sessionId queryKey currentTurnId : String)
    (forceExpanded : Bool) : ViewStates × Option QueryCollapseViewState :=
  let changes := db.rows.countP (finishable sessionId queryKey currentTurnId)
  let db := setWhere db (finishable sessionId queryKey currentTurnId)
    (finishedRow forceExpanded now) fun _ => ⟨rfl, rfl⟩
  if changes = 0 then (db, none) else (db, (readByKey db sessionId queryKey).map toState)

def expandedRow (now : ℤ) (row : QueryCollapseRow) : QueryCollapseRow :=
  { row with forceExpanded := 1, updatedAtMs := now }

def forceExpandForTurn (db : ViewStates) (now : ℤ) (sessionId currentTurnId : String) :
    ViewStates × Option QueryCollapseViewState :=
  let expandable := fun row : QueryCollapseRow =>
    row.sessionId = sessionId && row.currentTurnId = currentTurnId
  let changes := db.rows.countP expandable
  let db := setWhere db expandable (expandedRow now) fun _ => ⟨rfl, rfl⟩
  if changes = 0 then (db, none) else (db, (readByCurrentTurn db sessionId currentTurnId).map toState)

def recoveredRow (now : ℤ) (row : QueryCollapseRow) : QueryCollapseRow :=
  { row with forceExpanded := 1, processingFinishedAtMs := some now, updatedAtMs := now }

def recoverUnfinished (db : ViewStates) (now : ℤ) : ViewStates × List QueryCollapseViewState :=
  let unfinished := db.rows.filter fun row => row.processingFinishedAtMs.isNone
  if unfinished.length = 0 then (db, [])
  else (setWhere db (fun row => row.processingFinishedAtMs.isNone) (recoveredRow now)
      fun _ => ⟨rfl, rfl⟩, unfinished.map fun row => toState (recoveredRow now row))

/-! ## Runs -/

inductive Call
  | start (sessionId queryKey currentTurnId : String)
  | finish (sessionId queryKey currentTurnId : String) (forceExpanded : Bool)
  | forceExpandForTurn (sessionId currentTurnId : String)
  | recoverUnfinished
  deriving DecidableEq

inductive Answer
  | started (result : Except String QueryCollapseViewState)
  | state (result : Option QueryCollapseViewState)
  | recovered (result : List QueryCollapseViewState)

/-- A call at a time. -/
structure Timed where
  now : ℤ
  call : Call
  deriving DecidableEq

def step (db : ViewStates) (timed : Timed) : ViewStates × Answer :=
  match timed.call with
  | .start sessionId queryKey currentTurnId =>
    (start db timed.now sessionId queryKey currentTurnId).map id .started
  | .finish sessionId queryKey currentTurnId forceExpanded =>
    (finish db timed.now sessionId queryKey currentTurnId forceExpanded).map id .state
  | .forceExpandForTurn sessionId currentTurnId =>
    (forceExpandForTurn db timed.now sessionId currentTurnId).map id .state
  | .recoverUnfinished => (recoverUnfinished db timed.now).map id .recovered

def machine : Machine ViewStates Timed Answer where
  initial := .empty _
  step := step

/-! ## What the calls say of a query -/

structure Span where
  startedAt : ℤ
  endedAt : ℤ
  deriving DecidableEq

/-- A query that was started: the turn that its last start names, the intervals of its processing
that have ended, and where the one begins that has not. -/
structure Life where
  currentTurnId : String
  ended : List Span
  since : Option ℤ
  deriving DecidableEq

namespace Life

def start (currentTurnId : String) (now : ℤ) : Option Life → Life
  | none => { currentTurnId, ended := [], since := some now }
  | some life => { life with currentTurnId, since := some (life.since.getD now) }

/-- The interval ends that has not. -/
def finish (now : ℤ) (life : Life) : Life where
  currentTurnId := life.currentTurnId
  ended := life.ended ++ (life.since.map fun since => ⟨since, now⟩).toList
  since := none

/-- What a call makes of the query of a key. -/
def step (sessionId queryKey : String) (life : Option Life) (timed : Timed) : Option Life :=
  match timed.call with
  | .start sessionId' queryKey' currentTurnId =>
    if sessionId' = sessionId ∧ queryKey' = queryKey then some (start currentTurnId timed.now life)
    else life
  | .finish sessionId' queryKey' currentTurnId _ =>
    life.map fun life =>
      if sessionId' = sessionId ∧ queryKey' = queryKey ∧ currentTurnId = life.currentTurnId then
        life.finish timed.now
      else life
  | .forceExpandForTurn _ _ => life
  | .recoverUnfinished => life.map (finish timed.now)

/-- The query of a key after the calls. -/
def of (sessionId queryKey : String) (calls : List Timed) : Option Life :=
  calls.foldl (step sessionId queryKey) none

end Life

/-- The total length of some intervals. -/
def totalMs (spans : List Span) : ℤ :=
  spans.foldr (fun span total => span.endedAt - span.startedAt + total) 0

/-- The stamps of the row account for the intervals of the query. -/
structure Accounts (row : QueryCollapseRow) (life : Life) : Prop where
  currentTurnId : row.currentTurnId = life.currentTurnId
  finished : ∀ finished, row.processingFinishedAtMs = some finished →
    life.since = none ∧ finished - row.processingStartedAtMs = totalMs life.ended
  unfinished : row.processingFinishedAtMs = none → ∃ since, life.since = some since ∧
    ∀ now, now - row.processingStartedAtMs = totalMs life.ended + (now - since)

end QueryCollapse

end Kinetick
