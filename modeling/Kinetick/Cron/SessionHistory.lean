import Kinetick.Machine
import Mathlib.Data.Int.Notation
import Mathlib.Data.List.Basic

/-!
# The history of a cron task's sessions

Every run of a cron task records its session, and a cleanup archives the sessions that are more than
the task keeps. Both read and write the history under a lock, a chain of promises. An event is what
happens between two awaits: a call takes its place in the chain, its turn comes, what it awaits is
answered, or its promise settles; in between sessions come, change and go, and the task is configured.
-/

namespace Kinetick

namespace CronHistory

structure CronSessionRecord where
  sessionId : String
  createdAt : ℤ
  deriving DecidableEq

inductive CronSessionType
  | root
  | branch
  deriving DecidableEq

structure CronSessionInfo where
  sessionType : CronSessionType
  compressed : Bool
  /-- `status?.type === 'started'` -/
  started : Bool
  deriving DecidableEq

/-- `keepSessions` may be undefined, null or a number. -/
inductive SessionConfig
  | root
  | sessionId (sessionId : String)
  | new (keepSessions : Option (Option ℕ))
  deriving DecidableEq

def SessionConfig.isNew : SessionConfig → Bool
  | new _ => true
  | _ => false

/-- `DEFAULT_KEEP_SESSIONS` -/
def defaultKeepSessions : Option ℕ := none

inductive InspectionKind
  | missing
  | compressed
  | started
  | root
  | visible
  deriving DecidableEq

structure Inspection where
  record : CronSessionRecord
  kind : InspectionKind
  deriving DecidableEq

/-- The kind of a record by what `getSession` answered. -/
def inspectionKind : Option CronSessionInfo → InspectionKind
  | none => .missing
  | some session =>
    if session.sessionType = .root then .root
    else if session.compressed then .compressed
    else if session.started then .started
    else .visible

/-! ## The cleanup -/

/-- The indexes of the visible records, of which the first has index `i`. -/
def visibleIndexes : (i : ℕ) → List Inspection → List ℕ
  | _, [] => []
  | i, x :: inspections =>
    if x.kind = .visible then i :: visibleIndexes (i + 1) inspections
    else visibleIndexes (i + 1) inspections

def archiveSet (effectiveKeep : Option ℕ) (inspections : List Inspection) : List ℕ :=
  match effectiveKeep with
  | none => []
  | some keepCount =>
    let indexes := visibleIndexes 0 inspections
    if keepCount < indexes.length then indexes.take (indexes.length - keepCount) else []

/-- Where the loop that archives stands. -/
structure Archiving where
  keep : Option ℕ
  inspections : List Inspection
  index : ℕ
  record : CronSessionRecord
  rest : List Inspection
  next : List CronSessionRecord
  archived : ℕ
  compacted : ℕ
  deriving DecidableEq

/-- What a call under the lock waits for. -/
inductive Awaiting
  | appendSessionRun (record : CronSessionRecord) (cleans : Bool)
  | get
  | getSessionHistory (keep : Option ℕ)
  | getSession (keep : Option ℕ) (inspections : List Inspection) (record : CronSessionRecord)
      (rest : List CronSessionRecord)
  | setSessionArchived (loop : Archiving)
  | replaceSessionHistory (keep : Option ℕ) (inspections : List Inspection)
      (next : List CronSessionRecord)
  deriving DecidableEq

/-- How a call ends: it throws, has nothing to clean up, or has cleaned up what it inspected. -/
inductive Outcome
  | failed
  | skipped
  | cleaned (keep : Option ℕ) (inspections : List Inspection)
  deriving DecidableEq

/-- A call waits for its turn, runs, has settled, or is through with its `finally`. -/
inductive Phase
  | waiting
  | running (awaiting : Awaiting)
  | settling (outcome : Outcome)
  | settled
  deriving DecidableEq

/-- The loop over the inspections, up to its next await or its end. -/
def buildNext (keep : Option ℕ) (inspections : List Inspection) :
    (i : ℕ) → List Inspection → (next : List CronSessionRecord) → (archived compacted : ℕ) → Phase
  | _, [], next, archived, compacted =>
    if 0 < archived ∨ 0 < compacted ∨ next.length ≠ inspections.length then
      .running (.replaceSessionHistory keep inspections next)
    else .settling (.cleaned keep inspections)
  | i, x :: rest, next, archived, compacted =>
    match x.kind with
    | .started => buildNext keep inspections (i + 1) rest (next ++ [x.record]) archived compacted
    | .root => buildNext keep inspections (i + 1) rest (next ++ [x.record]) archived compacted
    | .missing => buildNext keep inspections (i + 1) rest next archived (compacted + 1)
    | .compressed => buildNext keep inspections (i + 1) rest next archived (compacted + 1)
    | .visible =>
      if i ∈ archiveSet keep inspections then
        .running (.setSessionArchived
          { keep, inspections, index := i, record := x.record, rest, next, archived, compacted })
      else buildNext keep inspections (i + 1) rest (next ++ [x.record]) archived compacted

/-- The loop that inspects, up to its next await or its end. -/
def inspectNext (keep : Option ℕ) (inspections : List Inspection) : List CronSessionRecord → Phase
  | [] => buildNext keep inspections 0 inspections [] 0 0
  | record :: rest => .running (.getSession keep inspections record rest)

/-! ## The lock -/

/-- What is done under the lock: a run is recorded, and what is left over is cleaned up. -/
inductive HistoryJob
  | run (record : CronSessionRecord) (mode : SessionConfig)
  | cleanup
  deriving DecidableEq

structure HistoryCall where
  job : HistoryJob
  /-- The call whose promise it is chained after. -/
  previous : Option ℕ
  phase : Phase
  deriving DecidableEq

/-- What a call was answered about a session. -/
inductive Observation
  | looked (call : ℕ) (sessionId : String) (found : Option CronSessionInfo)
  | unread (call : ℕ) (sessionId : String)
  | archived (call : ℕ) (sessionId : String) (found : Option CronSessionInfo)
  | unarchived (call : ℕ) (sessionId : String)
  deriving DecidableEq

structure CronState where
  config : Option SessionConfig
  history : List CronSessionRecord
  sessions : String → Option CronSessionInfo
  calls : List HistoryCall
  /-- The entry of `historyLocks`. -/
  tail : Option ℕ
  observed : List Observation

inductive CronEvent
  /-- `runUnderHistoryLock` -/
  | call (job : HistoryJob)
  /-- `cleanupAllCronSessions` comes to the task, as it was listed. -/
  | cleanupAllCronSessions (listed : SessionConfig)
  /-- The promise before the call has settled, and its function is called. -/
  | begin (call : ℕ)
  /-- What the call awaits is done, or fails. -/
  | resolve (call : ℕ) (succeeds : Bool)
  /-- The `finally` of the call's promise. -/
  | settle (call : ℕ)
  | session (sessionId : String) (session : Option CronSessionInfo)
  | configure (config : Option SessionConfig)
  deriving DecidableEq

/-- A record appended to a history, which is read in the order of its times. -/
def insertRecord (record : CronSessionRecord) : List CronSessionRecord → List CronSessionRecord
  | [] => [record]
  | r :: records =>
    if r.createdAt ≤ record.createdAt then r :: insertRecord record records
    else record :: r :: records

namespace CronState

variable (s : CronState)

def setPhase (i : ℕ) (phase : Phase) : CronState :=
  { s with calls := s.calls.modify i fun call => { call with phase } }

def observe (observation : Observation) : CronState :=
  { s with observed := s.observed ++ [observation] }

/-- The call's place in the chain. -/
def enqueue (job : HistoryJob) : CronState :=
  { s with
    calls := s.calls ++ [{ job, previous := s.tail, phase := .waiting }]
    tail := some s.calls.length }

/-- Where a call begins. -/
def start : HistoryJob → Phase
  | .run record mode => .running (.appendSessionRun record mode.isNew)
  | .cleanup => .running .get

def phaseOf (i : ℕ) : Option Phase := s.calls[i]?.map HistoryCall.phase

/-- The promise the call is chained after has settled. -/
def previousSettled (call : HistoryCall) : Bool :=
  match call.previous with
  | none => true
  | some j => s.phaseOf j = some .settled

/-- What the call awaits is done, and it goes on to its next await. -/
def succeed (i : ℕ) : Awaiting → CronState
  | .appendSessionRun record cleans =>
    { s with history := insertRecord record s.history }.setPhase i
      (if cleans then .running .get else .settling .skipped)
  | .get =>
    s.setPhase i (match s.config with
      | some (.new keepSessions) =>
        .running (.getSessionHistory (keepSessions.getD defaultKeepSessions))
      | _ => .settling .skipped)
  | .getSessionHistory keep =>
    s.setPhase i (if s.history = [] then .settling .skipped else inspectNext keep [] s.history)
  | .getSession keep inspections record rest =>
    let found := s.sessions record.sessionId
    (s.observe (.looked i record.sessionId found)).setPhase i
      (inspectNext keep (inspections ++ [⟨record, inspectionKind found⟩]) rest)
  | .setSessionArchived loop =>
    (s.observe (.archived i loop.record.sessionId (s.sessions loop.record.sessionId))).setPhase i
      (buildNext loop.keep loop.inspections (loop.index + 1) loop.rest loop.next (loop.archived + 1)
        loop.compacted)
  | .replaceSessionHistory keep inspections next =>
    { s with history := next }.setPhase i (.settling (.cleaned keep inspections))

/-- What the call awaits fails. A session that cannot be read, or archived, is passed over. -/
def fail (i : ℕ) : Awaiting → CronState
  | .getSession keep inspections record rest =>
    (s.observe (.unread i record.sessionId)).setPhase i
      (inspectNext keep (inspections ++ [⟨record, inspectionKind none⟩]) rest)
  | .setSessionArchived loop =>
    (s.observe (.unarchived i loop.record.sessionId)).setPhase i
      (buildNext loop.keep loop.inspections (loop.index + 1) loop.rest (loop.next ++ [loop.record])
        loop.archived loop.compacted)
  | _ => s.setPhase i (.settling .failed)

def step : CronEvent → CronState
  | .call job => s.enqueue job
  | .cleanupAllCronSessions listed => if listed.isNew then s.enqueue .cleanup else s
  | .begin i =>
    match s.calls[i]? with
    | some call =>
      if call.phase = .waiting ∧ s.previousSettled call then s.setPhase i (start call.job) else s
    | none => s
  | .resolve i succeeds =>
    match s.phaseOf i with
    | some (.running awaiting) => if succeeds then s.succeed i awaiting else s.fail i awaiting
    | _ => s
  | .settle i =>
    match s.phaseOf i with
    | some (.settling _) =>
      { s.setPhase i .settled with tail := if s.tail = some i then none else s.tail }
    | _ => s
  | .session sessionId session =>
    { s with sessions := fun id => if id = sessionId then session else s.sessions id }
  | .configure config => { s with config }

end CronState

/-- A cron task with its history and sessions, before any call. -/
def cronMachine (config : Option SessionConfig) (history : List CronSessionRecord)
    (sessions : String → Option CronSessionInfo) : Machine CronState CronEvent Unit where
  initial := { config, history, sessions, calls := [], tail := none, observed := [] }
  step s e := (s.step e, ())

/-! ## What is promised -/

/-- What is left of some records, where those that are dropped have a reason. -/
inductive Retained (reason : CronSessionRecord → Prop) :
    List CronSessionRecord → List CronSessionRecord → Prop
  | nil : Retained reason [] []
  | keep {before after : List CronSessionRecord} (record : CronSessionRecord)
      (h : Retained reason before after) : Retained reason (record :: before) (record :: after)
  | drop {before after : List CronSessionRecord} {record : CronSessionRecord}
      (hreason : reason record) (h : Retained reason before after) :
      Retained reason (record :: before) after

/-- The call found the record's session gone or compressed, or has archived it. -/
def Justified (observed : List Observation) (i : ℕ) (record : CronSessionRecord) : Prop :=
  .looked i record.sessionId none ∈ observed ∨
    (∃ session, .looked i record.sessionId (some session) ∈ observed ∧ session.compressed = true) ∨
      ∃ found, .archived i record.sessionId found ∈ observed

/-- A session that must not be archived. -/
def Protected (session : CronSessionInfo) : Prop :=
  session.sessionType = .root ∨ session.started = true

instance (session : CronSessionInfo) : Decidable (Protected session) :=
  inferInstanceAs (Decidable (_ ∨ _))

def countVisible (inspections : List Inspection) : ℕ :=
  inspections.countP fun x => x.kind = .visible

/-- The records to be kept: the started and root ones, and the newest visible ones. -/
def keptRecords (keep : ℕ) : List Inspection → List CronSessionRecord
  | [] => []
  | x :: inspections =>
    if x.kind = .started ∨ x.kind = .root ∨ x.kind = .visible ∧ countVisible inspections < keep then
      x.record :: keptRecords keep inspections
    else keptRecords keep inspections

/-- The sessions to be archived: the older visible ones. -/
def oldSessions (keep : ℕ) : List Inspection → List String
  | [] => []
  | x :: inspections =>
    if x.kind = .visible ∧ keep ≤ countVisible inspections then
      x.record.sessionId :: oldSessions keep inspections
    else oldSessions keep inspections

/-- What a call was answered by `getSession`, in order. -/
def looksOf (i : ℕ) (observed : List Observation) : List (String × Option CronSessionInfo) :=
  observed.filterMap fun observation =>
    match observation with
    | .looked call sessionId found => if call = i then some (sessionId, found) else none
    | .unread call sessionId => if call = i then some (sessionId, none) else none
    | _ => none

/-- The sessions a call has archived, in order. -/
def archivedBy (i : ℕ) (observed : List Observation) : List String :=
  observed.filterMap fun observation =>
    match observation with
    | .archived call sessionId _ => if call = i then some sessionId else none
    | _ => none

/-- Nothing the call asked about a session has failed. -/
def Unfailing (i : ℕ) (observed : List Observation) : Prop :=
  ∀ sessionId, .unread i sessionId ∉ observed ∧ .unarchived i sessionId ∉ observed

/-- The call ends in the step, with the outcome. -/
def Ends (i : ℕ) (outcome : Outcome) (s s' : CronState) : Prop :=
  s'.phaseOf i = some (.settling outcome) ∧ s.phaseOf i ≠ some (.settling outcome)

/-- A step of the task loses nothing that is still needed. -/
structure LosesNothing (s : CronState) (e : CronEvent) (s' : CronState) : Prop where
  /-- Of the records before the step all are there after it, but those a cleanup has a reason for. -/
  left : ∃ kept, Retained (fun record => ∃ i, e = .resolve i true ∧ Justified s.observed i record)
    s.history kept ∧ kept.Sublist s'.history
  /-- No session that was archived was a root or started when it was. -/
  safe : ∀ i sessionId session, .archived i sessionId (some session) ∈ s'.observed →
    ¬Protected session
  /-- A cleanup that ends has inspected the whole history as it is then, and without a failure it
  leaves the records to be kept and has archived the older ones. -/
  cleaned : ∀ i keep inspections, Ends i (.cleaned (some keep) inspections) s s' →
    inspections.map (·.record) = s.history ∧
      inspections.map (fun x => (x.record.sessionId, x.kind)) =
        (looksOf i s'.observed).map (fun look => (look.1, inspectionKind look.2)) ∧
      (Unfailing i s'.observed →
        s'.history = keptRecords keep inspections ∧
          archivedBy i s'.observed = oldSessions keep inspections)

/-- A cleanup waits for the answer about a session. -/
def Phase.inspects : Phase → Bool
  | running (.getSession ..) => true
  | _ => false

/-- A cleanup under way has found the session visible, and may still archive it. -/
def Phase.mayArchive (phase : Phase) (sessionId : String) : Bool :=
  match phase with
  | running (.getSession keep inspections _ _) =>
    keep.isSome && inspections.any fun x => x.kind = .visible && x.record.sessionId = sessionId
  | running (.setSessionArchived loop) =>
    loop.record.sessionId = sessionId ||
      loop.keep.any fun keep => sessionId ∈ oldSessions keep loop.rest
  | _ => false

/-- No session that is asked for cannot be read, and none is started or made a root that a cleanup
has found visible and may still archive. -/
def Readable (s : CronState) (e : CronEvent) : Prop :=
  match e with
  | .resolve i false => ∀ phase ∈ s.phaseOf i, phase.inspects = false
  | .session sessionId (some session) =>
    (∃ call ∈ s.calls, call.phase.mayArchive sessionId = true) → ¬Protected session
  | _ => True

instance (s : CronState) : (e : CronEvent) → Decidable (Readable s e)
  | .resolve i false => inferInstanceAs (Decidable (∀ phase ∈ s.phaseOf i, _ = false))
  | .session sessionId (some session) => inferInstanceAs (Decidable
      ((∃ call ∈ s.calls, call.phase.mayArchive sessionId = true) → ¬Protected session))
  | .call _ | .cleanupAllCronSessions _ | .begin _ | .resolve _ true | .settle _ | .session _ none
  | .configure _ => .isTrue trivial

end CronHistory

end Kinetick
