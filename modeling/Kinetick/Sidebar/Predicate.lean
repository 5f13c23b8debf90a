import Kinetick.Js
import Kinetick.Sql

/-!
# The sessions of the sidebar

The columns of sessions and projects that the sidebar reads, and which sessions it lists under a
filter. A condition on a column that is NULL is not met.
-/

namespace Kinetick

namespace Sidebar

inductive SessionType
  | root
  | branch
  | task
  deriving DecidableEq

inductive SessionKind
  | conversation
  | task
  | peek
  | channel
  | cron
  | unknown
  deriving DecidableEq

inductive SessionStatus
  | idle
  | started
  | error
  | aborted
  | interrupted
  deriving DecidableEq

inductive SessionVisibility
  | visible
  | hidden
  deriving DecidableEq

inductive ProjectKind
  | default
  | workspace
  deriving DecidableEq

/-- A row of `local_runtime_sessions`. -/
structure SessionRow where
  sessionId : String
  updatedAtMs : ℤ
  columnarVersion : ℤ
  agentName : Option String
  sessionType : Option SessionType
  status : Option SessionStatus
  archived : Bool
  visibility : SessionVisibility
  sessionKind : SessionKind
  purpose : Option String
  parentSessionId : Option String
  workspaceDir : Option String
  isDefaultWorkspace : Bool
  createdAtMs : Option ℤ
  projectId : Option ℤ
  /-- `runLocation` in `recordJson` is there. -/
  recordRunLocation : Bool
  /-- `runLocation` in `extraDataJson` is there. -/
  extraRunLocation : Bool
  deriving DecidableEq

/-- `sidebarRemoval` in `extraDataJson`. -/
structure SidebarRemoval where
  atMs : ℤ
  boundaryIds : List String
  deriving DecidableEq

/-- A row of `local_runtime_projects`. -/
structure ProjectRow where
  projectId : ℤ
  projectKind : ProjectKind
  workspaceDir : Option String
  pinned : Bool
  hidden : Bool
  orderIndex : ℤ
  latestActivityAtMs : ℤ
  sidebarRemoval : Option SidebarRemoval
  deriving DecidableEq

/-- What the decoder makes of a row, as far as the sidebar reads it. -/
structure SessionRecord where
  sessionId : String
  agentName : String
  sessionType : SessionType
  sessionKind : SessionKind
  status : SessionStatus
  purpose : Option String
  createdAtMs : ℤ
  updatedAtMs : ℤ
  deriving DecidableEq

/-- `Number.isSafeInteger(n)` -/
def isSafeInteger (n : ℤ) : Bool := -9007199254740991 ≤ n && n ≤ 9007199254740991

def startsWith (text start : String) : Bool := start.toList.isPrefixOf text.toList

def endsWith (text ending : String) : Bool := ending.toList.isSuffixOf text.toList

def taskPurposePrefixes : List String := ["local-task:", "local-background-task:", "team-plan:"]

def currentSessionColumnarVersion : ℤ := 3

def normalizeSessionType : SessionType → SessionType
  | .root => .root
  | .branch | .task => .branch

def normalizePersistedSessionKind (row : SessionRow) (sessionType : SessionType) : SessionKind :=
  if row.sessionKind = .task ∨
      (sessionType = .branch ∧ (row.parentSessionId.any (· ≠ "")) ∧ row.visibility = .hidden ∧
        taskPurposePrefixes.any (startsWith (jsTrim (row.purpose.getD "")))) then
    .task
  else row.sessionKind

/-- What the sidebar answers with instead of a page. -/
inductive SidebarError
  /-- `SidebarQueryError` -/
  | query (key message : String)
  /-- A row that cannot be decoded. -/
  | row (message : String)
  deriving DecidableEq

def SessionRow.field (row : SessionRow) (name : String) : String :=
  "Session " ++ row.sessionId ++ "." ++ name

def requireSafeInteger (n : ℤ) (field : String) : Except SidebarError ℤ :=
  if isSafeInteger n then .ok n else .error (.row (field ++ " must be a safe integer"))

def decodeSessionRow (row : SessionRow) : Except SidebarError SessionRecord := do
  if row.columnarVersion ≠ currentSessionColumnarVersion then
    throw (.row (row.field "columnar_version" ++ " must be 3"))
  let updatedAtMs ← requireSafeInteger row.updatedAtMs (row.field "updated_at_ms")
  let sessionType ← match row.sessionType with
    | some sessionType => pure (normalizeSessionType sessionType)
    | none => throw (.row (row.field "session_type" ++ " must be one of: root, branch, task"))
  let agentName ← match row.agentName with
    | some agentName => pure agentName
    | none => throw (.row (row.field "agent_name" ++ " must be a string"))
  let status ← match row.status with
    | some status => pure status
    | none => throw (.row (row.field "status" ++
        " must be one of: idle, started, error, aborted, interrupted"))
  let createdAtMs ← match row.createdAtMs with
    | none => pure updatedAtMs
    | some createdAtMs => requireSafeInteger createdAtMs (row.field "created_at_ms")
  pure
    { sessionId := row.sessionId
      agentName
      sessionType
      sessionKind := normalizePersistedSessionKind row sessionType
      status
      purpose := row.purpose
      createdAtMs
      updatedAtMs }

/-! ## The database -/

/-- A row of the agents' states of the sessions. -/
structure SessionAgentStateRow where
  sessionId : String
  /-- `terminalOutcome = 'completed'` -/
  completed : Bool
  deriving DecidableEq

/-- A row of the turns' ingress. -/
structure TurnIngressRow where
  sessionId : String
  /-- `status = 'accepted'` -/
  accepted : Bool
  deriving DecidableEq

/-- The tables, in which ids are unique, rows of the current version can be decoded and the
integers of projects are safe. -/
structure Database where
  sessions : List SessionRow
  projects : List ProjectRow
  sessionAgentState : List SessionAgentStateRow
  turnIngress : List TurnIngressRow
  sessionIds : (sessions.map (·.sessionId)).Nodup
  projectIds : (projects.map (·.projectId)).Nodup
  decodes : ∀ row ∈ sessions, row.columnarVersion = currentSessionColumnarVersion →
    (decodeSessionRow row).isOk = true
  integers : ∀ p ∈ projects, 0 < p.projectId ∧ isSafeInteger p.projectId = true ∧
    isSafeInteger p.orderIndex = true ∧ isSafeInteger p.latestActivityAtMs = true

namespace Database

variable (db : Database)

/-- `sessions INNER JOIN projects` -/
def joined : List (SessionRow × ProjectRow) :=
  db.sessions.flatMap fun s =>
    (db.projects.filter fun p => s.projectId = some p.projectId).map fun p => (s, p)

/-- `projectActivityExpression` -/
def projectActivity (p : ProjectRow) : ℤ :=
  let channels := db.sessions.filter fun s =>
    s.projectId = some p.projectId && s.columnarVersion = 3 && !s.archived &&
      s.visibility ≠ .hidden && s.sessionKind ∉ [.peek, .cron] && s.sessionKind = .channel
  max p.latestActivityAtMs (((channels.map (·.updatedAtMs)).max?).getD 0)

def isDone (s : SessionRow) : Bool :=
  s.status = some .idle &&
    db.sessionAgentState.any (fun a => a.sessionId = s.sessionId && a.completed) &&
      !db.turnIngress.any fun t => t.sessionId = s.sessionId && t.accepted

end Database

/-! ## Predicates -/

def trustedImMarker : String := "[mavis:trusted-legacy-im-root]"

/-- The purpose is the marker, or its last line is. -/
def hasTrustedImMarker (purpose : Option String) : Bool :=
  purpose.any fun purpose => purpose = trustedImMarker || endsWith purpose ("\n" ++ trustedImMarker)

def trustedImRoot (s : SessionRow) : Bool :=
  s.sessionType = some .root && s.sessionKind = .conversation && hasTrustedImMarker s.purpose

def canonicalOwner (s : SessionRow) : Option String :=
  s.agentName.map fun agentName => if agentName ∈ ["main", "mavis"] then "mavis" else agentName

def sessionAfterProjectRemoval (s : SessionRow) (p : ProjectRow) : Bool :=
  match p.sidebarRemoval with
  | none => true
  | some removal =>
    s.createdAtMs.any fun createdAtMs => removal.atMs < createdAtMs ||
      (createdAtMs = removal.atMs && s.sessionId ∉ removal.boundaryIds)

def projectConversationRootPredicate (s : SessionRow) : Bool :=
  s.sessionType = some .root && s.sessionKind = .conversation &&
    (hasTrustedImMarker s.purpose || s.purpose.all fun purpose => !startsWith purpose "cron:")

def eligible (includeHiddenProject : Bool) (internalRootIds : List String) (s : SessionRow)
    (p : ProjectRow) : Bool :=
  s.columnarVersion = 3 && !s.archived && s.parentSessionId.isNone &&
    (includeHiddenProject || !p.hidden) && sessionAfterProjectRemoval s p &&
    s.sessionId ∉ internalRootIds &&
    ((s.sessionType = some .branch && s.visibility ≠ .hidden &&
        s.sessionKind ∉ [.peek, .task, .channel]) ||
      (s.sessionType = some .branch && s.sessionKind = .channel) ||
      (s.visibility ≠ .hidden && projectConversationRootPredicate s))

inductive SidebarType
  | chat
  | task
  | cron
  | im
  deriving DecidableEq

inductive SidebarStatus
  | unread
  | working
  | done
  deriving DecidableEq

/-- What the parts of a query are normalized to. -/
structure NormalizedInputs where
  allProjects : Bool
  types : List SidebarType
  statuses : List SidebarStatus
  agentNames : List String
  activityDays : Option ℤ
  unreadIds : List String
  excludedIds : List String
  excludedProjectIds : List ℤ
  bindingIds : List String
  cronTargetIds : List String
  internalRootIds : List String
  rootAgentNames : Option (List String)
  deriving DecidableEq

def sidebarProjectPredicate (q : NormalizedInputs) (p : ProjectRow) : Bool :=
  !p.hidden && !p.pinned && p.projectId ∉ q.excludedProjectIds

def typeCondition (q : NormalizedInputs) (s : SessionRow) (p : ProjectRow) : SidebarType → Bool
  | .chat => p.projectKind = .default
  | .task => p.projectKind = .workspace
  | .cron => s.sessionKind = .cron || s.sessionId ∈ q.cronTargetIds
  | .im => s.sessionKind = .channel || s.sessionId ∈ q.bindingIds || trustedImRoot s

def statusCondition (db : Database) (q : NormalizedInputs) (s : SessionRow) : SidebarStatus → Bool
  | .working => s.status = some .started
  | .done => db.isDone s
  | .unread => s.sessionId ∈ q.unreadIds

def sidebarPredicate (db : Database) (q : NormalizedInputs) (nowMs : ℤ) (s : SessionRow)
    (p : ProjectRow) : Bool :=
  eligible false q.internalRootIds s p && sidebarProjectPredicate q p &&
    s.sessionId ∉ q.excludedIds &&
    (q.types.isEmpty || q.types.any (typeCondition q s p)) &&
    (q.statuses.isEmpty || q.statuses.any (statusCondition db q s)) &&
    (q.agentNames.isEmpty || (canonicalOwner s).any fun owner => owner ∈ q.agentNames) &&
    q.activityDays.all fun days => nowMs - days * 86400000 ≤ s.updatedAtMs

end Sidebar

end Kinetick
