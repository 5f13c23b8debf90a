import Kinetick.Keyset
import Kinetick.Sidebar.Context
import Mathlib.Data.List.Dedup

/-!
# The listings of the sidebar

Projects with previews of their sessions, sessions of a project or of all, and the agents that own
some. A listing selects what comes after the tuple of the cursor, in its order, one row more than the
page shows.
-/

namespace Kinetick

namespace Sidebar

open Sql

structure SidebarEntry where
  session : SessionRecord
  done : Bool
  types : List SidebarType
  deriving DecidableEq

structure SidebarGroup where
  /-- The project, with its latest activity as it is read. -/
  project : ProjectRow
  entries : List SidebarEntry
  activeEntry : Option SidebarEntry
  matchedCount : ℕ
  hasMoreSessions : Bool
  nextSessionCursor : Option (Encoded Cursor)
  deriving DecidableEq

structure ProjectsPage where
  groups : List SidebarGroup
  context : Encoded Context
  hasMore : Bool
  nextCursor : Option (Encoded Cursor)
  deriving DecidableEq

structure SessionsPage where
  entries : List SidebarEntry
  context : Encoded Context
  hasMore : Bool
  nextCursor : Option (Encoded Cursor)
  deriving DecidableEq

structure AgentsPage where
  names : List String
  context : Encoded Context
  hasMore : Bool
  nextCursor : Option (Encoded Cursor)
  deriving DecidableEq

/-- The service on a database that does not change. `internalWorkspaceDir` says whether a workspace
is the internal one of an agent. -/
structure SidebarQueryService where
  db : Database
  internalWorkspaceDir : (workspaceDir : Option String) → (agentName : String) → Bool
  hash : NormalizedInputs → String

/-! ## Orders -/

def projectKey (db : Database) (p : ProjectRow) : List SqlValue :=
  [.integer (if p.pinned then 1 else 0), .integer p.orderIndex, .integer (db.projectActivity p),
    .integer p.projectId]

def projectDescending : List Bool := [true, false, true, false]

def sessionKey (s : SessionRow) : List SqlValue :=
  [.integer s.updatedAtMs, (s.createdAtMs.map SqlValue.integer).getD .null, .text s.sessionId]

def sessionDescending : List Bool := [true, true, false]

def encodedCursor (q : NormalizedSidebarQuery) (kind : CursorKind) (last : List SqlValue)
    (projectId : Option ℤ) : Encoded Cursor :=
  .object { v := 1, context := q.context, kind, last, projectId }

def sessionCursor (q : NormalizedSidebarQuery) (value : SidebarEntry) (projectId : Option ℤ) :
    Encoded Cursor :=
  encodedCursor q .sessions
    [.integer value.session.updatedAtMs, .integer value.session.createdAtMs,
      .text value.session.sessionId] projectId

namespace SidebarQueryService

variable (S : SidebarQueryService)

def listInternalDefaultRootIds : List String :=
  let roots := S.db.sessions.filter fun s =>
    s.sessionType = some .root && s.sessionKind = .conversation
  (roots.filter fun s =>
    !(hasTrustedImMarker s.purpose || s.extraRunLocation) &&
      (s.isDefaultWorkspace || s.agentName.any fun agentName =>
        agentName ≠ "" && S.internalWorkspaceDir s.workspaceDir agentName)).map (·.sessionId)

def normalizeQuery (input : SidebarQuery) (nowMs : ℤ) (rootAgentNames : Option (List String)) :
    Except SidebarError NormalizedSidebarQuery :=
  normalizeSidebarQuery S.hash input nowMs S.listInternalDefaultRootIds rootAgentNames

def entry (q : NormalizedSidebarQuery) (row : SessionRow × ProjectRow) :
    Except SidebarError SidebarEntry := do
  let session ← decodeSessionRow row.1
  pure
    { session
      done := S.db.isDone row.1
      types := (if row.2.projectKind = .default then .chat else .task) ::
        ((if session.sessionKind = .cron || session.sessionId ∈ q.cronTargetIds then [.cron] else []) ++
          (if session.sessionKind = .channel || session.sessionId ∈ q.bindingIds ||
              (session.sessionType = .root && session.sessionKind = .conversation &&
                hasTrustedImMarker session.purpose) then [.im] else [])) }

/-- The sessions of a project, or of all, that pass the filter. -/
def matched (q : NormalizedSidebarQuery) (projectId : Option ℤ) : List (SessionRow × ProjectRow) :=
  S.db.joined.filter fun row =>
    projectId.all (fun id => row.1.projectId = some id) &&
      sidebarPredicate S.db q.toNormalizedInputs q.nowMs row.1 row.2

/-! ## Projects -/

def hasFilters (q : NormalizedSidebarQuery) : Bool :=
  !q.types.isEmpty || !q.statuses.isEmpty || !q.agentNames.isEmpty || q.activityDays.isSome

def matchedCount (q : NormalizedSidebarQuery) (p : ProjectRow) : ℕ :=
  (S.db.sessions.filter fun s => s.projectId = some p.projectId &&
    sidebarPredicate S.db q.toNormalizedInputs q.nowMs s p).length

def hasEligibleSession (q : NormalizedSidebarQuery) (p : ProjectRow) : Bool :=
  S.db.sessions.any fun s => s.projectId = some p.projectId && eligible false q.internalRootIds s p

/-- The projects that the sidebar lists under a filter. -/
def listed (q : NormalizedSidebarQuery) (p : ProjectRow) : Bool :=
  sidebarProjectPredicate q.toNormalizedInputs p &&
    if hasFilters q then 0 < S.matchedCount q p else S.hasEligibleSession q p

/-- The first sessions of a project by their row numbers, one more than the group shows. -/
def previews (q : NormalizedSidebarQuery) (sessionLimit : ℕ) (p : ProjectRow) :
    Except SidebarError (List SidebarEntry) :=
  let ranked := (orderBy sessionDescending (fun row => sessionKey row.1)
    (S.matched q (some p.projectId))).zipIdx 1
  (ranked.filter fun row => row.2 ≤ sessionLimit + 1).mapM fun row => S.entry q row.1

/-- The selected session, if it is of the project and is not shown. -/
def activeEntry (q : NormalizedSidebarQuery) (active : Option (SessionRow × ProjectRow))
    (shown : List SidebarEntry) (p : ProjectRow) : Except SidebarError (Option SidebarEntry) :=
  match active with
  | some row =>
    if row.2.projectId = p.projectId ∧
        shown.all (fun value => value.session.sessionId ≠ row.1.sessionId) then
      (S.entry q row).map some
    else .ok none
  | none => .ok none

def group (q : NormalizedSidebarQuery) (sessionLimit : ℕ)
    (active : Option (SessionRow × ProjectRow)) (p : ProjectRow) :
    Except SidebarError SidebarGroup := do
  let entries ← S.previews q sessionLimit p
  let shown := entries.take sessionLimit
  let activeEntry ← S.activeEntry q active shown p
  pure
    { project := { p with latestActivityAtMs := S.db.projectActivity p }
      entries := shown
      activeEntry
      matchedCount := S.matchedCount q p
      hasMoreSessions := sessionLimit < entries.length
      nextSessionCursor :=
        if sessionLimit < entries.length then
          shown.getLast?.map fun value => sessionCursor q value (some p.projectId)
        else none }

def projects (nowMs : ℤ) (input : SidebarQuery) : Except SidebarError ProjectsPage := do
  let q ← S.normalizeQuery input nowMs none
  let limit ← pageLimit input.limit 4
  let sessionLimit ← pageLimit input.sessionLimit 6
  let last ← readCursor input.cursor q .projects none
  let rows := (orderBy projectDescending (projectKey S.db) (S.db.projects.filter fun p =>
    S.listed q p && last.all fun last =>
      tupleAfter (projectKey S.db p) last projectDescending)).take (limit + 1)
  let page := rows.take limit
  let active := input.activeSessionId.bind fun id =>
    S.db.joined.find? fun row =>
      row.1.sessionId = id && row.1.projectId.any (fun id => id ∈ page.map (·.projectId)) &&
        sidebarPredicate S.db q.toNormalizedInputs q.nowMs row.1 row.2
  let groups ← page.mapM (S.group q sessionLimit active)
  pure
    { groups
      context := q.context
      hasMore := limit < rows.length
      nextCursor :=
        if limit < rows.length then
          page.getLast?.map fun p => encodedCursor q .projects (projectKey S.db p) none
        else none }

/-! ## Sessions -/

def sessions (nowMs : ℤ) (projectId : Option ℤ) (input : SidebarQuery) :
    Except SidebarError SessionsPage := do
  if projectId.any fun id => !isSafeInteger id || id ≤ 0 then
    throw (.query "SIDEBAR_INVALID_FILTER" "Invalid project")
  let q ← S.normalizeQuery { input with allProjects := projectId.isNone } nowMs none
  let limit ← pageLimit input.limit (if projectId.isNone then 20 else 6)
  let last ← readCursor input.cursor q .sessions projectId
  let rows := (orderBy sessionDescending (fun row => sessionKey row.1)
    ((S.matched q projectId).filter fun row =>
      last.all fun last => tupleAfter (sessionKey row.1) last sessionDescending)).take (limit + 1)
  let entries ← (rows.take limit).mapM (S.entry q)
  pure
    { entries
      context := q.context
      hasMore := limit < rows.length
      nextCursor :=
        if limit < rows.length then
          entries.getLast?.map fun value => sessionCursor q value projectId
        else none }

/-! ## Agents -/

/-- The owners of a session of which there is evidence that the agent is usable. -/
def ownedByAgent (q : NormalizedSidebarQuery) (rootAgentNames : List String)
    (row : SessionRow × ProjectRow) : Bool :=
  eligible false q.internalRootIds row.1 row.2 &&
    (row.1.sessionType.any (· ≠ .root) ||
      (canonicalOwner row.1).any (fun owner => owner ∈ rootAgentNames) || row.1.recordRunLocation ||
      hasTrustedImMarker row.1.purpose) &&
    (canonicalOwner row.1).any fun owner => owner.toList.any (· ≠ ' ')

/-- The names of the owners, each once. -/
def owners (q : NormalizedSidebarQuery) (rootAgentNames : List String) : List String :=
  ((S.db.joined.filter (ownedByAgent q rootAgentNames)).filterMap fun row =>
    canonicalOwner row.1).dedup

def agents (nowMs : ℤ) (input : SidebarQuery) (rootAgentNames : List String) :
    Except SidebarError AgentsPage := do
  let q ← S.normalizeQuery { input with filter := none, scope := none } nowMs (some rootAgentNames)
  let last ← readCursor input.cursor q .agents none
  let limit ← pageLimit input.limit 50
  let rows := (orderBy [false] (fun name => [.text name])
    (((S.db.joined.filter fun row => ownedByAgent q rootAgentNames row &&
      last.all fun last => (canonicalOwner row.1).any fun owner =>
        (last.head?.getD .null).lt (.text owner)).filterMap fun row =>
          canonicalOwner row.1).dedup)).take (limit + 1)
  pure
    { names := rows.take limit
      context := q.context
      hasMore := limit < rows.length
      nextCursor :=
        if limit < rows.length then
          (rows.take limit).getLast?.map fun name => encodedCursor q .agents [.text name] none
        else none }

end SidebarQueryService

end Sidebar

end Kinetick

/-!
## What the listings of the sidebar show

A listing begins with a call without a context and goes on with calls that hand back the context and
the cursor they were given. The calls of one listing are made from the time it began on, each with its
own limits.
-/

namespace Kinetick

namespace Sidebar

open Sql Keyset

/-- What a call of a listing brings of its own. -/
structure SidebarCall where
  nowMs : ℤ
  limit : Option ℤ
  sessionLimit : Option ℤ
  activeSessionId : Option String
  deriving DecidableEq

def AllowedLimit (limit : Option ℤ) : Prop := ∀ n ∈ limit, 1 ≤ n ∧ n ≤ 200

/-- A call of a listing that began at a time. -/
structure SidebarCall.Allowed (began : ℤ) (c : SidebarCall) : Prop where
  time : began ≤ c.nowMs
  limit : AllowedLimit c.limit
  sessionLimit : AllowedLimit c.sessionLimit

/-- What a listing hands back. -/
abbrev Handle := Encoded Context × Encoded Cursor

/-- The query of a call, which goes on from what it was handed. -/
def SidebarCall.query (c : SidebarCall) (input : SidebarQuery) (start : Option Handle) :
    SidebarQuery :=
  { input with
    activeSessionId := c.activeSessionId
    context := start.map (·.1)
    cursor := start.map (·.2)
    limit := c.limit
    sessionLimit := c.sessionLimit }

def ProjectsPage.page (r : ProjectsPage) : Page SidebarGroup Handle where
  items := r.groups
  hasMore := r.hasMore
  nextCursor := r.nextCursor.map fun cursor => (r.context, cursor)

def SessionsPage.page (r : SessionsPage) : Page SidebarEntry Handle where
  items := r.entries
  hasMore := r.hasMore
  nextCursor := r.nextCursor.map fun cursor => (r.context, cursor)

def AgentsPage.page (r : AgentsPage) : Page String Handle where
  items := r.names
  hasMore := r.hasMore
  nextCursor := r.nextCursor.map fun cursor => (r.context, cursor)

/-- A group shows the first page of its project's sessions. -/
def SidebarGroup.page (g : SidebarGroup) (context : Encoded Context) : Page SidebarEntry Handle where
  items := g.entries
  hasMore := g.hasMoreSessions
  nextCursor := g.nextSessionCursor.map fun cursor => (context, cursor)

/-- From the first page on, which is fetched at the time, the pages show the list. -/
def ListedBy {α β : Type} (fetch : SidebarCall → Option Handle → Except SidebarError (Page β Handle))
    (shows : α → β → Prop) (began : ℤ) (list : List α) : Prop :=
  ∀ c calls, c.nowMs = began → SidebarCall.Allowed began c →
    (∀ c ∈ calls, SidebarCall.Allowed began c) →
      ∃ page, fetch c none = .ok page ∧
        Enumerates (fun c start => fetch c (some start)) shows calls list page

namespace SidebarQueryService

variable (S : SidebarQueryService) (input : SidebarQuery)

def fetchProjects (c : SidebarCall) (start : Option Handle) :
    Except SidebarError (Page SidebarGroup Handle) :=
  (S.projects c.nowMs (c.query input start)).map (·.page)

def fetchSessions (projectId : Option ℤ) (c : SidebarCall) (start : Option Handle) :
    Except SidebarError (Page SidebarEntry Handle) :=
  (S.sessions c.nowMs projectId (c.query input start)).map (·.page)

def fetchAgents (rootAgentNames : List String) (c : SidebarCall) (start : Option Handle) :
    Except SidebarError (Page String Handle) :=
  (S.agents c.nowMs (c.query input start) rootAgentNames).map (·.page)

/-- The sessions that pass the filter, in the order (updated, created, id). -/
def sessionList (q : NormalizedSidebarQuery) (projectId : Option ℤ) :
    List (SessionRow × ProjectRow) :=
  orderBy sessionDescending (fun row => sessionKey row.1) (S.matched q projectId)

/-- The projects that are listed, in the order (pinned, order index, latest activity, id). -/
def projectList (q : NormalizedSidebarQuery) : List ProjectRow :=
  orderBy projectDescending (projectKey S.db) (S.db.projects.filter (S.listed q))

def agentList (q : NormalizedSidebarQuery) (rootAgentNames : List String) : List String :=
  orderBy [false] (fun name => [.text name]) (S.owners q rootAgentNames)

/-- The entry is that of the row. -/
def EntryOf (q : NormalizedSidebarQuery) (row : SessionRow × ProjectRow) (value : SidebarEntry) :
    Prop := S.entry q row = .ok value

/-- The group is that of the project: it counts the sessions of the project that pass the filter, and
its entries and the pages of sessions that follow them show each of them. -/
structure GroupOf (q : NormalizedSidebarQuery) (began : ℤ) (p : ProjectRow) (g : SidebarGroup) :
    Prop where
  project : g.project.projectId = p.projectId
  count : g.matchedCount = (S.matched q (some p.projectId)).length
  sessions : ∀ calls, (∀ c ∈ calls, SidebarCall.Allowed began c) →
    Enumerates (fun c start => S.fetchSessions input (some p.projectId) c (some start))
      (S.EntryOf q) calls (S.sessionList q (some p.projectId)) (g.page q.context)

/-- Every listing of the query shows its list. -/
structure EnumeratesSidebar (q : NormalizedSidebarQuery) (rootAgentNames : List String) (began : ℤ) :
    Prop where
  projects : ListedBy (S.fetchProjects input) (S.GroupOf input q began) began (S.projectList q)
  sessions : ListedBy (S.fetchSessions input none) (S.EntryOf q) began (S.sessionList q none)
  agents : ListedBy (S.fetchAgents input rootAgentNames) Eq began (S.agentList q rootAgentNames)

/-- No two sessions of the list were updated at one time, where one has no creation time. -/
def CreatedApart (q : NormalizedSidebarQuery) : Prop :=
  ∀ x ∈ S.matched q none, ∀ y ∈ S.matched q none, x ≠ y → x.1.updatedAtMs = y.1.updatedAtMs →
    x.1.createdAtMs ≠ none

end SidebarQueryService

end Sidebar

end Kinetick
