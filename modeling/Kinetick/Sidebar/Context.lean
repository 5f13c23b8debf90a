import Kinetick.Sidebar.Predicate

/-!
# The context of a sidebar query

A query is normalized and hashed, and the time of its first page is pinned in a context that the later
pages hand back. A cursor names the context, the listing and the last tuple that was shown. Contexts
and cursors are texts that encode objects; here they are the objects, or a text that encodes none.
-/

namespace Kinetick

namespace Sidebar

open Sql

/-- A text handed back by a caller. -/
inductive Encoded (α : Type)
  | object (value : α)
  | malformed
  deriving DecidableEq

structure Context where
  v : ℤ
  hash : String
  nowMs : ℤ
  deriving DecidableEq

inductive CursorKind
  | projects
  | sessions
  | agents
  deriving DecidableEq

structure Cursor where
  v : ℤ
  context : Encoded Context
  kind : CursorKind
  last : List SqlValue
  projectId : Option ℤ
  deriving DecidableEq

structure SidebarFilter where
  types : Option (List String)
  statuses : Option (List String)
  agentNames : Option (List String)
  activityDays : Option ℤ
  deriving DecidableEq

structure SidebarScope where
  unreadSessionIds : Option (List String)
  excludedSessionIds : Option (List String)
  excludedProjectIds : Option (List ℤ)
  deriving DecidableEq

structure SidebarQuery where
  activeSessionId : Option String
  allProjects : Bool
  filter : Option SidebarFilter
  scope : Option SidebarScope
  bindingIds : List String
  cronTargetIds : Option (List String)
  context : Option (Encoded Context)
  cursor : Option (Encoded Cursor)
  limit : Option ℤ
  sessionLimit : Option ℤ
  deriving DecidableEq

def invalidFilter {α : Type} (message : String) : Except SidebarError α :=
  .error (.query "SIDEBAR_INVALID_FILTER" message)

def contextMismatch {α : Type} (message : String) : Except SidebarError α :=
  .error (.query "SIDEBAR_QUERY_CONTEXT_MISMATCH" message)

def invalidCursor {α : Type} (message : String) : Except SidebarError α :=
  .error (.query "SIDEBAR_INVALID_CURSOR" message)

/-- `.sort()` of texts -/
def sortTexts (texts : List String) : List String :=
  texts.insertionSort fun a b => ¬CodeUnits.ofText b < CodeUnits.ofText a

def stringSet (values : Option (List String)) : Except SidebarError (List String) :=
  match values with
  | none => .ok []
  | some values =>
    if values.any fun v => jsTrim v = "" then invalidFilter "Expected nonempty strings"
    else .ok (sortTexts (values.map jsTrim).eraseDups)

/-- The values of a set of texts, each of which must be one of the names. -/
def enumSet {τ : Type} (values : Option (List String)) (allowed : List (String × τ)) :
    Except SidebarError (List τ) := do
  let result ← stringSet values
  match result.mapM fun v => (allowed.find? fun entry => entry.1 = v).map (·.2) with
  | some result => pure result
  | none => invalidFilter "Unknown filter value"

def projectIdSet (values : Option (List ℤ)) : Except SidebarError (List ℤ) :=
  let values := values.getD []
  if values.any fun value => !isSafeInteger value || value ≤ 0 then
    invalidFilter "Invalid project IDs"
  else .ok (values.eraseDups.insertionSort fun a b => a ≤ b)

def normalizeActivityDays (value : Option ℤ) : Except SidebarError (Option ℤ) :=
  match value with
  | none => .ok none
  | some days => if days ∈ [1, 3, 7] then .ok (some days) else invalidFilter "Invalid activity window"

def statusNames : List (String × SidebarStatus) :=
  [("unread", .unread), ("working", .working), ("done", .done)]

def typeNames : List (String × SidebarType) :=
  [("chat", .chat), ("task", .task), ("cron", .cron), ("im", .im)]

/-- Unread sessions count only where the filter asks for them. -/
def normalizeUnreadIds (statuses : List SidebarStatus) (scope : Option SidebarScope) :
    Except SidebarError (List String) :=
  if .unread ∈ statuses then stringSet (scope.bind (·.unreadSessionIds)) else .ok []

def normalizeInputs (input : SidebarQuery) (internalRootIds : List String)
    (rootAgentNames : Option (List String)) : Except SidebarError NormalizedInputs := do
  let statuses ← enumSet (input.filter.bind (·.statuses)) statusNames
  let types ← enumSet (input.filter.bind (·.types)) typeNames
  let agentNames ← stringSet (input.filter.bind (·.agentNames))
  let activityDays ← normalizeActivityDays (input.filter.bind (·.activityDays))
  let unreadIds ← normalizeUnreadIds statuses input.scope
  let excludedIds ← stringSet (input.scope.bind (·.excludedSessionIds))
  let excludedProjectIds ← projectIdSet (input.scope.bind (·.excludedProjectIds))
  let bindingIds ← stringSet (some input.bindingIds)
  let cronTargetIds ← stringSet input.cronTargetIds
  pure
    { allProjects := input.allProjects
      types
      statuses
      agentNames :=
        sortTexts (agentNames.map fun value => if value = "main" then "mavis" else value).eraseDups
      activityDays
      unreadIds
      excludedIds
      excludedProjectIds
      bindingIds
      cronTargetIds
      internalRootIds := sortTexts internalRootIds
      rootAgentNames := rootAgentNames.map fun names => sortTexts names.eraseDups }

/-- A normalized query, with its context and the time that is pinned in it. -/
structure NormalizedSidebarQuery extends NormalizedInputs where
  context : Encoded Context
  nowMs : ℤ
  deriving DecidableEq

def queryTime (input : SidebarQuery) (hash : String) (nowMs : ℤ) : Except SidebarError ℤ :=
  match input.context with
  | none =>
    if input.cursor.isSome then contextMismatch "Cursor requires context" else .ok nowMs
  | some .malformed => contextMismatch "Invalid query cursor"
  | some (.object previous) =>
    if previous.v ≠ 1 ∨ previous.hash ≠ hash ∨ isSafeInteger previous.nowMs = false ∨
        previous.nowMs < 0 ∨ nowMs < previous.nowMs then
      contextMismatch "Query context changed"
    else .ok previous.nowMs

/-- `hash` is the hash of the normalized query's text. -/
def normalizeSidebarQuery (hash : NormalizedInputs → String) (input : SidebarQuery) (nowMs : ℤ)
    (internalRootIds : List String) (rootAgentNames : Option (List String)) :
    Except SidebarError NormalizedSidebarQuery := do
  let normalized ← normalizeInputs input internalRootIds rootAgentNames
  let queryNowMs ← queryTime input (hash normalized) nowMs
  pure
    { normalized with
      context := .object { v := 1, hash := hash normalized, nowMs := queryNowMs }
      nowMs := queryNowMs }

def tupleValid : CursorKind → List SqlValue → Bool
  | .agents, [.text _] => true
  | .projects, [.integer pinned, .integer orderIndex, .integer activity, .integer projectId] =>
    [pinned, orderIndex, activity, projectId].all isSafeInteger && pinned ∈ [0, 1] && 0 < projectId
  | .sessions, [.integer updatedAtMs, .integer createdAtMs, .text _] =>
    isSafeInteger updatedAtMs && isSafeInteger createdAtMs
  | _, _ => false

def readCursor (value : Option (Encoded Cursor)) (query : NormalizedSidebarQuery) (kind : CursorKind)
    (projectId : Option ℤ) : Except SidebarError (Option (List SqlValue)) :=
  match value with
  | none => .ok none
  | some .malformed => invalidCursor "Invalid query cursor"
  | some (.object cursor) =>
    if cursor.v ≠ 1 ∨ cursor.context ≠ query.context ∨ cursor.kind ≠ kind ∨
        cursor.projectId ≠ projectId then
      invalidCursor "Cursor does not match this query"
    else if tupleValid kind cursor.last then .ok (some cursor.last)
    else invalidCursor "Invalid sort tuple"

def pageLimit (value : Option ℤ) (fallback : ℕ) : Except SidebarError ℕ :=
  match value with
  | none => .ok fallback
  | some limit =>
    if limit < 1 ∨ 200 < limit then invalidFilter "Limit must be 1..200" else .ok limit.toNat

end Sidebar

end Kinetick
