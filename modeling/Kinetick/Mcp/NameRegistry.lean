import Kinetick.Machine
import Kinetick.Mcp.ToolName
import Mathlib.Data.List.Sort

/-!
# The registry of MCP names

`name-registry.ts`: servers and their tools are given segments of public names, which they keep. A
registry with a file reads it in a transaction that no other registry shares, and replaces it where
something was assigned. A file holds the JSON text of a state, which reads back as that state.
-/

namespace Kinetick.Mcp

/-! ### Texts and maps of JavaScript -/

/-- The UTF-16 code units of a text, by which texts are compared. -/
def codeUnits (text : String) : List ℕ :=
  text.toList.flatMap fun c =>
    if c.toNat < 65536 then [c.toNat]
    else [55296 + (c.toNat - 65536) / 1024, 56320 + (c.toNat - 65536) % 1024]

/-- `map.set(key, value)` -/
def mapSet {α : Type} (key : String) (value : α) : List (String × α) → List (String × α)
  | [] => [(key, value)]
  | entry :: entries =>
    if entry.1 = key then (key, value) :: entries else entry :: mapSet key value entries

/-! ### The state -/

structure ToolAssignment where
  raw : String
  segment : String
  deriving DecidableEq

structure ServerAssignment where
  key : String
  raw : String
  segment : String
  tools : List ToolAssignment
  deriving DecidableEq

/-- `State`, of version 1. -/
structure State where
  servers : List ServerAssignment := []
  deriving DecidableEq

structure McpNameCandidate where
  key : String
  name : String
  deriving DecidableEq

structure McpNameAssignments where
  names : List (String × String) := []
  errors : List (String × String) := []
  deriving DecidableEq

/-- `/^[A-Za-z0-9-]+(?:_[A-Za-z0-9-]+)*$/` -/
def isSegment : List Char → Bool
  | [] => false
  | [c] => isSegmentChar c
  | c :: d :: rest =>
    isSegmentChar c && (if d = '_' then isSegment rest else isSegment (d :: rest))

def validSegment (value : String) : Bool := isSegment value.toList && value.toList.any isAlphanumeric

section

variable (parseJson : String → Option JsValue)

/-- A tool's key is its original name, no structured identity; what does not parse is no array. -/
def sourcePriority (key : String) : ℕ :=
  match parseJson key with
  | some (.array (.string "configured" :: _)) => 0
  | some (.array (.string "plugin" :: .string "OFFICIAL" :: _)) => 1
  | _ => 2

/-! ### Allocation -/

structure PendingName where
  key : String
  base : String
  natural : Bool
  deriving DecidableEq

/-- What is known while names are allocated. -/
structure Allocation where
  names : List (String × String) := []
  errors : List (String × String) := []
  used : List String
  deriving DecidableEq

def Allocation.give (a : Allocation) (key segment : String) : Allocation :=
  { a with names := mapSet key segment a.names, used := segment :: a.used }

def Allocation.refuse (a : Allocation) (key message : String) : Allocation :=
  { a with errors := mapSet key message a.errors }

/-- The candidates by key, the last of each, in the order of the keys. -/
def distinctCandidates (candidates : List McpNameCandidate) : List McpNameCandidate :=
  ((candidates.foldl (fun map entry => mapSet entry.key entry map) []).map Prod.snd).insertionSort
    fun a b => ¬codeUnits b.key < codeUnits a.key

/-- The names that are saved, those that are invalid and those that are pending. -/
def gather (existing : List (String × String)) (kind : NameKind) (max : ℕ) :
    List McpNameCandidate → Allocation × List PendingName → Allocation × List PendingName
  | [], s => s
  | ⟨key, name⟩ :: candidates, (a, pending) =>
    match existing.lookup key with
    | some saved => gather existing kind max candidates
        ({ a with names := mapSet key saved a.names }, pending)
    | none =>
      match normalizeMcpNameSegment name kind >>= (shortenMcpNameSegment · max kind) with
      | .ok base => gather existing kind max candidates (a, pending ++ [⟨key, base, base = name⟩])
      | .error message => gather existing kind max candidates (a.refuse key message, pending)

/-- The order of `pending.sort`. -/
def pendingLe (a b : PendingName) : Bool :=
  if a.natural ≠ b.natural then a.natural
  else if sourcePriority parseJson a.key ≠ sourcePriority parseJson b.key then
    sourcePriority parseJson a.key < sourcePriority parseJson b.key
  else ¬codeUnits b.key < codeUnits a.key

def takeBases : List PendingName → Allocation × List PendingName → Allocation × List PendingName
  | [], s => s
  | entry :: pending, (a, conflicts) =>
    if a.used.contains entry.base then takeBases pending (a, conflicts ++ [entry])
    else takeBases pending (a.give entry.key entry.base, conflicts)

/-- The suffix of a number. -/
def suffixOf (number : ℕ) : String := "_" ++ toString number

theorem lt_of_suffixOf_length_lt {number max : ℕ} (h : (suffixOf number).length < max) :
    number < 10 ^ max := by
  have hlength : (suffixOf number).length = 1 + (Nat.toDigits 10 number).length := by
    rw [suffixOf, String.length_append, Nat.toString_eq_ofList_toDigits, String.length_ofList,
      String.length_ofList]
    rfl
  have hdigits : (Nat.toDigits 10 number).length ≤ max := by omega
  exact (Nat.length_toDigits_le_iff (by decide) (by omega)).1 hdigits

/-- The numbers from `number` on are tried until one is free or there is no room for it. -/
def takeNumber (used : List String) (base : String) (kind : NameKind) (max number : ℕ) :
    Except String (Option String) :=
  if _ : max ≤ (suffixOf number).length then .ok none
  else
    match shortenMcpNameSegment base (max - (suffixOf number).length) kind with
    | .error message => .error message
    | .ok shortened =>
      if used.contains (shortened ++ suffixOf number) then
        takeNumber used base kind max (number + 1)
      else .ok (some (shortened ++ suffixOf number))
termination_by 10 ^ max - number
decreasing_by
  have := lt_of_suffixOf_length_lt (Nat.lt_of_not_le ‹_›)
  omega

def resolveConflicts (kind : NameKind) (max : ℕ) : List PendingName → Allocation →
    Except String Allocation
  | [], a => .ok a
  | ⟨key, base, _⟩ :: conflicts, a =>
    match takeNumber a.used base kind max 2 with
    | .error message => .error message
    | .ok (some candidate) => resolveConflicts kind max conflicts (a.give key candidate)
    | .ok none =>
      resolveConflicts kind max conflicts
        (a.refuse key ("MCP " ++ kind.text ++ " name has no room for a collision suffix"))

def allocate (candidates : List McpNameCandidate) (existing : List (String × String))
    (kind : NameKind) (max : ℕ) : Except String McpNameAssignments := do
  let (gathered, pending) := gather existing kind max (distinctCandidates candidates)
    ({ used := existing.map Prod.snd }, [])
  let (a, conflicts) := takeBases
    (pending.insertionSort fun a b => pendingLe parseJson a b) (gathered, [])
  let a ← resolveConflicts kind max conflicts a
  return { names := a.names, errors := a.errors }

/-! ### The registry -/

/-- The loops that record what was allocated, each key once. -/
def addEntries {α β : Type} (names : List (String × String)) (keyOf : α → String)
    (key : β → String) (entry : β → String → α) : List β → List α → List α
  | [], entries => entries
  | b :: bs, entries =>
    match names.lookup (key b) with
    | some segment =>
      if entries.any (keyOf · = key b) then addEntries names keyOf key entry bs entries
      else addEntries names keyOf key entry bs (entries ++ [entry b segment])
    | none => addEntries names keyOf key entry bs entries

def addServers (names : List (String × String)) (candidates : List McpNameCandidate)
    (state : State) : State :=
  ⟨addEntries names ServerAssignment.key McpNameCandidate.key
    (fun candidate segment => ⟨candidate.key, candidate.name, segment, []⟩) candidates
    state.servers⟩

def assignServers (candidates : List McpNameCandidate) (state : State) :
    Except String (State × McpNameAssignments) := do
  let result ← allocate parseJson candidates
    (state.servers.map fun entry => (entry.key, entry.segment)) .server
    runtimeServerSegmentMaxLength
  return (addServers result.names candidates state, result)

def addTools (names : List (String × String)) (rawNames : List String)
    (tools : List ToolAssignment) : List ToolAssignment :=
  addEntries names ToolAssignment.raw id (fun raw segment => ⟨raw, segment⟩) rawNames tools

/-- The state with the tools of the server of the key, of which there is one. -/
def State.setTools (state : State) (key : String) (tools : List ToolAssignment) : State :=
  ⟨state.servers.map fun entry => if entry.key = key then { entry with tools } else entry⟩

/-- The public name of a tool. -/
def publicName (server tool : String) : String := "mcp__" ++ server ++ "__" ++ tool

def assignTools (serverKey : String) (rawNames : List String) (state : State) :
    Except String (State × McpNameAssignments) :=
  match state.servers.find? (·.key = serverKey) with
  | none => .error "MCP server name has not been allocated"
  | some server => do
    let result ← allocate parseJson (rawNames.map fun name => ⟨name, name⟩)
      (server.tools.map fun entry => (entry.raw, entry.segment)) .tool
      (runtimeToolNameMaxLength - 7 - server.segment.length)
    return (state.setTools serverKey (addTools result.names rawNames server.tools),
      { result with names := result.names.map fun name =>
          (name.1, publicName server.segment name.2) })

end

/-- Whether `parseState` accepts the entries that follow those of the keys and the segments. -/
def checkTools (server : ServerAssignment) (raws segments : List String) :
    List ToolAssignment → Bool
  | [] => true
  | tool :: tools =>
    validSegment tool.segment &&
      tool.segment.length + server.segment.length + 7 ≤ runtimeToolNameMaxLength &&
      !raws.contains tool.raw && !segments.contains tool.segment &&
      checkTools server (tool.raw :: raws) (tool.segment :: segments) tools

def checkServers (keys segments : List String) : List ServerAssignment → Except String Unit
  | [] => .ok ()
  | entry :: entries =>
    if validSegment entry.segment && entry.segment.length ≤ runtimeServerSegmentMaxLength &&
        !keys.contains entry.key && !segments.contains entry.segment then
      if checkTools entry [] [] entry.tools then
        checkServers (entry.key :: keys) (entry.segment :: segments) entries
      else .error "Invalid MCP tool assignment"
    else .error "Invalid MCP server assignment"

/-- `parseState`, of a text that parses to entries with the fields of a state. -/
def parseState (state : State) : Except String State := do
  checkServers [] [] state.servers
  return state

/-- The state of the file, which may not be there yet. -/
def readState : Option State → Except String State
  | some state => parseState state
  | none => .ok {}

/-- How far a transaction comes: the lock may be held, and the new file may fail to be written. -/
inductive Fate
  | completes
  | isLocked
  | writeFails
  deriving DecidableEq

/-- `transaction`: the answer, and what the file holds then. -/
def transaction {α : Type} (file : Option State) (fate : Fate)
    (run : State → Except String (State × α)) : Option State × Except String α :=
  if fate = .isLocked then (file, .error "ELOCKED")
  else
    match readState file with
    | .error message => (file, .error message)
    | .ok before =>
      match run before with
      | .error message => (file, .error message)
      | .ok (after, result) =>
        if before = after then (file, .ok result)
        else if fate = .writeFails then (file, .error "EIO")
        else (some after, .ok result)

/-- A call of any registry of the file. -/
inductive RegistryCall
  | assignServers (candidates : List McpNameCandidate)
  | assignTools (serverKey : String) (rawNames : List String)
  deriving DecidableEq

structure RegistryEvent where
  call : RegistryCall
  fate : Fate
  deriving DecidableEq

def RegistryCall.run (parseJson : String → Option JsValue) :
    RegistryCall → State → Except String (State × McpNameAssignments)
  | assignServers candidates, state => Mcp.assignServers parseJson candidates state
  | assignTools serverKey rawNames, state => Mcp.assignTools parseJson serverKey rawNames state

/-- The registries that share a file. -/
def registryMachine (parseJson : String → Option JsValue) :
    Machine (Option State) RegistryEvent (Except String McpNameAssignments) where
  initial := none
  step file e := transaction file e.fate (e.call.run parseJson)

end Kinetick.Mcp

/-!
## What the registry promises

A name has an owner: the key of a server, or a raw tool of one. In a run of the registries that
share a file, an owner that was given a name is given it again and never another, no two owners are
given one name, and what is written is read back.
-/

namespace Kinetick.Mcp

inductive NameOwner
  | server (key : String)
  | tool (serverKey raw : String)
  deriving DecidableEq

namespace RegistryCall

/-- Who asks under the key. -/
def owner (call : RegistryCall) (key : String) : NameOwner :=
  match call with
  | assignServers _ => .server key
  | assignTools serverKey _ => .tool serverKey key

def owners : RegistryCall → List NameOwner
  | assignServers candidates => candidates.map fun candidate => .server candidate.key
  | assignTools serverKey rawNames => rawNames.map (.tool serverKey)

/-- The names a call gave. -/
def given (call : RegistryCall) (r : McpNameAssignments) : List (NameOwner × String) :=
  r.names.map fun name => (call.owner name.1, name.2)

/-- Those that were given an error. -/
def refused (call : RegistryCall) (r : McpNameAssignments) : List NameOwner :=
  r.errors.map fun error => call.owner error.1

end RegistryCall

/-- The name of a server is a segment of at most 48 characters; a public name is at most 80
characters, letters, digits, underscores and hyphens, and has the segments of a server and of a
tool. -/
def NameOwner.Shaped (x : NameOwner) (name : String) : Prop :=
  match x with
  | .server _ => validSegment name = true ∧ name.length ≤ runtimeServerSegmentMaxLength
  | .tool _ _ => ∃ server tool, validSegment server = true ∧ validSegment tool = true ∧
      name = publicName server tool ∧ name.length ≤ runtimeToolNameMaxLength ∧
      ∀ c ∈ name.toList, isAlphanumeric c = true ∨ c = '_' ∨ c = '-'

/-- The server a call asks about is in the state. -/
def RegistryCall.Knows (call : RegistryCall) (state : State) : Prop :=
  match call with
  | assignServers _ => True
  | assignTools serverKey _ => ∃ entry ∈ state.servers, entry.key = serverKey

section

variable (parseJson : String → Option JsValue)

/-- The calls of a run with their answers. -/
def calls (file : Option State) (es : List RegistryEvent) :
    List (RegistryEvent × Except String McpNameAssignments) :=
  es.zip ((registryMachine parseJson).answers file es)

/-- The file after so many calls. -/
def fileAt (file : Option State) (es : List RegistryEvent) (i : ℕ) : Option State :=
  (registryMachine parseJson).after file (es.take i)

/-- What holds of the names of a run. -/
structure NamesLawful (file : Option State) (es : List RegistryEvent) : Prop where
  /-- Once given, a name is kept for ever. -/
  kept : ∀ (i j : ℕ) e e' r r', (calls parseJson file es)[i]? = some (e, .ok r) →
    (calls parseJson file es)[j]? = some (e', .ok r') → i ≤ j →
    ∀ x n, (x, n) ∈ e.call.given r → x ∈ e'.call.owners → ∀ n', (x, n') ∈ e'.call.given r' ↔ n' = n
  /-- No two owners share a name. -/
  distinct : ∀ (i j : ℕ) e e' r r', (calls parseJson file es)[i]? = some (e, .ok r) →
    (calls parseJson file es)[j]? = some (e', .ok r') →
    ∀ x x' n, (x, n) ∈ e.call.given r → (x', n) ∈ e'.call.given r' → x = x'
  shaped : ∀ (i : ℕ) e r, (calls parseJson file es)[i]? = some (e, .ok r) →
    ∀ x n, (x, n) ∈ e.call.given r → x.Shaped n
  /-- Who asks is given a name or an error, and not both. -/
  answered : ∀ (i : ℕ) e r, (calls parseJson file es)[i]? = some (e, .ok r) →
    ∀ x ∈ e.call.owners, Xor (∃ n, (x, n) ∈ e.call.given r) (x ∈ e.call.refused r)
  /-- A call that is not locked out and can write returns, unless the file is no registry or the
  server is not known. -/
  returns : ∀ (i : ℕ) e message, (calls parseJson file es)[i]? = some (e, .error message) →
    e.fate = .completes → ∀ state, readState (fileAt parseJson file es i) = .ok state →
      ¬e.call.Knows state
  /-- What was written is read back. -/
  readBack : ∀ i, fileAt parseJson file es i = file ∨
    ∃ state, fileAt parseJson file es i = some state ∧ parseState state = .ok state

/-- The order of the candidates does not matter, on a fresh registry and on any other, provided no
two of one key have different names. -/
structure OrderFree : Prop where
  servers : ∀ (state : State) candidates candidates', candidates.Perm candidates' →
    (∀ c ∈ candidates, ∀ c' ∈ candidates, c.key = c'.key → c.name = c'.name) →
    (assignServers parseJson candidates state).map Prod.snd =
      (assignServers parseJson candidates' state).map Prod.snd
  tools : ∀ (state : State) serverKey rawNames rawNames', rawNames.Perm rawNames' →
    (assignTools parseJson serverKey rawNames state).map Prod.snd =
      (assignTools parseJson serverKey rawNames' state).map Prod.snd

end

end Kinetick.Mcp
