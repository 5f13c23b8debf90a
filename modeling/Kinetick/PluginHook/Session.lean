import Kinetick.Js
import Kinetick.Machine
import Kinetick.Sql
import Kinetick.Turn.Schema

/-!
# Who ends a session of plugin hooks

A turn may own the hooks of its session: its ownership is prepared, then activated, and the activated
owner of the latest turn may claim the end of the session and complete it. All of it is one member of
the turn's metadata, which every operation reads through validators and writes as a whole.
-/

namespace Kinetick

namespace PluginHook

/-! ## The member -/

inductive PluginHookSessionEndReason
  | archive
  | clear
  | logout
  | resumeOther
  | idleTimeout
  deriving DecidableEq

def PluginHookSessionEndReason.text : PluginHookSessionEndReason → String
  | .archive => "archive"
  | .clear => "clear"
  | .logout => "logout"
  | .resumeOther => "resume_other"
  | .idleTimeout => "idle_timeout"

/-- The phase, and when it was activated. -/
inductive Phase
  | prepared
  | activated (activatedAtMs : JsNumber)
  deriving DecidableEq

structure Ownership where
  claimId : String
  turnId : String
  claimedAtMs : JsNumber
  phase : Phase
  deriving DecidableEq

structure SessionEnd where
  claimId : String
  reason : PluginHookSessionEndReason
  claimedAtMs : JsNumber
  completedAtMs : Option JsNumber
  deriving DecidableEq

structure PluginHookSessionMetadata where
  ownership : Ownership
  sessionEnd : Option SessionEnd
  deriving DecidableEq

def Ownership.toJs (o : Ownership) : JsValue :=
  .object ([("claimId", .string o.claimId), ("turnId", .string o.turnId),
    ("claimedAtMs", .number o.claimedAtMs)] ++
    match o.phase with
    | .prepared => [("phase", .string "prepared")]
    | .activated activatedAtMs =>
      [("phase", .string "activated"), ("activatedAtMs", .number activatedAtMs)])

def SessionEnd.toJs (e : SessionEnd) : JsValue :=
  .object ([("claimId", .string e.claimId), ("reason", .string e.reason.text),
    ("claimedAtMs", .number e.claimedAtMs)] ++
    (e.completedAtMs.map fun completedAtMs => ("completedAtMs", .number completedAtMs)).toList)

def PluginHookSessionMetadata.toJs (h : PluginHookSessionMetadata) : JsValue :=
  .object (("ownership", h.ownership.toJs) ::
    (h.sessionEnd.map fun e => ("sessionEnd", e.toJs)).toList)

/-! ## Its validators -/

def isPlainRecord : JsValue → Bool
  | .object _ => true
  | _ => false

def isBoundedText (text : String) : Bool :=
  0 < (CodeUnits.ofText text).length && (CodeUnits.ofText text).length ≤ 512

def isBoundedString : JsValue → Option String
  | .string text => if isBoundedText text then some text else none
  | _ => none

def isTimestamp : JsNumber → Bool
  | .finite q => 0 ≤ q
  | _ => false

def isFiniteTimestamp : JsValue → Option JsNumber
  | .number n => if isTimestamp n then some n else none
  | _ => none

def parsePluginHookSessionOwnershipPhase (value activatedAtMs : JsValue) : Option Phase :=
  if value.isText "prepared" then if activatedAtMs.isUndefined then some .prepared else none
  else if !value.isText "activated" then none
  else (isFiniteTimestamp activatedAtMs).map .activated

def parsePluginHookSessionOwnership (value : JsValue) (rowTurnId : String) : Option Ownership :=
  if !isPlainRecord value then none
  else do
    let claimId ← isBoundedString (value.get "claimId")
    if !(value.get "turnId").isText rowTurnId then none
    else
      let claimedAtMs ← isFiniteTimestamp (value.get "claimedAtMs")
      let phase ← parsePluginHookSessionOwnershipPhase (value.get "phase")
        (value.get "activatedAtMs")
      return { claimId, turnId := rowTurnId, claimedAtMs, phase }

def isPluginHookSessionEndReason (value : JsValue) : Option PluginHookSessionEndReason :=
  [.archive, .clear, .logout, .resumeOther, .idleTimeout].find? fun reason =>
    value.isText (PluginHookSessionEndReason.text reason)

/-- A time that need not be there. -/
def parseOptionalTimestamp (value : JsValue) : Option (Option JsNumber) :=
  if value.isUndefined then some none else (isFiniteTimestamp value).map some

def parsePluginHookSessionEnd (value : JsValue) : Option SessionEnd :=
  if !isPlainRecord value then none
  else do
    let claimId ← isBoundedString (value.get "claimId")
    let reason ← isPluginHookSessionEndReason (value.get "reason")
    let claimedAtMs ← isFiniteTimestamp (value.get "claimedAtMs")
    let completedAtMs ← parseOptionalTimestamp (value.get "completedAtMs")
    return { claimId, reason, claimedAtMs, completedAtMs }

/-- None if it is not valid. -/
def parseOptionalPluginHookSessionEnd (value : JsValue) : Option (Option SessionEnd) :=
  if value.isUndefined then some none else (parsePluginHookSessionEnd value).map some

def parsePluginHookSessionMetadata (value : JsValue) (rowTurnId : String) :
    Option PluginHookSessionMetadata :=
  if !isPlainRecord value then none
  else do
    let ownership ← parsePluginHookSessionOwnership (value.get "ownership") rowTurnId
    let sessionEnd ← parseOptionalPluginHookSessionEnd (value.get "sessionEnd")
    return { ownership, sessionEnd }

/-- `{}` for what is no object. -/
def parseInputMetadata (text : JsonText) : JsValue :=
  match text.parse with
  | .object fields => .object fields
  | _ => .object []

/-! ## Turns -/

/-- The columns of an ingress row that the hooks read. -/
structure TurnRow where
  turnId : String
  sessionId : String
  busyReason : StoredBusyReason
  acceptedSequence : ℕ
  inputMetadataJson : JsonText

def TurnRow.metadata (row : TurnRow) : JsValue := parseInputMetadata row.inputMetadataJson

/-- The member of the row, if it is valid. -/
def TurnRow.hookSession (row : TurnRow) : Option PluginHookSessionMetadata :=
  parsePluginHookSessionMetadata (row.metadata.get "pluginHookSession") row.turnId

abbrev TurnRows :=
  Table ((Constraint.unique fun row : TurnRow => some row.turnId).and <|
    .unique fun row => some row.acceptedSequence)

/-- `JSON.stringify({ ...metadata, pluginHookSession })` -/
def withHookSession (metadata : JsValue) (hookSession : PluginHookSessionMetadata) : JsonText :=
  ⟨metadata.set "pluginHookSession" hookSession.toJs⟩

/-- `UPDATE turn_ingress SET input_metadata_json WHERE p` -/
def setMetadata (db : TurnRows) (p : TurnRow → Bool) (inputMetadataJson : JsonText) : TurnRows :=
  db.update p (fun row => { row with inputMetadataJson }) <|
    Constraint.and_fixes (Constraint.unique_fixes fun _ => rfl)
      (Constraint.unique_fixes fun _ => rfl)

def findTurn (db : TurnRows) (sessionId turnId : String) : Option TurnRow :=
  db.rows.find? fun row => row.sessionId = sessionId && row.turnId = turnId

def preparePluginHookSessionOwnership (db : TurnRows) (sessionId turnId ownershipClaimId : String)
    (claimedAtMs : JsNumber) : TurnRows × Except String Unit :=
  match (findTurn db sessionId turnId).filter (·.busyReason = .turn) with
  | none => (db, .error s!"Cannot claim Plugin Hook ownership for Turn: {turnId}")
  | some row =>
    match parsePluginHookSessionMetadata (row.metadata.get "pluginHookSession") turnId with
    | some existing =>
      if existing.ownership.claimId ≠ ownershipClaimId then
        (db, .error s!"Plugin Hook ownership already prepared for Turn: {turnId}")
      else (db, .ok ())
    | none =>
      let hookSession : PluginHookSessionMetadata := {
        ownership := { claimId := ownershipClaimId, turnId, claimedAtMs, phase := .prepared }
        sessionEnd := none }
      (setMetadata db (fun row => row.sessionId = sessionId && row.turnId = turnId)
        (withHookSession row.metadata hookSession), .ok ())

def Phase.isActivated : Phase → Bool
  | .prepared => false
  | .activated _ => true

def activatePluginHookSessionOwnership (db : TurnRows)
    (sessionId turnId ownershipClaimId : String) (activatedAtMs : JsNumber) :
    TurnRows × Except String Unit :=
  let row := findTurn db sessionId turnId
  let metadata := parseInputMetadata ((row.map (·.inputMetadataJson)).getD ⟨.object []⟩)
  match parsePluginHookSessionMetadata (metadata.get "pluginHookSession") turnId with
  | none => (db, .error s!"Cannot activate Plugin Hook ownership for Turn: {turnId}")
  | some hookSession =>
    if hookSession.ownership.claimId ≠ ownershipClaimId then
      (db, .error s!"Cannot activate Plugin Hook ownership for Turn: {turnId}")
    else if hookSession.ownership.phase.isActivated then (db, .ok ())
    else
      let ownership := { hookSession.ownership with phase := .activated activatedAtMs }
      (setMetadata db (fun row => row.sessionId = sessionId && row.turnId = turnId)
        (withHookSession metadata { hookSession with ownership }), .ok ())

/-- An activated owner of its session, with the row's metadata. -/
structure Owner where
  turnId : String
  metadata : JsValue
  hookSession : PluginHookSessionMetadata

/-- The owner that a row has, of the claim if one is asked for. -/
def TurnRow.owner (ownershipClaimId : Option String) (row : TurnRow) : Option Owner := do
  let hookSession ← row.hookSession
  if !hookSession.ownership.phase.isActivated then none
  else if ownershipClaimId.getD "" ≠ "" && some hookSession.ownership.claimId ≠ ownershipClaimId then
    none
  else some { turnId := row.turnId, metadata := row.metadata, hookSession }

/-- The turns of a session, the latest first. -/
def turnsOf (db : TurnRows) (sessionId : String) : List TurnRow :=
  Sql.orderBy [true] (fun row => [.integer row.acceptedSequence])
    (db.rows.filter fun row => row.sessionId = sessionId && row.busyReason = .turn)

def findPluginHookSessionOwner (db : TurnRows) (sessionId : String)
    (ownershipClaimId : Option String) : Option Owner :=
  (turnsOf db sessionId).findSome? (TurnRow.owner ownershipClaimId)

inductive ClaimStatus
  | claimed
  | superseded
  | alreadyClaimed
  deriving DecidableEq

def tryClaimPluginHookSessionEnd (db : TurnRows)
    (sessionId ownershipClaimId sessionEndClaimId : String) (reason : PluginHookSessionEndReason)
    (claimedAtMs : JsNumber) : TurnRows × ClaimStatus :=
  match findPluginHookSessionOwner db sessionId none with
  | none => (db, .superseded)
  | some latest =>
    if latest.hookSession.ownership.claimId ≠ ownershipClaimId then (db, .superseded)
    else if latest.hookSession.sessionEnd.isSome then (db, .alreadyClaimed)
    else
      let sessionEnd : SessionEnd :=
        { claimId := sessionEndClaimId, reason, claimedAtMs, completedAtMs := none }
      (setMetadata db (·.turnId = latest.turnId)
        (withHookSession latest.metadata
          { latest.hookSession with sessionEnd := some sessionEnd }), .claimed)

def completePluginHookSessionEnd (db : TurnRows)
    (sessionId ownershipClaimId sessionEndClaimId : String) (completedAtMs : JsNumber) :
    TurnRows × Bool :=
  match findPluginHookSessionOwner db sessionId (some ownershipClaimId) with
  | none => (db, false)
  | some owned =>
    match owned.hookSession.sessionEnd with
    | none => (db, false)
    | some sessionEnd =>
      if sessionEnd.claimId ≠ sessionEndClaimId then (db, false)
      else
        let sessionEnd := { sessionEnd with completedAtMs := some completedAtMs }
        (setMetadata db (·.turnId = owned.turnId)
          (withHookSession owned.metadata
            { owned.hookSession with sessionEnd := some sessionEnd }), true)

/-! ## Runs -/

inductive Call
  | admitTurn (sessionId turnId : String) (busyReason : StoredBusyReason) (acceptedSequence : ℕ)
    (inputMetadata : JsValue)
  | prepare (sessionId turnId ownershipClaimId : String)
  | activate (sessionId turnId ownershipClaimId : String)
  | tryClaim (sessionId ownershipClaimId sessionEndClaimId : String)
    (reason : PluginHookSessionEndReason)
  | complete (sessionId ownershipClaimId sessionEndClaimId : String)

structure Timed where
  now : JsNumber
  call : Call

inductive Answer
  | admitted (accepted : Bool)
  | done (result : Except String Unit)
  | claim (status : ClaimStatus)
  | completed (result : Bool)

def admittedRow (sessionId turnId : String) (busyReason : StoredBusyReason) (acceptedSequence : ℕ)
    (inputMetadata : JsValue) : TurnRow where
  turnId
  sessionId
  busyReason
  acceptedSequence
  inputMetadataJson := ⟨inputMetadata⟩

/-- A turn is admitted with the sequence it is handed, if neither it nor its sequence is taken. -/
def admitTurn (db : TurnRows) (row : TurnRow) : TurnRows × Bool :=
  match db.insert row with
  | none => (db, false)
  | some db => (db, true)

def step (db : TurnRows) (timed : Timed) : TurnRows × Answer :=
  match timed.call with
  | .admitTurn sessionId turnId busyReason acceptedSequence inputMetadata =>
    (admitTurn db (admittedRow sessionId turnId busyReason acceptedSequence inputMetadata)).map id
      .admitted
  | .prepare sessionId turnId ownershipClaimId =>
    (preparePluginHookSessionOwnership db sessionId turnId ownershipClaimId timed.now).map id .done
  | .activate sessionId turnId ownershipClaimId =>
    (activatePluginHookSessionOwnership db sessionId turnId ownershipClaimId timed.now).map id .done
  | .tryClaim sessionId ownershipClaimId sessionEndClaimId reason =>
    (tryClaimPluginHookSessionEnd db sessionId ownershipClaimId sessionEndClaimId reason
      timed.now).map id .claim
  | .complete sessionId ownershipClaimId sessionEndClaimId =>
    (completePluginHookSessionEnd db sessionId ownershipClaimId sessionEndClaimId
      timed.now).map id .completed

def machine : Machine TurnRows Timed Answer where
  initial := .empty _
  step := step

/-! ## What is promised -/

/-- Ids are texts of 1 to 512 code units, clocks show times, and metadata has no member of the hooks
when a turn is admitted. -/
def Timed.Proper (timed : Timed) : Prop :=
  isTimestamp timed.now = true ∧
    match timed.call with
    | .admitTurn _ _ _ _ inputMetadata =>
      isPlainRecord inputMetadata = true ∧ inputMetadata.get "pluginHookSession" = .undefined
    | .prepare _ _ ownershipClaimId => isBoundedText ownershipClaimId = true
    | .activate _ _ _ => True
    | .tryClaim _ _ sessionEndClaimId _ => isBoundedText sessionEndClaimId = true
    | .complete _ ownershipClaimId _ => isBoundedText ownershipClaimId = true

/-- No two turns are prepared under one claim. -/
def ClaimsOfOneTurn (calls : List Timed) : Prop :=
  ∀ timed ∈ calls, ∀ timed' ∈ calls, ∀ sessionId turnId sessionId' turnId' ownershipClaimId,
    timed.call = .prepare sessionId turnId ownershipClaimId →
    timed'.call = .prepare sessionId' turnId' ownershipClaimId → turnId = turnId'

/-- The turn is one of its session that owns the hooks. -/
def OwnsActivated (db : TurnRows) (sessionId : String) (row : TurnRow)
    (hookSession : PluginHookSessionMetadata) : Prop :=
  row ∈ db.rows ∧ row.sessionId = sessionId ∧ row.busyReason = .turn ∧
    row.hookSession = some hookSession ∧ hookSession.ownership.phase.isActivated = true

/-- The owner of the claim is activated. -/
def Activated (db : TurnRows) (sessionId ownershipClaimId : String) : Prop :=
  ∃ row hookSession, OwnsActivated db sessionId row hookSession ∧
    hookSession.ownership.claimId = ownershipClaimId

/-- And so is the owner of a later turn. -/
def Overtaken (db : TurnRows) (sessionId ownershipClaimId : String) : Prop :=
  ∃ row hookSession row' hookSession', OwnsActivated db sessionId row hookSession ∧
    hookSession.ownership.claimId = ownershipClaimId ∧
    OwnsActivated db sessionId row' hookSession' ∧ row.acceptedSequence < row'.acceptedSequence

/-- A call among them claimed the end of the session. -/
def ClaimedIn (calls : List Timed) (sessionId ownershipClaimId sessionEndClaimId : String) : Prop :=
  ∃ before now reason after,
    calls = before ++ ⟨now, .tryClaim sessionId ownershipClaimId sessionEndClaimId reason⟩ :: after ∧
      (step (machine.after machine.initial before)
        ⟨now, .tryClaim sessionId ownershipClaimId sessionEndClaimId reason⟩).2 = .claim .claimed

/-- An end, a completion and an activation are never lost. -/
structure Follows (h h' : PluginHookSessionMetadata) : Prop where
  claimId : h'.ownership.claimId = h.ownership.claimId
  activated : h.ownership.phase.isActivated = true → h'.ownership = h.ownership
  sessionEnd : ∀ e, h.sessionEnd = some e → ∃ e', h'.sessionEnd = some e' ∧
    e'.claimId = e.claimId ∧ e'.reason = e.reason ∧ e'.claimedAtMs = e.claimedAtMs ∧
    (e.completedAtMs.isSome = true → e'.completedAtMs.isSome = true)

/-- The row is still there, with all other members of its metadata. -/
structure Keeps (row row' : TurnRow) : Prop where
  turnId : row'.turnId = row.turnId
  sessionId : row'.sessionId = row.sessionId
  busyReason : row'.busyReason = row.busyReason
  acceptedSequence : row'.acceptedSequence = row.acceptedSequence
  members : ∀ key, key ≠ "pluginHookSession" → row'.metadata.get key = row.metadata.get key
  hookSession : ∀ h, row.hookSession = some h → ∃ h', row'.hookSession = some h' ∧ Follows h h'

end PluginHook

end Kinetick
