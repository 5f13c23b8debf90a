import Kinetick.File.Jsonl
import Kinetick.History.Sequence

/-!
# Envelopes of a canonical history

A record of a history is an envelope around a message. Decoding checks what is read from a file and
keeps the known fields. Its canonical text is JSON with the names of every object sorted.
-/

namespace Kinetick

namespace HistoryEnvelope

open HistorySequence (isPlainRecord nonEmptyString isFiniteNumber isNumber isRevision)

def invalidEnvelope {α : Type} (reason : String) : Except String α :=
  .error s!"Canonical history envelope is invalid: {reason}"

/-! ## Checks -/

def requirePlainRecord (value : JsValue) (context : String) :
    Except String (List (String × JsValue)) :=
  match value with
  | .object fields => .ok fields
  | _ => invalidEnvelope s!"{context} must be a plain object"

def requireNonEmptyString (value : JsValue) (context : String) : Except String String :=
  match nonEmptyString value with
  | none => invalidEnvelope s!"{context} must be a non-empty string"
  | some text => .ok text

/-- A name that is empty is not found. -/
def assertExactKeys (fields : List (String × JsValue)) (allowed required : List String)
    (context : String) : Except String Unit :=
  let extra := ((fields.map (·.1)).find? (· ∉ allowed)).getD ""
  let missing := (required.find? fun key => !fields.any (·.1 = key)).getD ""
  if extra ≠ "" then invalidEnvelope s!"{context} contains unsupported key {extra}"
  else if missing ≠ "" then invalidEnvelope s!"{context} is missing {missing}"
  else .ok ()

/-- The other file of checks has a text of its own. -/
def incompatible (reason : String) : Except String Unit :=
  .error s!"Invalid canonical history envelope: {reason}"

mutual

def assertJsonCompatible (value : JsValue) (path : String) : Except String Unit :=
  match value with
  | .null => .ok ()
  | .string _ => .ok ()
  | .boolean _ => .ok ()
  | .number n =>
    if n.isFinite then .ok () else incompatible s!"{path} contains a non-finite number"
  | .undefined => incompatible s!"{path} contains a non-JSON value"
  | .array elements => assertJsonCompatibleArray elements path 0
  | .object fields => assertJsonCompatibleObject fields path

def assertJsonCompatibleArray (elements : List JsValue) (path : String) (index : ℕ) :
    Except String Unit :=
  match elements with
  | [] => .ok ()
  | value :: elements => do
    assertJsonCompatible value s!"{path}[{index}]"
    assertJsonCompatibleArray elements path (index + 1)

def assertJsonCompatibleObject (fields : List (String × JsValue)) (path : String) :
    Except String Unit :=
  match fields with
  | [] => .ok ()
  | (key, value) :: fields => do
    assertJsonCompatible value s!"{path}.{key}"
    assertJsonCompatibleObject fields path

end

/-! ## Messages -/

def decodeMinimalCompactionSummary (message : AgentMessage) : Except String AgentMessage :=
  if message.fields.any fun field => field.1 ≠ "role" && field.1 ≠ "summary" then
    invalidEnvelope "minimal message.compactionSummary must contain only role and summary"
  else .ok { fields :=
    [("role", .string "compactionSummary"), ("summary", message.get "summary")] }

/-- What is set anew in the message it has already. -/
def decodeFullCompactionSummary (message : AgentMessage) (hasTokens hasTimestamp : Bool) :
    Except String AgentMessage :=
  if hasTokens ≠ hasTimestamp ||
      (HistorySequence.safeInteger (message.get "tokensBefore") 0).isNone then
    invalidEnvelope
      "message.compactionSummary.tokensBefore must be a non-negative safe integer"
  else if !isFiniteNumber (message.get "timestamp") then
    invalidEnvelope "message.compactionSummary.timestamp must be finite"
  else .ok message

def isString : JsValue → Bool
  | .string _ => true
  | _ => false

def decodeCompactionSummary (message : AgentMessage) : Except String AgentMessage :=
  if !isString (message.get "summary") then
    invalidEnvelope "message.compactionSummary.summary must be a string"
  else
    let hasTokens := message.hasOwn "tokensBefore"
    let hasTimestamp := message.hasOwn "timestamp"
    if !hasTokens && !hasTimestamp then decodeMinimalCompactionSummary message
    else decodeFullCompactionSummary message hasTokens hasTimestamp

def decodeMessage (value : JsValue) : Except String AgentMessage := do
  let fields ← requirePlainRecord value "message"
  let message : AgentMessage := { fields }
  let role ← requireNonEmptyString (message.get "role") "message.role"
  if role = "compactionSummary" then decodeCompactionSummary message
  else if !isFiniteNumber (message.get "timestamp") then
    invalidEnvelope "message.timestamp must be finite"
  else return message

/-! ## Configurations of turns -/

section TurnConfig

variable (isSensitiveKey : String → Bool)

def credentialKeyError (path key : String) : Except String Unit :=
  .error ("Canonical history envelope contains an unsanitized credential key: " ++ path ++ "." ++
    key)

mutual

def assertNoCredentialKeys (value : JsValue) (path : String) : Except String Unit :=
  match value with
  | .array elements => assertNoCredentialElements elements path 0
  | .object fields => assertNoCredentialFields fields path
  | _ => .ok ()

def assertNoCredentialElements (elements : List JsValue) (path : String) (index : ℕ) :
    Except String Unit :=
  match elements with
  | [] => .ok ()
  | value :: elements => do
    assertNoCredentialKeys value s!"{path}[{index}]"
    assertNoCredentialElements elements path (index + 1)

def assertNoCredentialFields (fields : List (String × JsValue)) (path : String) :
    Except String Unit :=
  match fields with
  | [] => .ok ()
  | (key, value) :: fields =>
    if isSensitiveKey key then credentialKeyError path key
    else do
      assertNoCredentialKeys value s!"{path}.{key}"
      assertNoCredentialFields fields path

end

def decodeTurnConfigTool (value : JsValue) (index : ℕ) : Except String JsValue := do
  let fields ← requirePlainRecord value s!"turn_config.tools[{index}]"
  assertExactKeys fields ["tool_name", "description", "schema"]
    ["tool_name", "description", "schema"] s!"turn_config.tools[{index}]"
  let toolName ← requireNonEmptyString (value.get "tool_name")
    s!"turn_config.tools[{index}].tool_name"
  if !isString (value.get "description") then
    invalidEnvelope s!"turn_config.tools[{index}].description must be a string"
  else
    let schema ← requirePlainRecord (value.get "schema") s!"turn_config.tools[{index}].schema"
    return .object [("tool_name", .string toolName), ("description", value.get "description"),
      ("schema", .object schema)]

def decodeTurnConfigTools : (index : ℕ) → List JsValue → Except String (List JsValue)
  | _, [] => .ok []
  | index, tool :: tools => do
    let decoded ← decodeTurnConfigTool tool index
    let rest ← decodeTurnConfigTools (index + 1) tools
    return decoded :: rest

def decodeOptionalTools (value : JsValue) : Except String (Option (List JsValue)) :=
  match value with
  | .undefined => .ok none
  | .array tools => (decodeTurnConfigTools 0 tools).map some
  | _ => invalidEnvelope "turn_config.tools must be an array"

/-- `decodeTurnConfig` where credentials are rejected. -/
def decodeTurnConfig (value : JsValue) : Except String JsValue := do
  let fields ← requirePlainRecord value "turn_config"
  assertExactKeys fields ["system_prompt", "model", "tools"] ["system_prompt", "model"]
    "turn_config"
  if !isString (value.get "system_prompt") then
    invalidEnvelope "turn_config.system_prompt must be a string"
  else
    let model ← requirePlainRecord (value.get "model") "turn_config.model"
    assertNoCredentialKeys isSensitiveKey (.object model) "turn_config.model"
    let tools ← decodeOptionalTools (value.get "tools")
    assertJsonCompatible value "turn_config"
    return .object ([("system_prompt", value.get "system_prompt"), ("model", .object model)] ++
      (tools.map fun tools => ("tools", .array tools)).toList)

def decodeOptionalTurnConfig (message : AgentMessage) (value : JsValue) :
    Except String (Option JsValue) :=
  if value.isUndefined then .ok none
  else if !message.hasRole "user" then
    invalidEnvelope "turn_config is allowed only on user messages"
  else (decodeTurnConfig isSensitiveKey value).map some

end TurnConfig

/-! ## Artifacts -/

def invalidArtifact {α : Type} : Except String α :=
  invalidEnvelope "history_artifact is malformed"

def requireGeneration (value : JsValue) (minimum : ℤ) : Except String ℕ :=
  match HistorySequence.safeInteger value minimum with
  | none => invalidArtifact
  | some generation => .ok generation.toNat

def producerText : HistoryProducer → String
  | .toolArchive => "tool_archive"
  | .toolTrim => "tool_trim"
  | .llmCheckpoint => "llm_checkpoint"

def requireProducer (value : JsValue) : Except String HistoryProducer :=
  if value.isText "tool_archive" then .ok .toolArchive
  else if value.isText "tool_trim" then .ok .toolTrim
  else if value.isText "llm_checkpoint" then .ok .llmCheckpoint
  else invalidArtifact

def isAsciiLetterOrDigit (c : Char) : Bool :=
  ('A' ≤ c && c ≤ 'Z') || ('a' ≤ c && c ≤ 'z') || ('0' ≤ c && c ≤ '9')

/-- `/^[A-Za-z0-9][A-Za-z0-9._-]*$/u` -/
def isCompactionId (text : String) : Bool :=
  match text.toList with
  | [] => false
  | c :: rest => isAsciiLetterOrDigit c &&
    rest.all fun c => isAsciiLetterOrDigit c || c = '.' || c = '_' || c = '-'

def requireText (accepts : String → Bool) (value : JsValue) : Except String String :=
  match value with
  | .string text => if accepts text then .ok text else invalidArtifact
  | _ => invalidArtifact

def requireCompactionId (value : JsValue) : Except String String := requireText isCompactionId value

def requireRevision (value : JsValue) : Except String String := requireText isRevision value

def decodeCanonicalHistoryArtifact (value : JsValue) :
    Except String CanonicalHistoryArtifact := do
  let fields ← requirePlainRecord value "history_artifact"
  assertExactKeys fields ["schemaVersion", "generation", "producedBy", "parentSnapshot"]
    ["schemaVersion", "generation", "producedBy", "parentSnapshot"] "history_artifact"
  if !isNumber (value.get "schemaVersion") 1 then invalidArtifact
  else
    let generation ← requireGeneration (value.get "generation") 1
    let producedBy ← requireProducer (value.get "producedBy")
    let parent := value.get "parentSnapshot"
    let parentFields ← requirePlainRecord parent "history_artifact.parentSnapshot"
    assertExactKeys parentFields ["generation", "compactionId", "revision"]
      ["generation", "compactionId", "revision"] "history_artifact.parentSnapshot"
    let parentGeneration ← requireGeneration (parent.get "generation") 0
    if parentGeneration + 1 ≠ generation then invalidArtifact
    else
      let compactionId ← requireCompactionId (parent.get "compactionId")
      let revision ← requireRevision (parent.get "revision")
      return {
        generation
        producedBy
        parentSnapshot := { generation := parentGeneration, compactionId, revision } }

def decodeOptionalArtifact (value : JsValue) :
    Except String (Option CanonicalHistoryArtifact) :=
  if value.isUndefined then .ok none else (decodeCanonicalHistoryArtifact value).map some

/-! ## Envelopes -/

/-- What `.` stands for. -/
def isNoLineEnd (c : Char) : Bool :=
  c ≠ '\n' && c ≠ '\r' && c ≠ Char.ofNat 8232 && c ≠ Char.ofNat 8233

/-- `/^(?:msg-.+|\d+)$/u` -/
def isMessageId (text : String) : Bool :=
  (text.toList.take 4 = "msg-".toList && 4 < text.toList.length &&
    (text.toList.drop 4).all isNoLineEnd) ||
  (text.toList ≠ [] && text.toList.all fun c => '0' ≤ c && c ≤ '9')

def decodeMessageId (value : JsValue) : Except String String :=
  match value with
  | .string text =>
    if isMessageId text then .ok text
    else invalidEnvelope "message_id must match msg-.+ or contain only digits"
  | _ => invalidEnvelope "message_id must match msg-.+ or contain only digits"

def decodeCanonicalHistoryEnvelope (isSensitiveKey : String → Bool) (value : JsValue) :
    Except String CanonicalHistoryEnvelope := do
  let fields ← requirePlainRecord value "envelope"
  assertExactKeys fields ["message_id", "turn_id", "message", "turn_config", "history_artifact"]
    ["message_id", "turn_id", "message"] "envelope"
  assertJsonCompatible value "envelope"
  let messageId ← decodeMessageId (value.get "message_id")
  let turnId ← requireNonEmptyString (value.get "turn_id") "turn_id"
  let message ← decodeMessage (value.get "message")
  let turnConfig ← decodeOptionalTurnConfig isSensitiveKey message (value.get "turn_config")
  let historyArtifact ← decodeOptionalArtifact (value.get "history_artifact")
  return { messageId, turnId, message, turnConfig, historyArtifact }

/-! ## Canonical text -/

def numberJson (n : ℕ) : JsValue := .number (.finite n)

def artifactJson (artifact : CanonicalHistoryArtifact) : JsValue :=
  .object [("schemaVersion", numberJson 1), ("generation", numberJson artifact.generation),
    ("producedBy", .string (producerText artifact.producedBy)),
    ("parentSnapshot", .object [
      ("generation", numberJson artifact.parentSnapshot.generation),
      ("compactionId", .string artifact.parentSnapshot.compactionId),
      ("revision", .string artifact.parentSnapshot.revision)])]

/-- The envelope as the object it is. -/
def envelopeJson (envelope : CanonicalHistoryEnvelope) : JsValue :=
  .object ([("message_id", .string envelope.messageId), ("turn_id", .string envelope.turnId),
      ("message", .object envelope.message.fields)] ++
    (envelope.turnConfig.map fun config => ("turn_config", config)).toList ++
    (envelope.historyArtifact.map fun artifact =>
      ("history_artifact", artifactJson artifact)).toList)

/-- The UTF-16 code units of a text. -/
def codeUnits (text : String) : List ℕ :=
  text.toList.flatMap fun c =>
    if c.toNat < 65536 then [c.toNat]
    else [55296 + (c.toNat - 65536) / 1024, 56320 + (c.toNat - 65536) % 1024]

def unitsLe : List ℕ → List ℕ → Bool
  | [], _ => true
  | _ :: _, [] => false
  | a :: as, b :: bs => a < b || (a = b && unitsLe as bs)

/-- The name as an index of an array. -/
def arrayIndex (key : String) : Option ℕ :=
  key.toNat?.filter fun n => toString n = key && n < 4294967295

/-- The order of the names of an object whose names were set in sorted order: indexes first. -/
def keyLe (a b : String) : Bool :=
  match arrayIndex a, arrayIndex b with
  | some n, some m => n ≤ m
  | some _, none => true
  | none, some _ => false
  | none, none => unitsLe (codeUnits a) (codeUnits b)

mutual

def sortJsonValue : JsValue → JsValue
  | .array elements => .array (sortElements elements)
  | .object fields => .object ((sortFields fields).mergeSort fun a b => keyLe a.1 b.1)
  | value => value

def sortElements : List JsValue → List JsValue
  | [] => []
  | value :: elements => sortJsonValue value :: sortElements elements

def sortFields : List (String × JsValue) → List (String × JsValue)
  | [] => []
  | (key, value) :: fields => (key, sortJsonValue value) :: sortFields fields

end

/-- `canonicalJson(envelope)`: an object has a JSON text. -/
def canonicalJson (format : Jsonl.NumberFormat) (envelope : CanonicalHistoryEnvelope) :
    List Char :=
  (Jsonl.stringify format (sortJsonValue (envelopeJson envelope))).getD []

end HistoryEnvelope

end Kinetick
