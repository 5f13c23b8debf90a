import Kinetick.Permission.Types

/-!
# The permission rules that are stored

`rule-codec.ts`: a rule is read from an update, from a text of the first version of the file or from
an object of the second, and written as either. A path rule says for which actions it is; one that
was read from a text, or from an update without a matcher, says none.
-/

namespace Kinetick.Permission

abbrev LocalPermissionBehavior := PermissionBehavior
abbrev LocalPermissionAction := PermissionRuleAction
abbrev LocalPermissionMatcher := PermissionRuleMatcher
abbrev LocalPermissionRuleValue := PermissionRuleValue
abbrev LocalPermissionRuleSource := PermissionRuleSource

structure LocalPermissionRule where
  source : LocalPermissionRuleSource
  ruleBehavior : LocalPermissionBehavior
  ruleValue : LocalPermissionRuleValue
  destination : String
  deriving DecidableEq

inductive LocalPermissionStoreUnhealthyReason
  | corruptJson
  | invalidStoreShape
  | unsupportedVersion
  | invalidV2Rule
  deriving DecidableEq

/-- What is thrown, with what its message is made of. -/
inductive RuleError
  | invalidUpdateType
  | missingDestination
  | noRules
  | invalidSource (value : JsValue)
  | invalidBehavior (value : JsValue)
  | invalidRule
  | missingToolName
  | contentNotText
  | storedNotArray (behavior : LocalPermissionBehavior)
  | invalidStoredRule
  | missingStoredToolName
  | missingMatcher
  | emptyCommandPattern
  | emptyPathPattern
  | missingActions
  | invalidMatcherKind (kind : JsValue)
  | invalidAction (value : JsValue)
  | globalDestination
  | invalidAgentName (name : String)
  | invalidSessionId (id : String)
  | unhealthy (reason : LocalPermissionStoreUnhealthyReason) (source : LocalPermissionRuleSource)

def behaviorText : LocalPermissionBehavior → String
  | .allow => "allow"
  | .deny => "deny"
  | .ask => "ask"

def sourceText : LocalPermissionRuleSource → String
  | .globalRules => "global"
  | .agent => "agent"
  | .session => "session"

def actionText : LocalPermissionAction → String
  | .read => "read"
  | .write => "write"
  | .delete => "delete"
  | .execute => "execute"
  | .network => "network"

def LocalPermissionStoreUnhealthyReason.message : LocalPermissionStoreUnhealthyReason → String
  | corruptJson => "Permission rule store is unhealthy: corrupt-json."
  | invalidStoreShape => "Permission rule store is unhealthy: invalid-store-shape."
  | unsupportedVersion => "Unsupported permission.json version."
  | invalidV2Rule => "Permission rule store is unhealthy: invalid-v2-rule."

/-- The message, `text` being `String(value)`. -/
def RuleError.message (text : JsValue → String) : RuleError → String
  | invalidUpdateType => "Invalid permission update type"
  | missingDestination => "Missing permission update destination"
  | noRules => "Permission update requires at least one rule"
  | invalidSource value => "Invalid permission rule source: " ++ text value
  | invalidBehavior value => "Invalid permission rule behavior: " ++ text value
  | invalidRule => "Invalid permission rule"
  | missingToolName => "Permission rule requires tool_name"
  | contentNotText => "Permission rule_content must be a string"
  | storedNotArray behavior =>
    "PermissionConfigV2 " ++ behaviorText behavior ++ " rules must be an array."
  | invalidStoredRule => "Invalid PermissionConfigV2 rule."
  | missingStoredToolName => "PermissionConfigV2 rule requires tool_name."
  | missingMatcher => "PermissionConfigV2 rule requires matcher."
  | emptyCommandPattern => "Command matcher requires a non-empty pattern."
  | emptyPathPattern => "Path matcher requires a non-empty pattern."
  | missingActions => "Path matcher requires explicit actions."
  | invalidMatcherKind kind => "Invalid permission matcher kind: " ++ text kind
  | invalidAction value => "Invalid permission action: " ++ text value
  | globalDestination => "Global permission updates must use destination \"global\""
  | invalidAgentName name => "Invalid agent name: \"" ++ name ++ "\""
  | invalidSessionId id => "Invalid session id: \"" ++ id ++ "\""
  | unhealthy reason _ => reason.message

def RuleError.status : RuleError → ℕ
  | unhealthy _ _ => 503
  | _ => 400

inductive PermissionUpdateType
  | addRules
  | removeRules
  | replaceRules
  deriving DecidableEq

structure PermissionUpdateInput where
  type : PermissionUpdateType
  source : LocalPermissionRuleSource
  destination : String
  rules : List LocalPermissionRuleValue
  behavior : LocalPermissionBehavior
  deriving DecidableEq

/-! ### Reading values -/

/-- `ALL_PERMISSION_ACTIONS` -/
def allPermissionActions : List LocalPermissionAction := [.read, .write, .delete, .execute, .network]

def allPermissionBehaviors : List LocalPermissionBehavior := [.allow, .deny, .ask]

def allPermissionSources : List LocalPermissionRuleSource := [.globalRules, .agent, .session]

/-- The one of the values whose text it is. -/
def readText {α : Type} (values : List α) (text : α → String) (value : JsValue) : Option α :=
  values.find? fun a => value.isText (text a)

def readRuleSource (value : JsValue) : Except RuleError LocalPermissionRuleSource :=
  match readText allPermissionSources sourceText value with
  | some source => .ok source
  | none => .error (.invalidSource value)

def readRuleBehavior (value : JsValue) : Except RuleError LocalPermissionBehavior :=
  match readText allPermissionBehaviors behaviorText value with
  | some behavior => .ok behavior
  | none => .error (.invalidBehavior value)

def readPermissionAction (value : JsValue) : Except RuleError LocalPermissionAction :=
  match readText allPermissionActions actionText value with
  | some action => .ok action
  | none => .error (.invalidAction value)

/-- A text that is not blank. -/
def readPattern (error : RuleError) : JsValue → Except RuleError String
  | .string pattern => if jsTrim pattern = "" then .error error else .ok pattern
  | _ => .error error

/-- `readStoredMatcher`, which keeps the first of the actions that are one. -/
def readStoredMatcher (raw : JsValue) : Except RuleError LocalPermissionMatcher :=
  match raw with
  | .object fields =>
    let record := JsValue.object fields
    if (record.get "kind").isText "tool" then .ok .tool
    else if (record.get "kind").isText "command" then do
      let pattern ← readPattern .emptyCommandPattern (record.get "pattern")
      return .command pattern
    else if (record.get "kind").isText "path" then do
      let pattern ← readPattern .emptyPathPattern (record.get "pattern")
      match record.get "actions" with
      | .array [] => .error .missingActions
      | .array actions => do
        let actions ← actions.mapM readPermissionAction
        return .path pattern (some actions.eraseDups)
      | _ => .error .missingActions
    else .error (.invalidMatcherKind (record.get "kind"))
  | _ => .error .missingMatcher

def looksLikePathPattern (value : String) : Bool :=
  match value.toList with
  | '/' :: _ => true
  | '~' :: '/' :: _ => true
  | '.' :: '/' :: _ => true
  | '.' :: '.' :: '/' :: _ => true
  | '\\' :: '\\' :: _ => true
  | c :: ':' :: d :: _ =>
    ('A' ≤ c && c ≤ 'Z' || 'a' ≤ c && c ≤ 'z') && (d = '\\' || d = '/')
  | _ => false

def inferLegacyMatcher (ruleContent : Option String) : LocalPermissionMatcher :=
  match ruleContent with
  | none => .tool
  | some content =>
    if content = "" then .tool
    else if looksLikePathPattern content then .path content none
    else .command content

/-- `{ toolName, ...(matcher.kind === 'tool' ? {} : { ruleContent: matcher.pattern }), matcher }` -/
def ruleValueOf (toolName : String) (matcher : LocalPermissionMatcher) : LocalPermissionRuleValue :=
  match matcher with
  | .tool => ⟨toolName, none, some .tool⟩
  | .command pattern => ⟨toolName, some pattern, some (.command pattern)⟩
  | .path pattern actions => ⟨toolName, some pattern, some (.path pattern actions)⟩

def readRuleContent : JsValue → Except RuleError (Option String)
  | .undefined => .ok none
  | .string content => .ok (some content)
  | _ => .error .contentNotText

def readRuleValue (raw : JsValue) : Except RuleError LocalPermissionRuleValue :=
  match raw with
  | .object fields =>
    let record := JsValue.object fields
    let ruleContent := (record.get "ruleContent").orElse (record.get "rule_content")
    match (record.get "toolName").orElse (record.get "tool_name") with
    | .string toolName =>
      if toolName = "" then .error .missingToolName
      else do
        let ruleContent ← readRuleContent ruleContent
        let matcher ←
          if (record.get "matcher").isUndefined then .ok (inferLegacyMatcher ruleContent)
          else readStoredMatcher (record.get "matcher")
        return ruleValueOf toolName matcher
    | _ => .error .missingToolName
  | _ => .error .invalidRule

def readUpdateType (value : JsValue) : Except RuleError PermissionUpdateType :=
  if value.isText "addRules" then .ok .addRules
  else if value.isText "removeRules" then .ok .removeRules
  else if value.isText "replaceRules" then .ok .replaceRules
  else .error .invalidUpdateType

/-- A destination that is not empty. -/
def readDestination : JsValue → Except RuleError String
  | .string destination => if destination = "" then .error .missingDestination else .ok destination
  | _ => .error .missingDestination

def readPermissionUpdate (raw : JsValue) : Except RuleError PermissionUpdateInput := do
  let type ← readUpdateType (raw.get "type")
  let source ← readRuleSource (raw.get "source")
  let destination ← readDestination (raw.get "destination")
  let behavior ← readRuleBehavior (raw.get "behavior")
  match raw.get "rules" with
  | .array [] => .error .noRules
  | .array rules => do
    let rules ← rules.mapM readRuleValue
    return ⟨type, source, destination, rules, behavior⟩
  | _ => .error .noRules

/-! ### The first version of the file -/

def readRuleStringArray : JsValue → Option (List String)
  | .undefined => none
  | .array elements => some <| elements.filterMap fun element =>
      match element with
      | .string text => some text
      | _ => none
  | _ => some []

/-- `raw.lastIndexOf(')')` -/
def lastIndexOf (c : Char) (l : List Char) : Option ℕ :=
  if l.contains c then some (l.length - 1 - l.reverse.idxOf c) else none

def parseRuleString (raw : String) : LocalPermissionRuleValue :=
  let text := raw.toList
  let openParen := text.idxOf '('
  if openParen = 0 || !text.contains '(' || text[openParen - 1]? = some '\\' then
    ruleValueOf raw .tool
  else
    match lastIndexOf ')' text with
    | some closeParen =>
      if closeParen ≤ openParen then ruleValueOf raw .tool
      else
        ruleValueOf (String.ofList (text.take openParen))
          (inferLegacyMatcher (some (String.ofList ((text.take closeParen).drop (openParen + 1)))))
    | none => ruleValueOf raw .tool

def ruleStringsToRules (rules : Option (List String)) (source : LocalPermissionRuleSource)
    (destination : String) (behavior : LocalPermissionBehavior) : List LocalPermissionRule :=
  (rules.getD []).map fun raw => ⟨source, behavior, parseRuleString raw, destination⟩

/-- `configV1ToRules`, of what `readRuleStringArray` makes of the three fields. -/
def configV1ToRules (config : JsValue) (source : LocalPermissionRuleSource) (destination : String) :
    List LocalPermissionRule :=
  ruleStringsToRules (readRuleStringArray (config.get "allow")) source destination .allow ++
    ruleStringsToRules (readRuleStringArray (config.get "deny")) source destination .deny ++
    ruleStringsToRules (readRuleStringArray (config.get "ask")) source destination .ask

/-- `rule.matcher ?? inferLegacyMatcher(rule.ruleContent)` -/
def matcherOf (rule : LocalPermissionRuleValue) : LocalPermissionMatcher :=
  rule.matcher.getD (inferLegacyMatcher rule.ruleContent)

def serializeRuleValue (rule : LocalPermissionRuleValue) : String :=
  match matcherOf rule with
  | .tool => rule.toolName
  | .command pattern => rule.toolName ++ "(" ++ pattern ++ ")"
  | .path pattern _ => rule.toolName ++ "(" ++ pattern ++ ")"

/-- What is written of the rules of a behavior. -/
def valuesOf (rules : List LocalPermissionRule) (behavior : LocalPermissionBehavior) :
    List LocalPermissionRuleValue :=
  (rules.filter fun rule => rule.ruleBehavior = behavior).map LocalPermissionRule.ruleValue

def rulesToConfigV1 (rules : List LocalPermissionRule) : JsValue :=
  let write behavior :=
    JsValue.array ((valuesOf rules behavior).map fun rule => .string (serializeRuleValue rule))
  .object [("allow", write .allow), ("deny", write .deny), ("ask", write .ask)]

/-! ### The second version of the file -/

def readStoredRule (raw : JsValue) : Except RuleError LocalPermissionRuleValue :=
  match raw with
  | .object fields =>
    let record := JsValue.object fields
    match record.get "tool_name" with
    | .string toolName =>
      if jsTrim toolName = "" then .error .missingStoredToolName
      else do
        let matcher ← readStoredMatcher (record.get "matcher")
        return ruleValueOf toolName matcher
    | _ => .error .missingStoredToolName
  | _ => .error .invalidStoredRule

def storedRulesToRules (value : JsValue) (source : LocalPermissionRuleSource) (destination : String)
    (behavior : LocalPermissionBehavior) : Except RuleError (List LocalPermissionRule) :=
  match value with
  | .undefined => .ok []
  | .array elements => do
    let values ← elements.mapM readStoredRule
    return values.map fun ruleValue => ⟨source, behavior, ruleValue, destination⟩
  | _ => .error (.storedNotArray behavior)

def configV2ToRules (config : JsValue) (source : LocalPermissionRuleSource) (destination : String) :
    Except RuleError (List LocalPermissionRule) := do
  let allow ← storedRulesToRules (config.get "allow") source destination .allow
  let deny ← storedRulesToRules (config.get "deny") source destination .deny
  let ask ← storedRulesToRules (config.get "ask") source destination .ask
  return allow ++ deny ++ ask

/-- The actions that are written: all, if none are given. -/
def storedActions (actions : Option (List LocalPermissionAction)) : List LocalPermissionAction :=
  match actions with
  | some (action :: actions) => action :: actions
  | _ => allPermissionActions

def storedMatcher : LocalPermissionMatcher → JsValue
  | .tool => .object [("kind", .string "tool")]
  | .command pattern => .object [("kind", .string "command"), ("pattern", .string pattern)]
  | .path pattern actions => .object [("kind", .string "path"), ("pattern", .string pattern),
      ("actions", .array ((storedActions actions).map fun action => .string (actionText action)))]

def ruleValueToStoredRule (rule : LocalPermissionRuleValue) : JsValue :=
  .object [("tool_name", .string rule.toolName), ("matcher", storedMatcher (matcherOf rule))]

def rulesToConfigV2 (rules : List LocalPermissionRule) : JsValue :=
  let write behavior := JsValue.array ((valuesOf rules behavior).map ruleValueToStoredRule)
  .object [("version", .number (.finite 2)), ("allow", write .allow), ("deny", write .deny),
    ("ask", write .ask)]

/-! ### Updates -/

def sameActions (a b : Option (List LocalPermissionAction)) : Bool :=
  match a, b with
  | some a, some b => a.length = b.length && a.all fun action => b.contains action
  | none, none => true
  | _, _ => false

def ruleValuesEqual (a b : LocalPermissionRuleValue) : Bool :=
  a.toolName = b.toolName &&
    match matcherOf a, matcherOf b with
    | .tool, .tool => true
    | .command pattern, .command pattern' => pattern = pattern'
    | .path pattern actions, .path pattern' actions' =>
      pattern = pattern' && sameActions actions actions'
    | _, _ => false

def buildRule (update : PermissionUpdateInput) (ruleValue : LocalPermissionRuleValue) :
    LocalPermissionRule :=
  ⟨update.source, update.behavior, ruleValue, update.destination⟩

/-- The rule has the behavior of the update and the value. -/
def isRuleOf (update : PermissionUpdateInput) (ruleValue : LocalPermissionRuleValue)
    (rule : LocalPermissionRule) : Bool :=
  rule.ruleBehavior = update.behavior && ruleValuesEqual rule.ruleValue ruleValue

/-- A rule is added unless it is there. -/
def addRule (update : PermissionUpdateInput) (next : List LocalPermissionRule)
    (ruleValue : LocalPermissionRuleValue) : List LocalPermissionRule :=
  if next.any (isRuleOf update ruleValue) then next else next ++ [buildRule update ruleValue]

def mutateRules (current : List LocalPermissionRule) (update : PermissionUpdateInput) :
    List LocalPermissionRule :=
  match update.type with
  | .replaceRules => (current.filter fun rule => rule.ruleBehavior ≠ update.behavior) ++
      update.rules.map (buildRule update)
  | .removeRules => current.filter fun rule =>
      !update.rules.any fun ruleValue => isRuleOf update ruleValue rule
  | .addRules => update.rules.foldl (addRule update) current

end Kinetick.Permission
