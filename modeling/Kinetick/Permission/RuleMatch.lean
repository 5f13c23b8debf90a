import Kinetick.Permission.RuleCodec

/-!
# The rule that a call matches

`rule-match.ts`: of the rules that match a call, one that denies comes before one that asks, and that
before one that allows. How paths are resolved, hosts are read and values are written as texts is
the platform's.
-/

namespace Kinetick.Permission

/-- What the platform is asked. -/
structure MatchPlatform where
  /-- `new URL(url).host`, unless it throws. -/
  host : String → Option String
  /-- `JSON.stringify(value)`, unless it throws. -/
  stringify : JsValue → Option String
  /-- `path.sep` -/
  sep : Char
  /-- `path.resolve` -/
  resolve : String → String
  /-- `process.platform === 'win32'` -/
  isWindows : Bool
  /-- `String.prototype.toLowerCase` -/
  toLowerCase : String → String

def fsPermissionTools : List String := ["edit", "write", "read", "glob", "grep", "list"]

def permissionToolMatches (ruleToolName toolName : String) : Bool :=
  ruleToolName = toolName || (ruleToolName = "fs" && fsPermissionTools.contains toolName)

def permissionInputAction (toolName : String) : Option LocalPermissionAction :=
  if toolName = "read" || toolName = "glob" || toolName = "grep" || toolName = "list" then
    some .read
  else if toolName = "write" || toolName = "edit" || toolName = "apply_patch" then some .write
  else if toolName = "web_fetch" || toolName = "web_search" then some .network
  else none

/-! ### Patterns -/

/-- `value.replaceAll(a, b)` -/
def replaceAll (a b : Char) (value : String) : String := value.map fun c => if c = a then b else c

/-- What stands before an end, if the text has it. -/
def dropEnd (ending value : String) : Option String :=
  if ending.toList.isSuffixOf value.toList then
    some (String.ofList (value.toList.take (value.toList.length - ending.toList.length)))
  else none

/-- `value.replaceAll('\\', '/').replace(/\/+$/, '') || '/'` -/
def normalizeGlobPattern (value : String) : String :=
  let stripped := String.ofList
    (((replaceAll '\\' '/' value).toList.reverse.dropWhile (· = '/')).reverse)
  if stripped = "" then "/" else stripped

/-- `/&&|\|\||[;&|<>`\n\r]|\$\(|\$\{?ifs(?:\b|[:}])/i`, at the beginning of a text. -/
def separatorAt : List Char → Bool
  | [] => false
  | '$' :: rest =>
    rest.head? = some '(' ||
      (let rest := if rest.head? = some '{' then rest.tail else rest
       (rest.take 3).map Char.toLower = "ifs".toList &&
        (rest.drop 3).head?.all fun c => !(c.isAlphanum || c = '_'))
  | c :: _ => ";&|<>\x60\n\r".toList.contains c

def hasShellCommandSeparator (value : String) : Bool := value.toList.tails.any separatorAt

def matchesCommandPrefix (target start : String) : Bool :=
  let trimmed := jsTrim target
  if start = "" then false
  else if hasShellCommandSeparator trimmed then false
  else if trimmed = start then true
  else
    start.toList.isPrefixOf trimmed.toList &&
      (trimmed.toList.drop start.toList.length).head?.any isJsWhitespace

def matchesPlainWildcard (target start toolName : String) : Bool :=
  let trimmed := if toolName = "bash" then jsTrim target else target
  if toolName = "bash" && hasShellCommandSeparator trimmed then false
  else start.toList.isPrefixOf trimmed.toList

/-! ### Rules -/

section

variable (platform : MatchPlatform)

def permissionInputTarget (toolName : String) (input : JsValue) : Option String :=
  let direct := (input.get "command").orElse ((input.get "path").orElse ((input.get "filePath").orElse
    ((input.get "file_path").orElse (input.get "pattern"))))
  match direct with
  | .string target => some target
  | _ =>
    match input.get "url" with
    | .string url => some ((platform.host url).getD url)
    | _ =>
      match input.get "cmd" with
      | .string cmd => if toolName = "bash" then some cmd else platform.stringify input
      | _ => platform.stringify input

def resolvePathForCompare (value : String) : String :=
  let resolved := platform.resolve (replaceAll '\\' platform.sep value)
  let normalized := replaceAll platform.sep '/' resolved
  if platform.isWindows then platform.toLowerCase normalized else normalized

/-- `target === base || target.startsWith(base + '/')` of the resolved paths. -/
def isPathAtOrBelow (target base : String) : Bool :=
  let resolvedTarget := resolvePathForCompare platform target
  let resolvedBase := resolvePathForCompare platform base
  resolvedTarget = resolvedBase ||
    (resolvedBase.toList ++ ['/']).isPrefixOf resolvedTarget.toList

def matchesPathGlob (target pattern : String) : Bool :=
  let globPattern := normalizeGlobPattern pattern
  match dropEnd "/**/*" globPattern with
  | some base => isPathAtOrBelow platform target base
  | none =>
    match dropEnd "/**" globPattern with
    | some base => isPathAtOrBelow platform target base
    | none =>
      match dropEnd "/*" globPattern with
      | some base =>
        let base := (resolvePathForCompare platform base).toList
        let resolvedTarget := (resolvePathForCompare platform target).toList
        (base ++ ['/']).isPrefixOf resolvedTarget &&
          !(resolvedTarget.drop (base.length + 1)).contains '/'
      | none => false

/-- `a && b` of an optional text, as a condition -/
def nonEmpty (target : Option String) : Option String := target.filter (· ≠ "")

/-- What a pattern of a command matches, besides itself. -/
def matchesCommand (target pattern toolName : String) : Bool :=
  match dropEnd ":*" pattern with
  | some start => matchesCommandPrefix target start
  | none =>
    match dropEnd "*" pattern with
    | some start => matchesPlainWildcard target start toolName
    | none => false

def structuredMatcherMatches (matcher : LocalPermissionMatcher) (toolName : String)
    (input : JsValue) : Bool :=
  match matcher with
  | .tool => true
  | .path pattern actions =>
    match nonEmpty (permissionInputTarget platform toolName input) with
    | none => false
    | some target =>
      (match actions with
        | none => true
        | some actions => (permissionInputAction toolName).any fun action => actions.contains action) &&
        (target = pattern || matchesPathGlob platform target pattern)
  | .command pattern =>
    match nonEmpty (permissionInputTarget platform toolName input) with
    | none => false
    | some target => target = pattern || matchesCommand target pattern toolName

def isPathLikeWildcard (pattern : String) : Bool :=
  pattern.toList.contains '*' && (pattern.toList.contains '/' || pattern.toList.contains '\\')

/-- What a rule without a matcher matches by its content. -/
def contentMatches (ruleContent : Option String) (toolName : String) (input : JsValue) : Bool :=
  match nonEmpty ruleContent with
  | none => true
  | some content =>
    match nonEmpty (permissionInputTarget platform toolName input) with
    | none => false
    | some target =>
      target = content || matchesPathGlob platform target content ||
        (!isPathLikeWildcard content && matchesCommand target content toolName)

def ruleMatches (rule : LocalPermissionRule) (toolName : String) (input : JsValue) : Bool :=
  permissionToolMatches rule.ruleValue.toolName toolName &&
    match rule.ruleValue.matcher with
    | some matcher => structuredMatcherMatches platform matcher toolName input
    | none => contentMatches platform rule.ruleValue.ruleContent toolName input

def selectMatchingRule (rules : List LocalPermissionRule) (toolName : String) (input : JsValue) :
    Option LocalPermissionRule :=
  let found := rules.filter fun rule => ruleMatches platform rule toolName input
  (found.find? fun rule => rule.ruleBehavior = .deny).or
    ((found.find? fun rule => rule.ruleBehavior = .ask).or
      (found.find? fun rule => rule.ruleBehavior = .allow))

end

end Kinetick.Permission
