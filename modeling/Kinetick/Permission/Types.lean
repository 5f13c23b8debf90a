import Kinetick.Js
import Mathlib.Data.List.Infix

/-!
# Permission rules, decisions and the context they are made in

The vocabulary of the permission module: what a rule says, what a tool's checker recommends, what
is decided, and the queries on a context's rule list.
-/

namespace Kinetick.Permission

inductive PermissionBehavior
  | allow
  | deny
  | ask
  deriving DecidableEq

inductive PermissionMode
  | default
  | acceptEdits
  | bypassPermissions
  | auto
  | dontAsk
  | off
  deriving DecidableEq

inductive PermissionRuleAction
  | read
  | write
  | delete
  | execute
  | network
  deriving DecidableEq

inductive PermissionRuleMatcher
  | tool
  | command (pattern : String)
  | path (pattern : String) (actions : Option (List PermissionRuleAction))
  deriving DecidableEq

structure PermissionRuleValue where
  toolName : String
  ruleContent : Option String
  matcher : Option PermissionRuleMatcher := none
  deriving DecidableEq

/-- The text of a rule's content when it has one that is not empty. -/
def PermissionRuleValue.content (value : PermissionRuleValue) : Option String :=
  value.ruleContent.filter (· ≠ "")

inductive PermissionRuleSource
  | globalRules
  | agent
  | session
  deriving DecidableEq

structure PermissionRule where
  source : PermissionRuleSource
  ruleBehavior : PermissionBehavior
  ruleValue : PermissionRuleValue
  deriving DecidableEq

inductive DecisionReason
  | rule (rule : PermissionRule)
  | safetyCheck (description : String) (classifierApprovable : Option Bool)
      (category : Option String)
  | workingDirectory (path : String)
  | internalWhitelist (path : String)
  | trustedExactWrite (path : String)
  | tempDirectory (path : String)
  | sandbox
  | mode (mode : PermissionMode)
  | pathValidation (error : String)
  | dangerousRemoval (path : String)
  | subcommandResults (reasons : List (String × PermissionBehavior × DecisionReason))
  | rmRewrite (rewrittenCommand : String)
  | recoverableDeleteRewrite (targets : List String)

/-- `reason.type === 'safetyCheck'` -/
def DecisionReason.isSafetyCheck : DecisionReason → Bool
  | safetyCheck .. => true
  | _ => false

structure CandidateScope where
  kind : String
  ruleContent : String
  labelKey : String
  labelParams : Option (List (String × String))
  deriving DecidableEq

structure CandidateScopeGroup where
  subjectDisplay : String
  candidates : List CandidateScope
  deriving DecidableEq

structure PermissionDecision where
  behavior : PermissionBehavior
  reason : DecisionReason
  ruleContents : Option (List String) := none
  ruleMatchers : Option (List PermissionRuleMatcher) := none
  candidateScopes : Option (List CandidateScopeGroup) := none
  rewrittenInput : Option JsValue := none
  bypassImmune : Option Bool := none
  skipAutoClassifier : Option Bool := none

/-- What a checker recommends: a behavior, or that it has no opinion. -/
inductive CheckBehavior
  | allow
  | deny
  | ask
  | passthrough
  deriving DecidableEq

structure ToolCheckResult where
  behavior : CheckBehavior
  reason : DecisionReason
  bypassImmune : Option Bool := none
  skipAutoClassifier : Option Bool := none
  ruleContents : Option (List String) := none
  ruleMatchers : Option (List PermissionRuleMatcher) := none
  candidateScopes : Option (List CandidateScopeGroup) := none
  rewrittenInput : Option JsValue := none

inductive Platform
  | posix
  | darwin
  | win32
  deriving DecidableEq

inductive ShellFamily
  | posix
  | cmd
  | powershell
  | unknown
  deriving DecidableEq

structure ToolPermissionContext where
  mode : PermissionMode
  rules : List PermissionRule
  sandboxEnabled : Bool
  autoAllowBashIfSandboxed : Bool
  platform : Platform
  shellFamily : ShellFamily
  workingDirectory : String
  allowedWorkingPaths : List String
  sandboxAllowPaths : List String
  trustedExactWritePaths : List String
  dataDir : String
  homeDir : String
  agentName : Option String
  sessionId : Option String
  interactiveTools : List String

/-- The first rule of the behavior that is about the whole tool. -/
def hasWholeToolRule (ctx : ToolPermissionContext) (toolName : String)
    (behavior : PermissionBehavior) : Option PermissionRule :=
  ctx.rules.find? fun r =>
    r.ruleValue.toolName = toolName ∧ r.ruleBehavior = behavior ∧ r.ruleValue.content = none

def getContentRulesForTool (ctx : ToolPermissionContext) (toolName : String)
    (behavior : PermissionBehavior) : List PermissionRule :=
  ctx.rules.filter fun r =>
    r.ruleValue.toolName = toolName ∧ r.ruleBehavior = behavior ∧ r.ruleValue.ruleContent.isSome

def isBypassMode (ctx : ToolPermissionContext) : Bool := ctx.mode = .bypassPermissions

def isInteractiveTool (ctx : ToolPermissionContext) (toolName : String) : Bool :=
  ctx.interactiveTools.contains toolName

/-- `name.split('__')` -/
def runtimeNameParts : List Char → List (List Char)
  | '_' :: '_' :: rest => [] :: runtimeNameParts rest
  | c :: rest =>
    match runtimeNameParts rest with
    | part :: parts => (c :: part) :: parts
    | [] => [[c]]
  | [] => [[]]

/-- A tool `mcp__<server>__<tool>` belongs to the server `mcp__<server>`; a name with more
separators belongs to none. -/
def matchesMcpServerRuntimeName (toolRuntimeName serverRuntimeName : String) : Bool :=
  match runtimeNameParts toolRuntimeName.toList, runtimeNameParts serverRuntimeName.toList with
  | [tool, toolServer, name], [server, serverName] =>
    tool = "mcp".toList && server = "mcp".toList && !toolServer.isEmpty && !name.isEmpty &&
      toolServer = serverName
  | _, _ => false

/-- `text.includes(part)` -/
def includes (text part : String) : Bool := decide (part.toList <:+: text.toList)

/-- `typeof input[key] === 'string' ? input[key] : undefined` -/
def textField (input : JsValue) (key : String) : Option String :=
  match input.get key with
  | .string text => some text
  | _ => none

end Kinetick.Permission
