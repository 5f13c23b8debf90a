import Kinetick.Permission.Types

/-!
# The two policy owners

Whether a tool call is allowed is decided by one of two ladders over the same rules and the same
checker. `Core.reducePermissionDecision` takes what the checker answered; the engine's own path
runs the checker between its whole-tool denies and its whole-tool asks.

A checker answers, has no opinion, or throws an error that may carry a message. A tool without a
checker is asked of `decideUnknownToolPathCapabilities`, a function of the same arguments.
-/

namespace Kinetick.Permission

/-- What a call that may throw makes: a value, or the message of the error if it has one. -/
abbrev Attempt (α : Type) := Except (Option String) α

/-- `checker.checkPermissions` -/
abbrev CheckPermissions :=
  String → JsValue → ToolPermissionContext → Attempt (Option ToolCheckResult)

/-- What running the checker left: its answer, or the message of its error. -/
structure CheckerOutcome where
  checkerResult : Option ToolCheckResult
  checkerError : Option String

/-- `try { … } catch (err) { checkerError = err.message }` -/
def CheckerOutcome.of : Attempt (Option ToolCheckResult) → CheckerOutcome
  | .ok result => ⟨result, none⟩
  | .error message => ⟨none, message⟩

/-- The message of the error unless it is empty, which counts as no error. -/
def CheckerOutcome.failure (outcome : CheckerOutcome) : Option String :=
  outcome.checkerError.filter (· ≠ "")

/-- `values?.length` of an optional list, as a condition -/
def nonempty {α : Type} (values : Option (List α)) : Option (List α) :=
  values.filter fun values => !values.isEmpty

namespace ToolCheckResult

def denies (result : Option ToolCheckResult) : Option ToolCheckResult :=
  result.filter (·.behavior = .deny)

def asks (result : Option ToolCheckResult) : Option ToolCheckResult :=
  result.filter (·.behavior = .ask)

def allows (result : Option ToolCheckResult) : Option ToolCheckResult :=
  result.filter (·.behavior = .allow)

end ToolCheckResult

namespace Core

structure PermissionCoreDecisionInput where
  toolName : String
  input : JsValue
  context : ToolPermissionContext
  checkerRegistered : Bool
  checkerResult : Option ToolCheckResult
  checkerError : Option String

def findMcpServerRule (toolName : String) (context : ToolPermissionContext)
    (behavior : PermissionBehavior) : Option PermissionRule :=
  if toolName.startsWith "mcp__" then
    context.rules.find? fun rule =>
      rule.ruleBehavior = behavior ∧ rule.ruleValue.content = none ∧
        matchesMcpServerRuntimeName toolName rule.ruleValue.toolName
  else none

def extractToolInputContent (toolName : String) (input : JsValue) : Option String :=
  if toolName = "bash" then textField input "command"
  else if toolName ∈ ["edit", "write", "read", "glob"] then
    (textField input "filePath").or ((textField input "path").or (textField input "pattern"))
  else (textField input "command").or (textField input "url")

def matchesContentAskRule (toolName : String) (input : JsValue)
    (context : ToolPermissionContext) : Option PermissionRule :=
  match (extractToolInputContent toolName input).filter (· ≠ "") with
  | none => none
  | some inputContent =>
    (getContentRulesForTool context toolName .ask).find? fun rule =>
      rule.ruleValue.content.any fun ruleContent => includes inputContent ruleContent

def resolveRuleContents (toolName : String) (input : JsValue)
    (checkerResult : Option ToolCheckResult) : Option (List String) :=
  match nonempty (checkerResult.bind (·.ruleContents)) with
  | some ruleContents => some ruleContents
  | none => ((extractToolInputContent toolName input).filter (· ≠ "")).map ([·])

def resolveCandidateScopes (checkerResult : Option ToolCheckResult) :
    Option (List CandidateScopeGroup) :=
  match nonempty (checkerResult.bind (·.ruleContents)) with
  | none => none
  | some _ => nonempty (checkerResult.bind (·.candidateScopes))

def resolveRuleMatchers (checkerResult : Option ToolCheckResult) :
    Option (List PermissionRuleMatcher) :=
  match nonempty (checkerResult.bind (·.ruleContents)) with
  | none => none
  | some ruleContents =>
    (checkerResult.bind (·.ruleMatchers)).filter fun ruleMatchers =>
      ruleMatchers.length = ruleContents.length

/-- The ladder below the checker's own asks. -/
def reduceAllow (input : PermissionCoreDecisionInput) : PermissionDecision :=
  let { toolName, context, checkerResult, .. } := input
  if isBypassMode context then
    { behavior := .allow, reason := .mode .bypassPermissions,
      rewrittenInput := checkerResult.bind (·.rewrittenInput) }
  else
    match (hasWholeToolRule context toolName .allow).or
        (findMcpServerRule toolName context .allow) with
    | some allowRule =>
      { behavior := .allow, reason := .rule allowRule,
        rewrittenInput := checkerResult.bind (·.rewrittenInput) }
    | none =>
      match ToolCheckResult.allows checkerResult with
      | some result =>
        { behavior := .allow, reason := result.reason, rewrittenInput := result.rewrittenInput }
      | none =>
        if !input.checkerRegistered then
          { behavior := .allow
            reason := .safetyCheck ("No permission checker registered for tool \"" ++ toolName ++
              "\", allowing by default") none none }
        else
          { behavior := .ask
            reason := .safetyCheck ("No permission rule matched for tool \"" ++ toolName ++ "\"")
              none none
            ruleContents := resolveRuleContents toolName input.input checkerResult
            ruleMatchers := resolveRuleMatchers checkerResult
            candidateScopes := resolveCandidateScopes checkerResult
            rewrittenInput := checkerResult.bind (·.rewrittenInput) }

/-- The ladder below the checker's error. -/
def reduceAsk (input : PermissionCoreDecisionInput) : PermissionDecision :=
  let { toolName, context, checkerResult, .. } := input
  if isInteractiveTool context toolName then
    { behavior := .ask
      reason := .safetyCheck ("Tool \"" ++ toolName ++ "\" requires user interaction") none none
      ruleContents := resolveRuleContents toolName input.input checkerResult
      ruleMatchers := resolveRuleMatchers checkerResult
      candidateScopes := resolveCandidateScopes checkerResult }
  else
    match (ToolCheckResult.asks checkerResult).filter (·.bypassImmune = some true) with
    | some result =>
      { behavior := .ask, reason := result.reason
        ruleContents := resolveRuleContents toolName input.input checkerResult
        ruleMatchers := resolveRuleMatchers checkerResult
        candidateScopes := resolveCandidateScopes checkerResult
        bypassImmune := some true
        skipAutoClassifier := result.skipAutoClassifier }
    | none =>
      match matchesContentAskRule toolName input.input context with
      | some contentAskRule =>
        { behavior := .ask, reason := .rule contentAskRule
          ruleContents := resolveRuleContents toolName input.input checkerResult
          ruleMatchers := resolveRuleMatchers checkerResult
          candidateScopes := resolveCandidateScopes checkerResult
          rewrittenInput := checkerResult.bind (·.rewrittenInput) }
      | none =>
        match (ToolCheckResult.asks checkerResult).filter (fun _ => !isBypassMode context) with
        | some result =>
          { behavior := .ask, reason := result.reason
            ruleContents := resolveRuleContents toolName input.input checkerResult
            ruleMatchers := resolveRuleMatchers checkerResult
            candidateScopes := resolveCandidateScopes checkerResult
            rewrittenInput := result.rewrittenInput
            skipAutoClassifier := result.skipAutoClassifier }
        | none => reduceAllow input

/-- The ladder below the asks of whole-tool rules. -/
def reduceServerAsk (input : PermissionCoreDecisionInput) : PermissionDecision :=
  match findMcpServerRule input.toolName input.context .ask with
  | some mcpAskRule =>
    { behavior := .ask, reason := .rule mcpAskRule
      ruleContents := resolveRuleContents input.toolName input.input none }
  | none =>
    match input.checkerError.filter (· ≠ "") with
    | some checkerError =>
      { behavior := .ask
        reason := .safetyCheck ("Tool checker error: " ++ checkerError) none none
        ruleContents := resolveRuleContents input.toolName input.input none }
    | none => reduceAsk input

def reducePermissionDecision (input : PermissionCoreDecisionInput) : PermissionDecision :=
  let { toolName, context, checkerResult, .. } := input
  match (hasWholeToolRule context toolName .deny).or (findMcpServerRule toolName context .deny) with
  | some denyRule => { behavior := .deny, reason := .rule denyRule }
  | none =>
    match ToolCheckResult.denies checkerResult with
    | some result => { behavior := .deny, reason := result.reason }
    | none =>
      let sandboxBypassesAsk :=
        toolName = "bash" && context.sandboxEnabled && context.autoAllowBashIfSandboxed
      match (hasWholeToolRule context toolName .ask).filter (fun _ => !sandboxBypassesAsk) with
      | some askRule =>
        { behavior := .ask, reason := .rule askRule
          ruleContents := resolveRuleContents toolName input.input checkerResult
          ruleMatchers := resolveRuleMatchers checkerResult
          candidateScopes := resolveCandidateScopes checkerResult
          rewrittenInput := checkerResult.bind (·.rewrittenInput) }
      | none => reduceServerAsk input

end Core

/-- The checkers registered by tool name, and what a tool without one is asked of. -/
structure PermissionEngine where
  checkers : String → Option CheckPermissions
  decideUnknownToolPathCapabilities : CheckPermissions

namespace PermissionEngine

variable (engine : PermissionEngine)

/-- One run of the tool's checker. -/
def runChecker (toolName : String) (input : JsValue) (context : ToolPermissionContext) :
    CheckerOutcome :=
  .of (match engine.checkers toolName with
    | some checkPermissions => checkPermissions toolName input context
    | none => engine.decideUnknownToolPathCapabilities toolName input context)

def checkPermissionWithCore (toolName : String) (input : JsValue)
    (context : ToolPermissionContext) : PermissionDecision :=
  let outcome := engine.runChecker toolName input context
  Core.reducePermissionDecision
    { toolName, input, context
      checkerRegistered := (engine.checkers toolName).isSome
      checkerResult := outcome.checkerResult
      checkerError := outcome.failure }

/-- A rule for the whole server the tool belongs to. -/
def matchesMcpServerRule (toolName : String) (rule : PermissionRule) : Bool :=
  rule.ruleValue.content = none && matchesMcpServerRuntimeName toolName rule.ruleValue.toolName

def findMcpServerRule (toolName : String) (ctx : ToolPermissionContext)
    (behavior : PermissionBehavior) : Option PermissionRule :=
  if !toolName.startsWith "mcp__" then none
  else
    ctx.rules.find? fun r =>
      r.ruleBehavior = behavior ∧ r.ruleValue.content = none ∧ matchesMcpServerRule toolName r

def extractToolInputContent (toolName : String) (input : JsValue) : Option String :=
  match toolName with
  | "bash" => textField input "command"
  | "edit" | "write" | "read" | "glob" =>
    (textField input "filePath").or ((textField input "path").or (textField input "pattern"))
  | _ => (textField input "command").or (textField input "url")

def matchesContentAskRule (toolName : String) (input : JsValue) (ctx : ToolPermissionContext) :
    Option PermissionRule :=
  (getContentRulesForTool ctx toolName .ask).find? fun rule =>
    match rule.ruleValue.content with
    | none => false
    | some ruleContent =>
      match (extractToolInputContent toolName input).filter (· ≠ "") with
      | none => false
      | some inputContent => includes inputContent ruleContent

def resolveRuleContents (toolName : String) (input : JsValue)
    (checkerResult : Option ToolCheckResult) : Option (List String) :=
  match nonempty (checkerResult.bind (·.ruleContents)) with
  | some ruleContents => some ruleContents
  | none => ((extractToolInputContent toolName input).filter (· ≠ "")).map ([·])

def resolveCandidateScopes (checkerResult : Option ToolCheckResult) :
    Option (List CandidateScopeGroup) :=
  if (nonempty (checkerResult.bind (·.ruleContents))).isNone then none
  else nonempty (checkerResult.bind (·.candidateScopes))

def resolveRuleMatchers (checkerResult : Option ToolCheckResult) :
    Option (List PermissionRuleMatcher) :=
  match nonempty (checkerResult.bind (·.ruleContents)) with
  | none => none
  | some ruleContents =>
    (checkerResult.bind (·.ruleMatchers)).filter fun ruleMatchers =>
      ruleMatchers.length = ruleContents.length

/-- Steps 2 and 3: the allows and the fallback. -/
def allowCheck (toolName : String) (input : JsValue) (context : ToolPermissionContext)
    (toolCheckResult : Option ToolCheckResult) : PermissionDecision :=
  if isBypassMode context then
    { behavior := .allow, reason := .mode .bypassPermissions,
      rewrittenInput := toolCheckResult.bind (·.rewrittenInput) }
  else
    match hasWholeToolRule context toolName .allow with
    | some allowRule =>
      { behavior := .allow, reason := .rule allowRule,
        rewrittenInput := toolCheckResult.bind (·.rewrittenInput) }
    | none =>
      match findMcpServerRule toolName context .allow with
      | some mcpAllowRule =>
        { behavior := .allow, reason := .rule mcpAllowRule,
          rewrittenInput := toolCheckResult.bind (·.rewrittenInput) }
      | none =>
        match ToolCheckResult.allows toolCheckResult with
        | some result =>
          { behavior := .allow, reason := result.reason, rewrittenInput := result.rewrittenInput }
        | none =>
          if (engine.checkers toolName).isNone then
            { behavior := .allow
              reason := .safetyCheck ("No permission checker registered for tool \"" ++ toolName ++
                "\", allowing by default") none none }
          else
            { behavior := .ask
              reason := .safetyCheck ("No permission rule matched for tool \"" ++ toolName ++ "\"")
                none (some "noMatchingPermissionRule")
              ruleContents := resolveRuleContents toolName input toolCheckResult
              ruleMatchers := resolveRuleMatchers toolCheckResult
              candidateScopes := resolveCandidateScopes toolCheckResult
              rewrittenInput := toolCheckResult.bind (·.rewrittenInput) }

/-- Steps 1e to 1h: interactive tools and what the checker asks for. -/
def checkerAskCheck (toolName : String) (input : JsValue) (context : ToolPermissionContext)
    (toolCheckResult : Option ToolCheckResult) : PermissionDecision :=
  if isInteractiveTool context toolName then
    { behavior := .ask
      reason := .safetyCheck ("Tool \"" ++ toolName ++ "\" requires user interaction") none none
      ruleContents := resolveRuleContents toolName input toolCheckResult
      ruleMatchers := resolveRuleMatchers toolCheckResult
      candidateScopes := resolveCandidateScopes toolCheckResult }
  else
    match (ToolCheckResult.asks toolCheckResult).filter (·.bypassImmune = some true) with
    | some result =>
      { behavior := .ask, reason := result.reason
        ruleContents := resolveRuleContents toolName input toolCheckResult
        ruleMatchers := resolveRuleMatchers toolCheckResult
        candidateScopes := resolveCandidateScopes toolCheckResult
        bypassImmune := some true
        skipAutoClassifier := result.skipAutoClassifier }
    | none =>
      match matchesContentAskRule toolName input context with
      | some contentAskMatch =>
        { behavior := .ask, reason := .rule contentAskMatch
          ruleContents := resolveRuleContents toolName input toolCheckResult
          ruleMatchers := resolveRuleMatchers toolCheckResult
          candidateScopes := resolveCandidateScopes toolCheckResult
          rewrittenInput := toolCheckResult.bind (·.rewrittenInput) }
      | none =>
        -- 1g, a safety check, and 1h, any other ask of the checker
        match (ToolCheckResult.asks toolCheckResult).filter
            (fun result => result.reason.isSafetyCheck && !isBypassMode context) with
        | some result =>
          { behavior := .ask, reason := result.reason
            ruleContents := resolveRuleContents toolName input toolCheckResult
            ruleMatchers := resolveRuleMatchers toolCheckResult
            candidateScopes := resolveCandidateScopes toolCheckResult
            rewrittenInput := result.rewrittenInput
            skipAutoClassifier := result.skipAutoClassifier }
        | none =>
          match (ToolCheckResult.asks toolCheckResult).filter
              (fun _ => !isBypassMode context) with
          | some result =>
            { behavior := .ask, reason := result.reason
              ruleContents := resolveRuleContents toolName input toolCheckResult
              ruleMatchers := resolveRuleMatchers toolCheckResult
              candidateScopes := resolveCandidateScopes toolCheckResult
              rewrittenInput := result.rewrittenInput
              skipAutoClassifier := result.skipAutoClassifier }
          | none => engine.allowCheck toolName input context toolCheckResult

/-- Step 1b for a server rule, and the checker's error. -/
def serverAskCheck (toolName : String) (input : JsValue) (context : ToolPermissionContext)
    (outcome : CheckerOutcome) : PermissionDecision :=
  match findMcpServerRule toolName context .ask with
  | some mcpAskRule =>
    { behavior := .ask, reason := .rule mcpAskRule
      ruleContents := resolveRuleContents toolName input none
      candidateScopes := resolveCandidateScopes none }
  | none =>
    match outcome.failure with
    | some checkerError =>
      { behavior := .ask
        reason := .safetyCheck ("Tool checker error: " ++ checkerError) none none
        ruleContents := resolveRuleContents toolName input none }
    | none => engine.checkerAskCheck toolName input context outcome.checkerResult

def checkPermissionWithEngine (toolName : String) (input : JsValue)
    (context : ToolPermissionContext) : PermissionDecision :=
  match hasWholeToolRule context toolName .deny with
  | some denyRule => { behavior := .deny, reason := .rule denyRule }
  | none =>
    match findMcpServerRule toolName context .deny with
    | some mcpDenyRule => { behavior := .deny, reason := .rule mcpDenyRule }
    | none =>
      let outcome := engine.runChecker toolName input context
      match ToolCheckResult.denies outcome.checkerResult with
      | some result => { behavior := .deny, reason := result.reason }
      | none =>
        match hasWholeToolRule context toolName .ask with
        | some askRule =>
          if toolName = "bash" && context.sandboxEnabled && context.autoAllowBashIfSandboxed then
            engine.serverAskCheck toolName input context outcome
          else
            { behavior := .ask, reason := .rule askRule
              ruleContents := resolveRuleContents toolName input outcome.checkerResult
              ruleMatchers := resolveRuleMatchers outcome.checkerResult
              candidateScopes := resolveCandidateScopes outcome.checkerResult
              rewrittenInput := outcome.checkerResult.bind (·.rewrittenInput) }
        | none => engine.serverAskCheck toolName input context outcome

end PermissionEngine

inductive PermissionPolicyOwner
  | engine
  | core
  deriving DecidableEq

/-- `checkPermission` under the policy owner of its options. -/
def PermissionEngine.checkPermission (engine : PermissionEngine)
    (policyOwner : PermissionPolicyOwner) (toolName : String) (input : JsValue)
    (context : ToolPermissionContext) : PermissionDecision :=
  match policyOwner with
  | .core => engine.checkPermissionWithCore toolName input context
  | .engine => engine.checkPermissionWithEngine toolName input context

end Kinetick.Permission

/-!
## What is promised of permission decisions

The two policy owners give the same verdict, and a deny for the whole tool, for its server or of
its checker is final under both.
-/

namespace Kinetick.Permission

/-- Two decisions that allow, deny or ask for the same, whatever reason they give. -/
structure Agree (d e : PermissionDecision) : Prop where
  behavior : d.behavior = e.behavior
  rewrittenInput : d.rewrittenInput = e.rewrittenInput
  ruleContents : d.ruleContents = e.ruleContents
  candidateScopes : d.candidateScopes = e.candidateScopes
  bypassImmune : d.bypassImmune = e.bypassImmune
  skipAutoClassifier : d.skipAutoClassifier = e.skipAutoClassifier

/-- A deny rule without content for the tool itself or for the server it belongs to. -/
def DeniedByRule (toolName : String) (context : ToolPermissionContext) : Prop :=
  ∃ rule ∈ context.rules, rule.ruleBehavior = .deny ∧ rule.ruleValue.content = none ∧
    (rule.ruleValue.toolName = toolName ∨
      matchesMcpServerRuntimeName toolName rule.ruleValue.toolName = true)

/-- The checker, or what stands in for one, answers deny. -/
def DeniedByChecker (engine : PermissionEngine) (toolName : String) (input : JsValue)
    (context : ToolPermissionContext) : Prop :=
  ∃ result, (engine.runChecker toolName input context).checkerResult = some result ∧
    result.behavior = .deny

end Kinetick.Permission
