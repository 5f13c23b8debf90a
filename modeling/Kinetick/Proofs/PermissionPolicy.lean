import Kinetick.Permission.Engine

/-!
# The two policy owners agree

The helpers of the two owners compute the same, so the ladders can be compared rung by rung from
the bottom: `allowCheck_agree`, `checkerAskCheck_agree`, `serverAskCheck_agree`. The engine's two
rungs for the checker's asks, safety checks first, are the one rung of the core.
-/

namespace Kinetick.Permission

theorem Agree.refl (d : PermissionDecision) : Agree d d := ⟨rfl, rfl, rfl, rfl, rfl, rfl⟩

theorem runtimeNameParts_cons_cons {name part next : List Char} {parts : List (List Char)}
    (h : runtimeNameParts name = part :: next :: parts) :
    ∃ rest, name = part ++ '_' :: '_' :: rest := by
  induction name using runtimeNameParts.induct generalizing part with
  | case1 rest =>
    rw [runtimeNameParts] at h
    obtain ⟨rfl, -⟩ := List.cons.inj h
    exact ⟨rest, rfl⟩
  | case2 c rest hsep part' parts' hparts ih =>
    rw [runtimeNameParts, hparts] at h
    · obtain ⟨rfl, htail⟩ := List.cons.inj h
      obtain ⟨rest', rfl⟩ := ih (hparts.trans (by rw [htail]))
      exact ⟨rest', rfl⟩
    · exact hsep
  | case3 c rest hsep hparts =>
    rw [runtimeNameParts, hparts] at h
    · simp at h
    · exact hsep
  | case4 => simp [runtimeNameParts] at h

/-- A name that belongs to a server starts as the names of server tools do. -/
theorem startsWith_of_matches {toolName serverName : String}
    (h : matchesMcpServerRuntimeName toolName serverName = true) :
    toolName.startsWith "mcp__" = true := by
  unfold matchesMcpServerRuntimeName at h
  split at h
  · rename_i tool toolServer name server serverPart hparts hserver
    simp only [Bool.and_eq_true, decide_eq_true_eq] at h
    obtain ⟨⟨⟨⟨rfl, -⟩, -⟩, -⟩, -⟩ := h
    obtain ⟨rest, hrest⟩ := runtimeNameParts_cons_cons hparts
    rw [String.startsWith_string_iff, hrest]
    exact ⟨rest, rfl⟩
  · simp at h

namespace PermissionEngine

theorem findMcpServerRule_eq (toolName : String) (ctx : ToolPermissionContext)
    (behavior : PermissionBehavior) :
    findMcpServerRule toolName ctx behavior = Core.findMcpServerRule toolName ctx behavior := by
  unfold findMcpServerRule Core.findMcpServerRule
  by_cases hname : toolName.startsWith "mcp__" = true
  · have hrule : ∀ r : PermissionRule,
        (r.ruleBehavior = behavior ∧ r.ruleValue.content = none ∧ matchesMcpServerRule toolName r) ↔
          r.ruleBehavior = behavior ∧ r.ruleValue.content = none ∧
            matchesMcpServerRuntimeName toolName r.ruleValue.toolName := by
      intro r
      simp only [matchesMcpServerRule, Bool.and_eq_true, decide_eq_true_eq]
      tauto
    simp only [hname, Bool.not_true, Bool.false_eq_true, ↓reduceIte, hrule]
  · simp [hname]

theorem extractToolInputContent_eq (toolName : String) (input : JsValue) :
    extractToolInputContent toolName input = Core.extractToolInputContent toolName input := by
  unfold extractToolInputContent Core.extractToolInputContent
  split <;> simp_all

theorem matchesContentAskRule_eq (toolName : String) (input : JsValue)
    (ctx : ToolPermissionContext) :
    matchesContentAskRule toolName input ctx = Core.matchesContentAskRule toolName input ctx := by
  unfold matchesContentAskRule Core.matchesContentAskRule
  rw [extractToolInputContent_eq]
  cases (Core.extractToolInputContent toolName input).filter (· ≠ "") with
  | none =>
    refine List.find?_eq_none.2 fun rule _ => ?_
    cases rule.ruleValue.content <;> simp
  | some inputContent =>
    congr 1
    funext rule
    cases rule.ruleValue.content <;> simp

theorem resolveRuleContents_eq (toolName : String) (input : JsValue)
    (result : Option ToolCheckResult) :
    resolveRuleContents toolName input result = Core.resolveRuleContents toolName input result := by
  unfold resolveRuleContents Core.resolveRuleContents
  rw [extractToolInputContent_eq]

theorem resolveCandidateScopes_eq (result : Option ToolCheckResult) :
    resolveCandidateScopes result = Core.resolveCandidateScopes result := by
  unfold resolveCandidateScopes Core.resolveCandidateScopes
  cases nonempty (result.bind (·.ruleContents)) <;> rfl

/-- A bypass-immune ask aside, what the checker asks for in the engine is one rung. -/
theorem asks_of_safety {result : Option ToolCheckResult} {bypass : Bool} {r : ToolCheckResult}
    (h : (ToolCheckResult.asks result).filter (fun r => r.reason.isSafetyCheck && !bypass) =
      some r) : (ToolCheckResult.asks result).filter (fun _ => !bypass) = some r := by
  rw [Option.filter_eq_some_iff] at h ⊢
  simp only [Bool.and_eq_true] at h
  exact ⟨h.1, h.2.2⟩

variable (engine : PermissionEngine) (toolName : String) (input : JsValue)
  (context : ToolPermissionContext)

/-- What the core is asked, for what a run of the checker left. -/
def coreInput (result : Option ToolCheckResult) (error : Option String) :
    Core.PermissionCoreDecisionInput :=
  { toolName, input, context, checkerRegistered := (engine.checkers toolName).isSome
    checkerResult := result, checkerError := error }

theorem allowCheck_agree (result : Option ToolCheckResult) (error : Option String) :
    Agree (engine.allowCheck toolName input context result)
      (Core.reduceAllow (engine.coreInput toolName input context result error)) := by
  unfold allowCheck Core.reduceAllow coreInput
  rw [findMcpServerRule_eq]
  dsimp only
  by_cases hbypass : isBypassMode context = true
  · rw [if_pos hbypass, if_pos hbypass]
    exact .refl _
  · rw [if_neg hbypass, if_neg hbypass]
    cases hasWholeToolRule context toolName .allow with
    | some allowRule => exact .refl _
    | none =>
      cases Core.findMcpServerRule toolName context .allow with
      | some allowRule => exact .refl _
      | none =>
        cases ToolCheckResult.allows result with
        | some result => exact .refl _
        | none =>
          cases engine.checkers toolName with
          | none => exact .refl _
          | some checker =>
            simp only [resolveRuleContents_eq, resolveCandidateScopes_eq]
            exact ⟨rfl, rfl, rfl, rfl, rfl, rfl⟩

theorem checkerAskCheck_agree (result : Option ToolCheckResult) (error : Option String) :
    Agree (engine.checkerAskCheck toolName input context result)
      (Core.reduceAsk (engine.coreInput toolName input context result error)) := by
  have hallow := engine.allowCheck_agree toolName input context result error
  unfold coreInput at hallow ⊢
  unfold checkerAskCheck Core.reduceAsk
  simp only [resolveRuleContents_eq, resolveCandidateScopes_eq, matchesContentAskRule_eq]
  by_cases hinteractive : isInteractiveTool context toolName = true
  · rw [if_pos hinteractive, if_pos hinteractive]
    exact ⟨rfl, rfl, rfl, rfl, rfl, rfl⟩
  · rw [if_neg hinteractive, if_neg hinteractive]
    cases (ToolCheckResult.asks result).filter (·.bypassImmune = some true) with
    | some result => exact ⟨rfl, rfl, rfl, rfl, rfl, rfl⟩
    | none =>
      cases Core.matchesContentAskRule toolName input context with
      | some rule => exact ⟨rfl, rfl, rfl, rfl, rfl, rfl⟩
      | none =>
        cases hsafety : (ToolCheckResult.asks result).filter
            (fun result => result.reason.isSafetyCheck && !isBypassMode context) with
        | some asked =>
          rw [asks_of_safety hsafety]
          exact ⟨rfl, rfl, rfl, rfl, rfl, rfl⟩
        | none =>
          cases (ToolCheckResult.asks result).filter (fun _ => !isBypassMode context) with
          | some asked => exact ⟨rfl, rfl, rfl, rfl, rfl, rfl⟩
          | none => exact hallow

theorem failure_filter (outcome : CheckerOutcome) :
    outcome.failure.filter (· ≠ "") = outcome.failure := by
  unfold CheckerOutcome.failure
  cases outcome.checkerError with
  | none => rfl
  | some message => by_cases h : message = "" <;> simp [h]

theorem serverAskCheck_agree (outcome : CheckerOutcome) :
    Agree (engine.serverAskCheck toolName input context outcome)
      (Core.reduceServerAsk
        (engine.coreInput toolName input context outcome.checkerResult outcome.failure)) := by
  have hask := engine.checkerAskCheck_agree toolName input context outcome.checkerResult
    outcome.failure
  unfold coreInput at hask ⊢
  unfold serverAskCheck Core.reduceServerAsk
  simp only [resolveRuleContents_eq, findMcpServerRule_eq]
  rw [failure_filter]
  cases Core.findMcpServerRule toolName context .ask with
  | some rule => exact ⟨rfl, rfl, rfl, rfl, rfl, rfl⟩
  | none =>
    cases hfailure : outcome.failure with
    | some message => exact ⟨rfl, rfl, rfl, rfl, rfl, rfl⟩
    | none => rwa [hfailure] at hask

theorem checkPermissionWithEngine_agree :
    Agree (engine.checkPermissionWithEngine toolName input context)
      (engine.checkPermissionWithCore toolName input context) := by
  have hask := engine.serverAskCheck_agree toolName input context
    (engine.runChecker toolName input context)
  unfold checkPermissionWithEngine checkPermissionWithCore Core.reducePermissionDecision
  simp only [resolveRuleContents_eq, resolveCandidateScopes_eq, findMcpServerRule_eq]
  cases hasWholeToolRule context toolName .deny with
  | some rule => exact .refl _
  | none =>
    cases Core.findMcpServerRule toolName context .deny with
    | some rule => exact .refl _
    | none =>
      cases ToolCheckResult.denies (engine.runChecker toolName input context).checkerResult with
      | some result => exact .refl _
      | none =>
        cases hasWholeToolRule context toolName .ask with
        | none => exact hask
        | some rule =>
          -- a sandboxed bash call passes a whole-tool ask under both owners
          by_cases hsandbox : (toolName = "bash" && context.sandboxEnabled &&
              context.autoAllowBashIfSandboxed) = true
          · simp only [hsandbox, ↓reduceIte, Bool.not_true]
            exact hask
          · simp only [hsandbox]
            exact ⟨rfl, rfl, rfl, rfl, rfl, rfl⟩

variable {toolName input context}

theorem checkPermissionWithEngine_of_rule (h : DeniedByRule toolName context) :
    (engine.checkPermissionWithEngine toolName input context).behavior = .deny := by
  obtain ⟨rule, hrule, hdeny, hcontent, hname⟩ := h
  unfold checkPermissionWithEngine
  cases hwhole : hasWholeToolRule context toolName .deny with
  | some rule => rfl
  | none =>
    rw [findMcpServerRule_eq]
    cases hserver : Core.findMcpServerRule toolName context .deny with
    | some rule => rfl
    | none =>
      exfalso
      rcases hname with hname | hname
      · have := List.find?_eq_none.1 hwhole rule hrule
        simp [hname, hdeny, hcontent] at this
      · rw [Core.findMcpServerRule, if_pos (startsWith_of_matches hname)] at hserver
        have := List.find?_eq_none.1 hserver rule hrule
        simp [hname, hdeny, hcontent] at this

theorem checkPermissionWithEngine_of_checker (h : DeniedByChecker engine toolName input context) :
    (engine.checkPermissionWithEngine toolName input context).behavior = .deny := by
  obtain ⟨result, hresult, hdeny⟩ := h
  have hdenies : ToolCheckResult.denies (engine.runChecker toolName input context).checkerResult =
      some result := by simp [ToolCheckResult.denies, hresult, hdeny]
  unfold checkPermissionWithEngine
  cases hasWholeToolRule context toolName .deny with
  | some rule => rfl
  | none =>
    cases findMcpServerRule toolName context .deny with
    | some rule => rfl
    | none =>
      simp only [hdenies]

end PermissionEngine

/-- Both policy owners give the same verdict, and a deny is final under both in every mode. -/
theorem policy_owners_agree (engine : PermissionEngine) (toolName : String) (input : JsValue)
    (context : ToolPermissionContext) :
    Agree (engine.checkPermission .engine toolName input context)
        (engine.checkPermission .core toolName input context) ∧
      (DeniedByRule toolName context ∨ DeniedByChecker engine toolName input context →
        ∀ owner, (engine.checkPermission owner toolName input context).behavior = .deny) := by
  have hagree := engine.checkPermissionWithEngine_agree toolName input context
  refine ⟨hagree, fun h owner => ?_⟩
  have hdeny : (engine.checkPermissionWithEngine toolName input context).behavior = .deny := by
    rcases h with h | h
    · exact engine.checkPermissionWithEngine_of_rule h
    · exact engine.checkPermissionWithEngine_of_checker h
  cases owner with
  | engine => exact hdeny
  | core => exact hagree.behavior ▸ hdeny

/-- A context in bypass mode whose only rule denies the shell. -/
def shellDenied : ToolPermissionContext where
  mode := .bypassPermissions
  rules := [⟨.session, .deny, ⟨"bash", none, none⟩⟩]
  sandboxEnabled := true
  autoAllowBashIfSandboxed := true
  platform := .posix
  shellFamily := .posix
  workingDirectory := "/work"
  allowedWorkingPaths := []
  sandboxAllowPaths := []
  trustedExactWritePaths := []
  dataDir := "/data"
  homeDir := "/home/user"
  agentName := none
  sessionId := none
  interactiveTools := ["question"]

theorem policy_owners_agree_shellDenied :
    (PermissionEngine.checkPermission ⟨fun _ => none, fun _ _ _ => .ok none⟩ .core "bash" .null
      shellDenied).behavior = .deny :=
  (policy_owners_agree _ "bash" .null shellDenied).2
    (Or.inl ⟨_, List.mem_singleton.2 rfl, rfl, rfl, Or.inl rfl⟩) .core

end Kinetick.Permission
