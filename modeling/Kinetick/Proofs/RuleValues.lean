import Kinetick.Permission.RuleStore
import Kinetick.Results
import Mathlib.Data.List.Perm.Basic

/-!
# Rules that are stored

A rule that is written is read as one with the same key: the tool, the kind of the matcher, the
pattern and, of a path, the set of the actions. Rules of one key are equal once they are stored, and
match the same calls; and a rule matches what its key does, unless it is a path rule that says no
actions.
-/

namespace Kinetick.Permission

variable {value a b : LocalPermissionRuleValue} {matcher : LocalPermissionMatcher}

/-! ### Values that were read -/

/-- A path says its actions once each, and some, if it says any. -/
def Listed : LocalPermissionMatcher → Prop
  | .path _ (some actions) => actions ≠ [] ∧ actions.Nodup
  | _ => True

/-- A value as it is read: it has a matcher, and the pattern of it for its content. -/
def ReadValue (value : LocalPermissionRuleValue) : Prop :=
  ∃ toolName matcher, value = ruleValueOf toolName matcher ∧ Listed matcher

@[simp] theorem matcherOf_ruleValueOf (toolName : String) (matcher : LocalPermissionMatcher) :
    matcherOf (ruleValueOf toolName matcher) = matcher := by
  cases matcher <;> rfl

@[simp] theorem toolName_ruleValueOf (toolName : String) (matcher : LocalPermissionMatcher) :
    (ruleValueOf toolName matcher).toolName = toolName := by
  cases matcher <;> rfl

@[simp] theorem matcher_ruleValueOf (toolName : String) (matcher : LocalPermissionMatcher) :
    (ruleValueOf toolName matcher).matcher = some matcher := by
  cases matcher <;> rfl

theorem nodup_eraseDups_actions (actions : List LocalPermissionAction) : actions.eraseDups.Nodup := by
  induction h : actions.length using Nat.strong_induction_on generalizing actions with
  | _ n ih =>
    cases actions with
    | nil => exact List.nodup_nil
    | cons action actions =>
      rw [List.eraseDups_cons, List.nodup_cons]
      refine ⟨fun hmem => ?_, ih _ ?_ _ rfl⟩
      · simpa using (List.mem_filter.1 (List.mem_eraseDups.1 hmem)).2
      · have hle := List.length_filter_le (fun b => !b == action) actions
        rw [List.length_cons] at h
        omega

theorem eraseDups_ne_nil {actions : List LocalPermissionAction} (h : actions ≠ []) :
    actions.eraseDups ≠ [] := by
  cases actions with
  | nil => exact absurd rfl h
  | cons action actions =>
    rw [List.eraseDups_cons]
    exact List.cons_ne_nil _ _

theorem mapM_ne_nil {α β : Type} {f : α → Except RuleError β} {l : List α} {bs : List β}
    (hl : l ≠ []) (h : l.mapM f = .ok bs) : bs ≠ [] := by
  cases l with
  | nil => exact absurd rfl hl
  | cons c l =>
    rw [List.mapM_cons, bind_eq_ok] at h
    obtain ⟨b, -, h⟩ := h
    obtain ⟨bs', -, h⟩ := bind_eq_ok.1 h
    rw [← Except.ok.inj h]
    exact List.cons_ne_nil _ _

theorem listed_readStoredMatcher {raw : JsValue} (h : readStoredMatcher raw = .ok matcher) :
    Listed matcher := by
  unfold readStoredMatcher at h
  split at h
  · dsimp only at h
    split_ifs at h
    · rw [← Except.ok.inj h]
      trivial
    · obtain ⟨pattern, -, h⟩ := bind_eq_ok.1 h
      rw [← Except.ok.inj h]
      trivial
    · obtain ⟨pattern, -, h⟩ := bind_eq_ok.1 h
      split at h
      · cases h
      · rename_i elements hne _
        obtain ⟨actions, hactions, h⟩ := bind_eq_ok.1 h
        rw [← Except.ok.inj h]
        exact ⟨eraseDups_ne_nil (mapM_ne_nil (fun hnil => hne hnil) hactions),
          nodup_eraseDups_actions actions⟩
      · cases h
  · cases h

theorem listed_inferLegacyMatcher (content : Option String) :
    Listed (inferLegacyMatcher content) := by
  unfold inferLegacyMatcher
  split
  · trivial
  · split_ifs <;> trivial

theorem readValue_readRuleValue {raw : JsValue} (h : readRuleValue raw = .ok value) :
    ReadValue value := by
  unfold readRuleValue at h
  split at h
  · dsimp only at h
    split at h
    · split_ifs at h with hempty hmatcher
      · obtain ⟨content, -, h⟩ := bind_eq_ok.1 h
        obtain ⟨matcher, hm, h⟩ := bind_eq_ok.1 h
        refine ⟨_, matcher, (Except.ok.inj h).symm, ?_⟩
        rw [← Except.ok.inj hm]
        exact listed_inferLegacyMatcher content
      · obtain ⟨content, -, h⟩ := bind_eq_ok.1 h
        obtain ⟨matcher, hm, h⟩ := bind_eq_ok.1 h
        exact ⟨_, matcher, (Except.ok.inj h).symm, listed_readStoredMatcher hm⟩
    · cases h
  · cases h

theorem readValue_readStoredRule {raw : JsValue} (h : readStoredRule raw = .ok value) :
    ReadValue value := by
  unfold readStoredRule at h
  split at h
  · dsimp only at h
    split at h
    · split_ifs at h
      obtain ⟨matcher, hm, h⟩ := bind_eq_ok.1 h
      exact ⟨_, matcher, (Except.ok.inj h).symm, listed_readStoredMatcher hm⟩
    · cases h
  · cases h

theorem readValue_parseRuleString (raw : String) : ReadValue (parseRuleString raw) := by
  unfold parseRuleString
  dsimp only
  split_ifs
  · exact ⟨raw, .tool, rfl, trivial⟩
  · split
    · split_ifs
      · exact ⟨raw, .tool, rfl, trivial⟩
      · exact ⟨_, _, rfl, listed_inferLegacyMatcher _⟩
    · exact ⟨raw, .tool, rfl, trivial⟩

/-! ### What is written is read -/

theorem readText_actionText (action : LocalPermissionAction) :
    readPermissionAction (.string (actionText action)) = .ok action := by
  cases action <;> rfl

theorem mapM_readPermissionAction (actions : List LocalPermissionAction) :
    (actions.map fun action => JsValue.string (actionText action)).mapM readPermissionAction =
      .ok actions := by
  induction actions with
  | nil => rfl
  | cons action actions ih =>
    rw [List.map_cons, List.mapM_cons, readText_actionText, ih]
    rfl

theorem storedActions_ne_nil (actions : Option (List LocalPermissionAction)) :
    storedActions actions ≠ [] := by
  unfold storedActions
  split
  · exact List.cons_ne_nil _ _
  · exact List.cons_ne_nil _ _

/-- The pattern of the matcher, if it has one, is not blank. -/
def Patterned : LocalPermissionMatcher → Prop
  | .tool => True
  | .command pattern => jsTrim pattern ≠ ""
  | .path pattern _ => jsTrim pattern ≠ ""

theorem storable_iff : Storable value ↔
    jsTrim value.toolName ≠ "" ∧ Patterned (matcherOf value) := by
  unfold Storable Patterned
  cases matcherOf value <;> rfl

/-- What a matcher is read as once it was stored. -/
def restoredMatcher : LocalPermissionMatcher → LocalPermissionMatcher
  | .path pattern actions => .path pattern (some (storedActions actions).eraseDups)
  | matcher => matcher

theorem storedValue_eq (value : LocalPermissionRuleValue) :
    storedValue value = ruleValueOf value.toolName (restoredMatcher (matcherOf value)) := by
  unfold storedValue restoredMatcher
  cases matcherOf value <;> rfl

theorem readPattern_of_ne {error : RuleError} {pattern : String} (h : jsTrim pattern ≠ "") :
    readPattern error (.string pattern) = .ok pattern := if_neg h

theorem readStoredMatcher_storedMatcher (h : Patterned matcher) :
    readStoredMatcher (storedMatcher matcher) = .ok (restoredMatcher matcher) := by
  cases matcher with
  | tool => rfl
  | command pattern =>
    have hpattern := @readPattern_of_ne .emptyCommandPattern pattern h
    simp only [readStoredMatcher, storedMatcher, JsValue.get, JsValue.lookup, JsValue.isText,
      JsValue.isUndefined]
    simp only [String.reduceEq, decide_false, Bool.false_eq_true, decide_true, if_false, if_true,
      Bool.not_false, Bool.and_true, hpattern]
    rfl
  | path pattern actions =>
    have hpattern := @readPattern_of_ne .emptyPathPattern pattern h
    have hactions := mapM_readPermissionAction (storedActions actions)
    have hne := storedActions_ne_nil actions
    simp only [readStoredMatcher, storedMatcher, JsValue.get, JsValue.lookup, JsValue.isText,
      JsValue.isUndefined]
    simp only [String.reduceEq, decide_false, Bool.false_eq_true, decide_true, if_false, if_true,
      Bool.not_false, Bool.and_true, hpattern]
    cases hstored : storedActions actions with
    | nil => exact absurd hstored hne
    | cons action rest =>
      rw [hstored] at hactions
      simp only [List.map_cons] at hactions ⊢
      simp only [restoredMatcher, hstored]
      show (do
        let actions ← List.mapM readPermissionAction _
        return PermissionRuleMatcher.path pattern (some actions.eraseDups)) = _
      rw [hactions]
      rfl

/-- A rule that can be stored is read back. -/
theorem readStoredRule_of_storable (h : Storable value) :
    readStoredRule (ruleValueToStoredRule value) = .ok (storedValue value) := by
  obtain ⟨htool, hpattern⟩ := storable_iff.1 h
  have hdefined : (storedMatcher (matcherOf value)).isUndefined = false := by
    cases matcherOf value <;> rfl
  have hmatcher : (ruleValueToStoredRule value).get "matcher" = storedMatcher (matcherOf value) := by
    simp [ruleValueToStoredRule, JsValue.get, JsValue.lookup, hdefined]
  have hread : readStoredRule (ruleValueToStoredRule value) = (do
      let matcher ← readStoredMatcher ((ruleValueToStoredRule value).get "matcher")
      return ruleValueOf value.toolName matcher) := if_neg htool
  rw [hread, hmatcher, readStoredMatcher_storedMatcher hpattern, storedValue_eq]
  rfl

theorem readValue_storedValue (value : LocalPermissionRuleValue) : ReadValue (storedValue value) := by
  refine ⟨_, _, storedValue_eq value, ?_⟩
  cases matcherOf value with
  | tool => trivial
  | command pattern => trivial
  | path pattern actions =>
    exact ⟨eraseDups_ne_nil (storedActions_ne_nil actions), nodup_eraseDups_actions _⟩

/-! ### Keys -/

/-- The matcher with its actions in one order. -/
def keyMatcher : LocalPermissionMatcher → LocalPermissionMatcher
  | .path pattern actions =>
    .path pattern (some (allPermissionActions.filter (storedActions actions).contains))
  | matcher => matcher

/-- What tells a rule from others once they were stored. -/
def key (value : LocalPermissionRuleValue) : String × LocalPermissionMatcher :=
  (value.toolName, keyMatcher (matcherOf value))

theorem storedActions_some {actions : List LocalPermissionAction} (h : actions ≠ []) :
    storedActions (some actions) = actions := by
  cases actions with
  | nil => exact absurd rfl h
  | cons action actions => rfl

theorem contains_congr {l l' : List LocalPermissionAction} (h : ∀ action, action ∈ l ↔ action ∈ l') :
    l.contains = l'.contains := by
  funext action
  rw [Bool.eq_iff_iff, List.contains_iff_mem, List.contains_iff_mem, h]

theorem keyMatcher_restoredMatcher (matcher : LocalPermissionMatcher) :
    keyMatcher (restoredMatcher matcher) = keyMatcher matcher := by
  cases matcher with
  | tool => rfl
  | command pattern => rfl
  | path pattern actions =>
    have hstored := storedActions_some (eraseDups_ne_nil (storedActions_ne_nil actions))
    simp only [restoredMatcher, keyMatcher, hstored]
    rw [contains_congr fun action => List.mem_eraseDups]

@[simp] theorem key_storedValue (value : LocalPermissionRuleValue) :
    key (storedValue value) = key value := by
  rw [key, storedValue_eq, toolName_ruleValueOf, matcherOf_ruleValueOf, keyMatcher_restoredMatcher,
    key]

theorem mem_allPermissionActions (action : LocalPermissionAction) :
    action ∈ allPermissionActions := by
  cases action <;> decide

theorem filter_contains_inj {l l' : List LocalPermissionAction} :
    allPermissionActions.filter l.contains = allPermissionActions.filter l'.contains ↔
      ∀ action, action ∈ l ↔ action ∈ l' := by
  constructor
  · intro h action
    have hmem : action ∈ allPermissionActions.filter l.contains ↔
        action ∈ allPermissionActions.filter l'.contains := by rw [h]
    simpa [mem_allPermissionActions] using hmem
  · intro h
    rw [contains_congr h]

theorem sameActions_iff {l l' : List LocalPermissionAction} (hl : l.Nodup) (hl' : l'.Nodup) :
    sameActions (some l) (some l') = true ↔ ∀ action, action ∈ l ↔ action ∈ l' := by
  simp only [sameActions, Bool.and_eq_true, decide_eq_true_eq, List.all_eq_true,
    List.contains_iff_mem]
  constructor
  · rintro ⟨hlength, hsub⟩ action
    have hperm := (List.subperm_of_subset hl hsub).perm_of_length_le hlength.ge
    exact hperm.mem_iff
  · intro h
    exact ⟨((List.perm_ext_iff_of_nodup hl hl').2 h).length_eq, fun action => (h action).1⟩

/-- Rules are equal once they were stored where they have one key. -/
theorem storedEqual_iff : StoredEqual a b ↔ key a = key b := by
  unfold StoredEqual key
  rw [storedValue_eq, storedValue_eq, ruleValuesEqual]
  simp only [toolName_ruleValueOf, matcherOf_ruleValueOf, Bool.and_eq_true, decide_eq_true_eq,
    Prod.mk.injEq]
  refine and_congr Iff.rfl ?_
  cases matcherOf a with
  | tool => cases matcherOf b <;> simp [restoredMatcher, keyMatcher]
  | command pattern => cases matcherOf b <;> simp [restoredMatcher, keyMatcher]
  | path pattern actions =>
    cases matcherOf b with
    | tool => simp [restoredMatcher, keyMatcher]
    | command pattern' => simp [restoredMatcher, keyMatcher]
    | path pattern' actions' =>
      simp only [restoredMatcher, keyMatcher, Bool.and_eq_true, decide_eq_true_eq,
        PermissionRuleMatcher.path.injEq, Option.some.injEq, filter_contains_inj,
        sameActions_iff (nodup_eraseDups_actions _) (nodup_eraseDups_actions _),
        List.mem_eraseDups]

/-- Rules that are equal have one key. -/
theorem key_eq_of_equal (ha : ReadValue a) (hb : ReadValue b) (h : ruleValuesEqual a b = true) :
    key a = key b := by
  obtain ⟨toolName, matcher, rfl, hlisted⟩ := ha
  obtain ⟨toolName', matcher', rfl, hlisted'⟩ := hb
  unfold ruleValuesEqual at h
  simp only [toolName_ruleValueOf, matcherOf_ruleValueOf, Bool.and_eq_true,
    decide_eq_true_eq] at h
  obtain ⟨rfl, h⟩ := h
  simp only [key, toolName_ruleValueOf, matcherOf_ruleValueOf, Prod.mk.injEq, true_and]
  cases matcher with
  | tool => cases matcher' <;> simp_all [keyMatcher]
  | command pattern => cases matcher' <;> simp_all [keyMatcher]
  | path pattern actions =>
    cases matcher' with
    | tool => simp at h
    | command pattern' => simp at h
    | path pattern' actions' =>
      simp only [Bool.and_eq_true, decide_eq_true_eq] at h
      obtain ⟨rfl, hsame⟩ := h
      cases actions with
      | none =>
        cases actions' with
        | none => rfl
        | some actions' => cases hsame
      | some actions =>
        cases actions' with
        | none => cases hsame
        | some actions' =>
          rw [sameActions_iff hlisted.2 hlisted'.2] at hsame
          simp only [keyMatcher, storedActions_some hlisted.1, storedActions_some hlisted'.1]
          rw [filter_contains_inj.2 hsame]

/-! ### What a key matches -/

section

variable (platform : MatchPlatform) {toolName : String} {input : JsValue}

/-- The call is for the tool of the key, and its matcher matches. -/
def keyMatches (key : String × LocalPermissionMatcher) (toolName : String) (input : JsValue) : Bool :=
  permissionToolMatches key.1 toolName && structuredMatcherMatches platform key.2 toolName input

theorem ruleMatches_of_readValue {rule : LocalPermissionRule} (h : ReadValue rule.ruleValue) :
    ruleMatches platform rule toolName input =
      keyMatches platform (rule.ruleValue.toolName, matcherOf rule.ruleValue) toolName input := by
  obtain ⟨ruleTool, matcher, hvalue, -⟩ := h
  rw [ruleMatches, keyMatches, hvalue]
  simp

/-- The tool of a rule that is for a tool with an action has one. -/
theorem action_isSome {ruleTool : String} (htool : permissionToolMatches ruleTool toolName = true)
    (haction : (permissionInputAction ruleTool).isSome = true) :
    (permissionInputAction toolName).isSome = true := by
  simp only [permissionToolMatches, Bool.or_eq_true, Bool.and_eq_true, decide_eq_true_eq] at htool
  rcases htool with rfl | ⟨rfl, -⟩
  · exact haction
  · exact absurd haction (by decide)

/-- A value matches what its key does, if it is for a tool with an action where it says none. -/
theorem keyMatches_key (h : ReadValue value) (hacting : Acting value) :
    keyMatches platform (value.toolName, matcherOf value) toolName input =
      keyMatches platform (key value) toolName input := by
  obtain ⟨ruleTool, matcher, rfl, hlisted⟩ := h
  unfold Acting at hacting
  simp only [keyMatches, key, toolName_ruleValueOf, matcherOf_ruleValueOf] at hacting ⊢
  cases htool : permissionToolMatches ruleTool toolName with
  | false => rfl
  | true =>
    rw [Bool.true_and, Bool.true_and]
    cases matcher with
    | tool => rfl
    | command pattern => rfl
    | path pattern actions =>
      simp only [structuredMatcherMatches, keyMatcher]
      cases nonEmpty (permissionInputTarget platform toolName input) with
      | none => rfl
      | some target =>
        dsimp only
        congr 1
        cases actions with
        | none =>
          obtain ⟨action, haction⟩ := Option.isSome_iff_exists.1
            (action_isSome htool (hacting pattern rfl))
          rw [haction]
          cases action <;> rfl
        | some actions =>
          rw [storedActions_some hlisted.1]
          cases permissionInputAction toolName with
          | none => rfl
          | some action =>
            show actions.contains action =
              (allPermissionActions.filter actions.contains).contains action
            rw [Bool.eq_iff_iff]
            simp [mem_allPermissionActions]

theorem acting_storedValue (value : LocalPermissionRuleValue) : Acting (storedValue value) := by
  intro pattern hpattern
  rw [storedValue_eq, matcherOf_ruleValueOf] at hpattern
  cases hmatcher : matcherOf value with
  | tool => simp [hmatcher, restoredMatcher] at hpattern
  | command pattern' => simp [hmatcher, restoredMatcher] at hpattern
  | path pattern' actions => simp [hmatcher, restoredMatcher] at hpattern

/-! ### Decisions -/

/-- Some rule of the behavior matches the call. -/
def matched (rules : List LocalPermissionRule) (behavior : LocalPermissionBehavior)
    (toolName : String) (input : JsValue) : Bool :=
  rules.any fun rule => rule.ruleBehavior = behavior && ruleMatches platform rule toolName input

theorem find_filter_map (rules : List LocalPermissionRule) (behavior : LocalPermissionBehavior)
    (f : LocalPermissionRule → Bool) :
    (((rules.filter f).find? fun rule => rule.ruleBehavior = behavior).map
        LocalPermissionRule.ruleBehavior) =
      if (rules.any fun rule => rule.ruleBehavior = behavior && f rule) = true then some behavior
      else none := by
  cases hfind : (rules.filter f).find? fun rule => rule.ruleBehavior = behavior with
  | none =>
    rw [if_neg]
    · rfl
    · rw [List.any_eq_true]
      rintro ⟨rule, hmem, h⟩
      rw [Bool.and_eq_true, decide_eq_true_eq] at h
      have := List.find?_eq_none.1 hfind rule (List.mem_filter.2 ⟨hmem, h.2⟩)
      simp [h.1] at this
  | some rule =>
    have hbehavior := List.find?_some hfind
    have hmem := List.mem_filter.1 (List.mem_of_find?_eq_some hfind)
    simp only [decide_eq_true_eq] at hbehavior
    rw [if_pos]
    · rw [Option.map_some, hbehavior]
    · exact List.any_eq_true.2 ⟨rule, hmem.1, by simp [hbehavior, hmem.2]⟩

/-- The decision is the strictest behavior of which some rule matches. -/
theorem decision_eq (rules : List LocalPermissionRule) :
    decision platform rules toolName input =
      if matched platform rules .deny toolName input = true then some .deny
      else if matched platform rules .ask toolName input = true then some .ask
      else if matched platform rules .allow toolName input = true then some .allow
      else none := by
  unfold decision selectMatchingRule
  simp only [Option.map_or, find_filter_map]
  unfold matched
  split_ifs <;> rfl

theorem decision_congr {rules rules' : List LocalPermissionRule}
    (h : ∀ behavior, matched platform rules behavior toolName input =
      matched platform rules' behavior toolName input) :
    decision platform rules toolName input = decision platform rules' toolName input := by
  simp only [decision_eq, h]

end

/-! ### The keys of rules -/

/-- The behaviors and the keys of the rules. -/
def entries (rules : List LocalPermissionRule) :
    Set (LocalPermissionBehavior × String × LocalPermissionMatcher) :=
  { entry | ∃ rule ∈ rules, (rule.ruleBehavior, key rule.ruleValue) = entry }

/-- Rules that match what their keys do match by their entries. -/
theorem matched_iff (platform : MatchPlatform) {rules : List LocalPermissionRule}
    {behavior : LocalPermissionBehavior} {toolName : String} {input : JsValue}
    (h : ∀ rule ∈ rules, ReadValue rule.ruleValue ∧ Acting rule.ruleValue) :
    matched platform rules behavior toolName input = true ↔
      ∃ k, (behavior, k) ∈ entries rules ∧ keyMatches platform k toolName input = true := by
  unfold matched entries
  rw [List.any_eq_true]
  constructor
  · rintro ⟨rule, hmem, hmatch⟩
    obtain ⟨hread, hacting⟩ := h rule hmem
    rw [Bool.and_eq_true, decide_eq_true_eq, ruleMatches_of_readValue platform hread,
      keyMatches_key platform hread hacting] at hmatch
    exact ⟨_, ⟨rule, hmem, by rw [hmatch.1]⟩, hmatch.2⟩
  · rintro ⟨k, ⟨rule, hmem, heq⟩, hmatch⟩
    obtain ⟨hread, hacting⟩ := h rule hmem
    obtain ⟨rfl, rfl⟩ := Prod.mk.inj heq
    refine ⟨rule, hmem, ?_⟩
    rw [ruleMatches_of_readValue platform hread, keyMatches_key platform hread hacting, hmatch]
    simp

/-- Rules with the same entries decide alike. -/
theorem decision_of_entries (platform : MatchPlatform) {rules rules' : List LocalPermissionRule}
    (h : ∀ rule ∈ rules, ReadValue rule.ruleValue ∧ Acting rule.ruleValue)
    (h' : ∀ rule ∈ rules', ReadValue rule.ruleValue ∧ Acting rule.ruleValue)
    (hentries : entries rules = entries rules') (toolName : String) (input : JsValue) :
    decision platform rules toolName input = decision platform rules' toolName input := by
  refine decision_congr platform fun behavior => ?_
  rw [Bool.eq_iff_iff, matched_iff platform h, matched_iff platform h', hentries]

end Kinetick.Permission
