import Kinetick.Machine
import Kinetick.Permission.RuleMatch

/-!
# The files of the rules

`rules.ts`: there is a file for the global rules, one for each agent and one for each session. An
update reads its file, changes the rules and writes the file anew, and no other update of the file
comes between. A file of either version is read; which version is written is a setting.
-/

namespace Kinetick.Permission

/-- What a file holds: nothing is there, a text that is no JSON, or a value. -/
inductive PermissionFile
  | absent
  | corrupt
  | value (parsed : JsValue)

def readConfigFile (file : PermissionFile) (source : LocalPermissionRuleSource)
    (destination : String) : Except RuleError (List LocalPermissionRule) :=
  match file with
  | .absent => .ok []
  | .corrupt => .error (.unhealthy .corruptJson source)
  | .value (.object fields) =>
    let record := JsValue.object fields
    match record.get "version" with
    | .undefined => .ok (configV1ToRules record source destination)
    | .number (.finite version) =>
      if version = 2 then
        match configV2ToRules record source destination with
        | .ok rules => .ok rules
        | .error _ => .error (.unhealthy .invalidV2Rule source)
      else .error (.unhealthy .unsupportedVersion source)
    | _ => .error (.unhealthy .unsupportedVersion source)
  | .value _ => .error (.unhealthy .invalidStoreShape source)

inductive WriteVersion
  | one
  | two
  deriving DecidableEq

def writeRules (rules : List LocalPermissionRule) : WriteVersion → PermissionFile
  | .one => .value (rulesToConfigV1 rules)
  | .two => .value (rulesToConfigV2 rules)

/-- `/^[a-z][a-z0-9_-]*$/` -/
def isAgentName (name : String) : Bool :=
  match name.toList with
  | c :: rest => c.isLower && rest.all fun c => c.isLower || c.isDigit || c = '_' || c = '-'
  | [] => false

/-- `/^[a-z0-9_-]+$/i` -/
def isSessionId (id : String) : Bool :=
  id ≠ "" && id.toList.all fun c => c.isAlphanum || c = '_' || c = '-'

/-- The file of a source and a destination. -/
structure FilePath where
  source : LocalPermissionRuleSource
  destination : String
  deriving DecidableEq

def filePath (source : LocalPermissionRuleSource) (destination : String) :
    Except RuleError FilePath :=
  match source with
  | .globalRules =>
    if destination = "global" then .ok ⟨source, destination⟩ else .error .globalDestination
  | .agent =>
    if isAgentName destination then .ok ⟨source, destination⟩
    else .error (.invalidAgentName destination)
  | .session =>
    if isSessionId destination then .ok ⟨source, destination⟩
    else .error (.invalidSessionId destination)

abbrev RuleStore := FilePath → PermissionFile

def RuleStore.read (store : RuleStore) (path : FilePath) :
    Except RuleError (List LocalPermissionRule) :=
  readConfigFile (store path) path.source path.destination

def applyUpdate (version : WriteVersion) (raw : JsValue) (store : RuleStore) :
    Except RuleError RuleStore := do
  let update ← readPermissionUpdate raw
  let path ← filePath update.source update.destination
  let current ← store.read path
  return Function.update store path (writeRules (mutateRules current update) version)

/-- Updates one after another; one that fails changes nothing. -/
def ruleStore (version : WriteVersion) : Machine RuleStore JsValue (Option RuleError) where
  initial := fun _ => .absent
  step store raw :=
    match applyUpdate version raw store with
    | .ok store' => (store', none)
    | .error error => (store, some error)

end Kinetick.Permission

/-!
## What storing rules is to keep

What is decided by the rules of a file is decided by them once they were written and read again. It
is where every rule that is written can be read, and where no path rule without actions is for a
tool that has none: once stored, such a rule is for all actions, and a tool without one matches it
no more. For the same reason such a rule is no longer equal to the one it was made of.
-/

namespace Kinetick.Permission

section

variable (platform : MatchPlatform)

/-- The behavior of the rule that is selected. -/
def decision (rules : List LocalPermissionRule) (toolName : String) (input : JsValue) :
    Option LocalPermissionBehavior :=
  (selectMatchingRule platform rules toolName input).map LocalPermissionRule.ruleBehavior

/-- Both files are read, and their rules decide every call alike. -/
def SameDecisions (store store' : RuleStore) (path : FilePath) : Prop :=
  ∃ rules rules', store.read path = .ok rules ∧ store'.read path = .ok rules' ∧
    ∀ toolName input, decision platform rules toolName input =
      decision platform rules' toolName input

/-- An update that is accepted for a file that is read. -/
def Accepts (store : RuleStore) (raw : JsValue) (update : PermissionUpdateInput) (path : FilePath)
    (rules : List LocalPermissionRule) : Prop :=
  readPermissionUpdate raw = .ok update ∧
    filePath update.source update.destination = .ok path ∧ store.read path = .ok rules

/-- After an update the file is read again, its rules decide as those that were to be written, and a
rule that matched a call has one of its behavior that does. -/
def UpdateKept (store : RuleStore) (raw : JsValue) : Prop :=
  ∀ update path rules, Accepts store raw update path rules →
    ∃ rules', ((ruleStore .two).step store raw).1.read path = .ok rules' ∧
      (∀ toolName input, decision platform rules' toolName input =
        decision platform (mutateRules rules update) toolName input) ∧
      ∀ rule ∈ mutateRules rules update, ∀ toolName input,
        ruleMatches platform rule toolName input = true →
          ∃ rule' ∈ rules', rule'.ruleBehavior = rule.ruleBehavior ∧
            ruleMatches platform rule' toolName input = true

/-- Rules that are added twice decide as rules that are added once. -/
def AddedOnce (store : RuleStore) (raw : JsValue) : Prop :=
  ∀ update path rules, Accepts store raw update path rules → update.type = .addRules →
    SameDecisions platform ((ruleStore .two).after store [raw, raw])
      ((ruleStore .two).after store [raw]) path

/-- The same input, to remove the rules. -/
def removal (raw : JsValue) : JsValue := raw.set "type" (.string "removeRules")

/-- What a rule is read as once it was stored. -/
def storedValue (value : LocalPermissionRuleValue) : LocalPermissionRuleValue :=
  match matcherOf value with
  | .path pattern actions =>
    ruleValueOf value.toolName (.path pattern (some (storedActions actions).eraseDups))
  | matcher => ruleValueOf value.toolName matcher

/-- The rules are one rule once they were stored. -/
def StoredEqual (a b : LocalPermissionRuleValue) : Prop :=
  ruleValuesEqual (storedValue a) (storedValue b) = true

/-- The update puts none of the rules of the other into its file. -/
def Spares (update : PermissionUpdateInput) (path : FilePath) (raw : JsValue) : Prop :=
  ∀ update', readPermissionUpdate raw = .ok update' →
    filePath update'.source update'.destination = .ok path →
    update'.behavior = update.behavior → update'.type ≠ .removeRules →
    ∀ value' ∈ update'.rules, ∀ value ∈ update.rules, ¬ StoredEqual value' value

/-- Rules that were not there, that are added and later removed, leave the decisions that the updates
between make by themselves. -/
def Removed (store : RuleStore) (raw : JsValue) (raws : List JsValue) : Prop :=
  ∀ update path rules, Accepts store raw update path rules → update.type = .addRules →
    (∀ rule ∈ rules, ∀ value ∈ update.rules, isRuleOf update value rule = false) →
    (∀ raw' ∈ raws, Spares update path raw') →
    SameDecisions platform ((ruleStore .two).after store (raw :: raws ++ [removal raw]))
      ((ruleStore .two).after store raws) path

end

/-! ### Conditions -/

/-- The tool is named, and a pattern is not blank. -/
def Storable (value : LocalPermissionRuleValue) : Prop :=
  jsTrim value.toolName ≠ "" ∧
    match matcherOf value with
    | .tool => True
    | .command pattern => jsTrim pattern ≠ ""
    | .path pattern _ => jsTrim pattern ≠ ""

/-- A path rule that says no actions is for a tool that has one. -/
def Acting (value : LocalPermissionRuleValue) : Prop :=
  ∀ pattern, matcherOf value = .path pattern none →
    (permissionInputAction value.toolName).isSome = true

/-- Every rule that the update leaves can be stored. -/
def LeavesStorable (store : RuleStore) (raw : JsValue) : Prop :=
  ∀ update path rules, Accepts store raw update path rules →
    ∀ rule ∈ mutateRules rules update, Storable rule.ruleValue

/-- And is for no tool without an action, if it is a path rule that says none. -/
def LeavesActing (store : RuleStore) (raw : JsValue) : Prop :=
  ∀ update path rules, Accepts store raw update path rules →
    ∀ rule ∈ mutateRules rules update, Acting rule.ruleValue

/-- Rules of the file and of the update are equal if they are once they were stored. -/
def Consistent (store : RuleStore) (raw : JsValue) : Prop :=
  ∀ update path rules, Accepts store raw update path rules →
    ∀ rule ∈ rules, rule.ruleBehavior = update.behavior → ∀ value ∈ update.rules,
      StoredEqual rule.ruleValue value → ruleValuesEqual rule.ruleValue value = true

/-- The update goes through a file of the second version without a loss. -/
structure Lossless (store : RuleStore) (raw : JsValue) : Prop where
  storable : LeavesStorable store raw
  acting : LeavesActing store raw
  consistent : Consistent store raw

/-! ### The conditions are decided -/

/-- What is said of an update that is accepted is decided on the update. -/
def decidableAccepts {P : PermissionUpdateInput → FilePath → List LocalPermissionRule → Prop}
    [∀ update path rules, Decidable (P update path rules)] (store : RuleStore) (raw : JsValue) :
    Decidable (∀ update path rules, Accepts store raw update path rules → P update path rules) :=
  match hupdate : readPermissionUpdate raw with
  | .error _ => .isTrue fun update path rules h => by
      rw [h.1] at hupdate
      cases hupdate
  | .ok update =>
    match hpath : filePath update.source update.destination with
    | .error _ => .isTrue fun update' path rules h => by
        obtain rfl := Except.ok.inj (hupdate.symm.trans h.1)
        rw [h.2.1] at hpath
        cases hpath
    | .ok path =>
      match hread : store.read path with
      | .error _ => .isTrue fun update' path' rules h => by
          obtain rfl := Except.ok.inj (hupdate.symm.trans h.1)
          obtain rfl := Except.ok.inj (hpath.symm.trans h.2.1)
          rw [h.2.2] at hread
          cases hread
      | .ok rules =>
        decidable_of_iff (P update path rules) ⟨fun hP update' path' rules' h => by
          obtain rfl := Except.ok.inj (hupdate.symm.trans h.1)
          obtain rfl := Except.ok.inj (hpath.symm.trans h.2.1)
          obtain rfl := Except.ok.inj (hread.symm.trans h.2.2)
          exact hP, fun h => h update path rules ⟨hupdate, hpath, hread⟩⟩

instance (value : LocalPermissionRuleValue) : Decidable (Storable value) := by
  unfold Storable
  split <;> infer_instance

/-- The pattern of a path matcher that says no actions. -/
def actionless : LocalPermissionMatcher → Option String
  | .path pattern none => some pattern
  | _ => none

theorem actionless_eq_some {matcher : LocalPermissionMatcher} {pattern : String} :
    actionless matcher = some pattern ↔ matcher = .path pattern none := by
  unfold actionless
  split <;> simp_all

instance (value : LocalPermissionRuleValue) : Decidable (Acting value) :=
  decidable_of_iff ((actionless (matcherOf value)).isSome = true →
      (permissionInputAction value.toolName).isSome = true) (by
    simp only [Acting, ← actionless_eq_some, Option.isSome_iff_exists, forall_exists_index])

instance (a b : LocalPermissionRuleValue) : Decidable (StoredEqual a b) :=
  inferInstanceAs (Decidable (_ = _))

instance (store : RuleStore) (raw : JsValue) : Decidable (Lossless store raw) :=
  have : Decidable (LeavesStorable store raw) :=
    @decidableAccepts (fun update _ rules => ∀ rule ∈ mutateRules rules update,
      Storable rule.ruleValue) _ store raw
  have : Decidable (LeavesActing store raw) :=
    @decidableAccepts (fun update _ rules => ∀ rule ∈ mutateRules rules update,
      Acting rule.ruleValue) _ store raw
  have : Decidable (Consistent store raw) := @decidableAccepts (fun update _ rules => ∀ rule ∈ rules,
    rule.ruleBehavior = update.behavior → ∀ value ∈ update.rules,
      StoredEqual rule.ruleValue value → ruleValuesEqual rule.ruleValue value = true) _ store raw
  decidable_of_iff (LeavesStorable store raw ∧ LeavesActing store raw ∧ Consistent store raw)
    ⟨fun h => ⟨h.1, h.2.1, h.2.2⟩, fun h => ⟨h.storable, h.acting, h.consistent⟩⟩

end Kinetick.Permission
