import Kinetick.Proofs.RuleValues

/-!
# Updates of the rules

By its entries an update adds to the rules, takes from them or replaces those of a behavior, and
writing and reading the rules leaves the entries. So the decisions are kept, what is added twice is
added once, and what is added and removed is as if it had not been, whatever was done between.
-/

namespace Kinetick.Permission

variable {rules : List LocalPermissionRule} {update : PermissionUpdateInput}

/-! ### Entries after an update -/

/-- The entries that the update is about. -/
def changed (update : PermissionUpdateInput) :
    Set (LocalPermissionBehavior × String × LocalPermissionMatcher) :=
  { entry | ∃ value ∈ update.rules, (update.behavior, key value) = entry }

/-- Rules as they are read. -/
def ReadRules (rules : List LocalPermissionRule) : Prop :=
  ∀ rule ∈ rules, ReadValue rule.ruleValue

def ReadUpdate (update : PermissionUpdateInput) : Prop := ∀ value ∈ update.rules, ReadValue value

theorem isRuleOf_iff {value : LocalPermissionRuleValue} {rule : LocalPermissionRule} :
    isRuleOf update value rule = true ↔
      rule.ruleBehavior = update.behavior ∧ ruleValuesEqual rule.ruleValue value = true := by
  simp [isRuleOf]

theorem entries_append (a b : List LocalPermissionRule) :
    entries (a ++ b) = entries a ∪ entries b := by
  ext entry
  simp only [entries, List.mem_append, Set.mem_ofPred_eq, Set.mem_union]
  constructor
  · rintro ⟨rule, hmem | hmem, heq⟩
    · exact Or.inl ⟨rule, hmem, heq⟩
    · exact Or.inr ⟨rule, hmem, heq⟩
  · rintro (⟨rule, hmem, heq⟩ | ⟨rule, hmem, heq⟩)
    · exact ⟨rule, Or.inl hmem, heq⟩
    · exact ⟨rule, Or.inr hmem, heq⟩

theorem ReadRules.append {a b : List LocalPermissionRule} (ha : ReadRules a) (hb : ReadRules b) :
    ReadRules (a ++ b) := by
  intro rule hmem
  rcases List.mem_append.1 hmem with hmem | hmem
  · exact ha rule hmem
  · exact hb rule hmem

theorem addRule_spec (hrules : ReadRules rules) {value : LocalPermissionRuleValue}
    (hvalue : ReadValue value) : ReadRules (addRule update rules value) ∧
      entries (addRule update rules value) = entries rules ∪ {(update.behavior, key value)} := by
  unfold addRule
  split_ifs with hany
  · refine ⟨hrules, (Set.union_eq_left.2 ?_).symm⟩
    obtain ⟨rule, hmem, hrule⟩ := List.any_eq_true.1 hany
    rw [isRuleOf_iff] at hrule
    rintro entry rfl
    exact ⟨rule, hmem, by rw [hrule.1, key_eq_of_equal (hrules rule hmem) hvalue hrule.2]⟩
  · constructor
    · refine hrules.append fun rule hmem => ?_
      rw [List.mem_singleton.1 hmem]
      exact hvalue
    · rw [entries_append]
      refine congrArg _ (Set.ext fun entry => ?_)
      simp [entries, buildRule, eq_comm]

theorem foldl_addRule_spec (values : List LocalPermissionRuleValue) (hrules : ReadRules rules)
    (hvalues : ∀ value ∈ values, ReadValue value) :
    ReadRules (values.foldl (addRule update) rules) ∧
      entries (values.foldl (addRule update) rules) =
        entries rules ∪ { entry | ∃ value ∈ values, (update.behavior, key value) = entry } := by
  induction values generalizing rules with
  | nil => exact ⟨hrules, by simp⟩
  | cons value values ih =>
    rw [List.forall_mem_cons] at hvalues
    obtain ⟨hread, hentries⟩ := @addRule_spec _ update hrules _ hvalues.1
    obtain ⟨hread', hentries'⟩ := ih hread hvalues.2
    refine ⟨hread', ?_⟩
    rw [List.foldl_cons, hentries', hentries, Set.union_assoc]
    refine congrArg _ (Set.ext fun entry => ?_)
    simp [eq_comm]

/-- What an update makes of the entries, where rules are equal if they are once they were stored. -/
def updated (update : PermissionUpdateInput)
    (E : Set (LocalPermissionBehavior × String × LocalPermissionMatcher)) :
    Set (LocalPermissionBehavior × String × LocalPermissionMatcher) :=
  match update.type with
  | .addRules => E ∪ changed update
  | .removeRules => E \ changed update
  | .replaceRules => { entry ∈ E | entry.1 ≠ update.behavior } ∪ changed update

/-- Rules of the file and of the update are equal if they are once they were stored. -/
def EqualAsStored (rules : List LocalPermissionRule) (update : PermissionUpdateInput) : Prop :=
  ∀ rule ∈ rules, rule.ruleBehavior = update.behavior → ∀ value ∈ update.rules,
    StoredEqual rule.ruleValue value → ruleValuesEqual rule.ruleValue value = true

theorem readRules_mutateRules (hrules : ReadRules rules) (hupdate : ReadUpdate update) :
    ReadRules (mutateRules rules update) := by
  unfold mutateRules
  split
  · refine ReadRules.append (fun rule hmem => hrules rule (List.mem_filter.1 hmem).1) ?_
    intro rule hmem
    obtain ⟨value, hvalue, rfl⟩ := List.mem_map.1 hmem
    exact hupdate value hvalue
  · exact fun rule hmem => hrules rule (List.mem_filter.1 hmem).1
  · exact (foldl_addRule_spec update.rules hrules hupdate).1

/-- An update changes the entries as it says. -/
theorem entries_mutateRules (hrules : ReadRules rules) (hupdate : ReadUpdate update)
    (hequal : update.type = .removeRules → EqualAsStored rules update) :
    entries (mutateRules rules update) = updated update (entries rules) := by
  unfold mutateRules updated
  cases htype : update.type with
  | addRules => exact (foldl_addRule_spec update.rules hrules hupdate).2
  | replaceRules =>
    dsimp only
    rw [entries_append]
    refine congrArg₂ _ (Set.ext fun entry => ?_) (Set.ext fun entry => ?_)
    · simp only [entries, List.mem_filter, decide_eq_true_eq, Set.mem_ofPred_eq]
      constructor
      · rintro ⟨rule, ⟨hmem, hne⟩, rfl⟩
        exact ⟨⟨rule, hmem, rfl⟩, hne⟩
      · rintro ⟨⟨rule, hmem, rfl⟩, hne⟩
        exact ⟨rule, ⟨hmem, hne⟩, rfl⟩
    · simp [entries, changed, buildRule]
  | removeRules =>
    dsimp only
    ext entry
    simp only [entries, changed, List.mem_filter, Set.mem_ofPred_eq, Set.mem_sdiff]
    constructor
    · rintro ⟨rule, ⟨hmem, hkeep⟩, rfl⟩
      refine ⟨⟨rule, hmem, rfl⟩, ?_⟩
      rintro ⟨value, hvalue, heq⟩
      obtain ⟨hbehavior, hkey⟩ := Prod.mk.inj heq
      have hsame := hequal htype rule hmem hbehavior.symm value hvalue
        (storedEqual_iff.2 hkey.symm)
      rw [Bool.not_eq_true', List.any_eq_false] at hkeep
      exact hkeep value hvalue (isRuleOf_iff.2 ⟨hbehavior.symm, hsame⟩)
    · rintro ⟨⟨rule, hmem, rfl⟩, hnot⟩
      refine ⟨rule, ⟨hmem, ?_⟩, rfl⟩
      rw [Bool.not_eq_true', List.any_eq_false]
      intro value hvalue hrule
      rw [isRuleOf_iff] at hrule
      refine hnot ⟨value, hvalue, ?_⟩
      rw [hrule.1, key_eq_of_equal (hrules rule hmem) (hupdate value hvalue) hrule.2]

/-! ### Files that are written and read -/

/-- The rules of a behavior as they are read once they were written. -/
def restoredOf (rules : List LocalPermissionRule) (source : LocalPermissionRuleSource)
    (destination : String) (behavior : LocalPermissionBehavior) : List LocalPermissionRule :=
  (valuesOf rules behavior).map fun value => ⟨source, behavior, storedValue value, destination⟩

def restored (rules : List LocalPermissionRule) (source : LocalPermissionRuleSource)
    (destination : String) : List LocalPermissionRule :=
  restoredOf rules source destination .allow ++ restoredOf rules source destination .deny ++
    restoredOf rules source destination .ask

theorem mem_restored {source : LocalPermissionRuleSource} {destination : String}
    {rule : LocalPermissionRule} : rule ∈ restored rules source destination ↔
      ∃ rule' ∈ rules,
        (⟨source, rule'.ruleBehavior, storedValue rule'.ruleValue, destination⟩ :
          LocalPermissionRule) = rule := by
  simp only [restored, restoredOf, valuesOf, List.mem_append, List.mem_map, List.mem_filter, decide_eq_true_eq,
    or_assoc]
  constructor
  · rintro (h | h | h)
    all_goals
      obtain ⟨_, ⟨rule', ⟨hmem, hbehavior⟩, rfl⟩, rfl⟩ := h
      exact ⟨rule', hmem, by rw [hbehavior]⟩
  · rintro ⟨rule', hmem, rfl⟩
    cases hbehavior : rule'.ruleBehavior with
    | allow => exact Or.inl ⟨_, ⟨rule', ⟨hmem, hbehavior⟩, rfl⟩, rfl⟩
    | deny => exact Or.inr (Or.inl ⟨_, ⟨rule', ⟨hmem, hbehavior⟩, rfl⟩, rfl⟩)
    | ask => exact Or.inr (Or.inr ⟨_, ⟨rule', ⟨hmem, hbehavior⟩, rfl⟩, rfl⟩)

theorem entries_restored (rules : List LocalPermissionRule) (source : LocalPermissionRuleSource)
    (destination : String) : entries (restored rules source destination) = entries rules := by
  ext entry
  simp only [entries, mem_restored, Set.mem_ofPred_eq]
  constructor
  · rintro ⟨_, ⟨rule', hmem, rfl⟩, rfl⟩
    exact ⟨rule', hmem, by rw [key_storedValue]⟩
  · rintro ⟨rule', hmem, rfl⟩
    exact ⟨_, ⟨rule', hmem, rfl⟩, by rw [key_storedValue]⟩

theorem readValue_restored {source : LocalPermissionRuleSource} {destination : String}
    {rule : LocalPermissionRule} (h : rule ∈ restored rules source destination) :
    ReadValue rule.ruleValue ∧ Acting rule.ruleValue := by
  obtain ⟨rule', -, rfl⟩ := mem_restored.1 h
  exact ⟨readValue_storedValue _, acting_storedValue _⟩

theorem mapM_readStoredRule (values : List LocalPermissionRuleValue)
    (h : ∀ value ∈ values, Storable value) :
    (values.map ruleValueToStoredRule).mapM readStoredRule = .ok (values.map storedValue) := by
  induction values with
  | nil => rfl
  | cons value values ih =>
    rw [List.forall_mem_cons] at h
    rw [List.map_cons, List.mapM_cons, readStoredRule_of_storable h.1, ih h.2]
    rfl

theorem storedRulesToRules_valuesOf (h : ∀ rule ∈ rules, Storable rule.ruleValue)
    (source : LocalPermissionRuleSource) (destination : String)
    (behavior : LocalPermissionBehavior) :
    storedRulesToRules (.array ((valuesOf rules behavior).map ruleValueToStoredRule)) source
      destination behavior = .ok (restoredOf rules source destination behavior) := by
  have hvalues : ∀ value ∈ valuesOf rules behavior, Storable value := by
    intro value hmem
    obtain ⟨rule, hrule, rfl⟩ := List.mem_map.1 hmem
    exact h rule (List.mem_filter.1 hrule).1
  rw [storedRulesToRules, mapM_readStoredRule _ hvalues]
  show Except.ok _ = _
  rw [List.map_map]
  rfl

/-- Rules that can be stored are read once they were written. -/
theorem read_writeRules (h : ∀ rule ∈ rules, Storable rule.ruleValue)
    (source : LocalPermissionRuleSource) (destination : String) :
    readConfigFile (writeRules rules .two) source destination =
      .ok (restored rules source destination) := by
  have hconfig : configV2ToRules (rulesToConfigV2 rules) source destination =
      .ok (restored rules source destination) := by
    have hget behavior := storedRulesToRules_valuesOf h source destination behavior
    show (do
      let allow ← storedRulesToRules
        (.array ((valuesOf rules .allow).map ruleValueToStoredRule)) source destination .allow
      let deny ← storedRulesToRules
        (.array ((valuesOf rules .deny).map ruleValueToStoredRule)) source destination .deny
      let ask ← storedRulesToRules
        (.array ((valuesOf rules .ask).map ruleValueToStoredRule)) source destination .ask
      return allow ++ deny ++ ask) = _
    rw [hget, hget, hget]
    rfl
  have hversion : (rulesToConfigV2 rules).get "version" = .number (.finite 2) := rfl
  unfold rulesToConfigV2 at hconfig hversion
  simp only [readConfigFile, writeRules, rulesToConfigV2, hversion, hconfig, if_true]

theorem readRules_ruleStrings (texts : Option (List String)) (source : LocalPermissionRuleSource)
    (destination : String) (behavior : LocalPermissionBehavior) :
    ReadRules (ruleStringsToRules texts source destination behavior) := by
  intro rule hmem
  obtain ⟨raw, -, rfl⟩ := List.mem_map.1 hmem
  exact readValue_parseRuleString raw

theorem forall_of_mapM {α β : Type} {f : α → Except RuleError β} {P : β → Prop}
    (hf : ∀ a b, f a = .ok b → P b) {l : List α} {bs : List β} (h : l.mapM f = .ok bs) :
    ∀ b ∈ bs, P b := by
  induction l generalizing bs with
  | nil =>
    rw [← Except.ok.inj h]
    exact fun b hb => absurd hb List.not_mem_nil
  | cons a l ih =>
    rw [List.mapM_cons] at h
    obtain ⟨b, hb, h⟩ := bind_eq_ok.1 h
    obtain ⟨bs', hbs', h⟩ := bind_eq_ok.1 h
    rw [← Except.ok.inj h]
    exact List.forall_mem_cons.2 ⟨hf a b hb, ih hbs'⟩

theorem readRules_storedRules {value : JsValue} {source : LocalPermissionRuleSource}
    {destination : String} {behavior : LocalPermissionBehavior}
    (h : storedRulesToRules value source destination behavior = .ok rules) : ReadRules rules := by
  unfold storedRulesToRules at h
  split at h
  · rw [← Except.ok.inj h]
    exact fun rule hmem => absurd hmem List.not_mem_nil
  · obtain ⟨values, hvalues, h⟩ := bind_eq_ok.1 h
    rw [← Except.ok.inj h]
    intro rule hmem
    obtain ⟨value, hvalue, rfl⟩ := List.mem_map.1 hmem
    exact forall_of_mapM (fun raw value => readValue_readStoredRule) hvalues value hvalue
  · cases h

/-- The rules of a file are as they are read. -/
theorem readRules_readConfigFile {file : PermissionFile} {source : LocalPermissionRuleSource}
    {destination : String} (h : readConfigFile file source destination = .ok rules) :
    ReadRules rules := by
  unfold readConfigFile at h
  split at h
  · rw [← Except.ok.inj h]
    exact fun rule hmem => absurd hmem List.not_mem_nil
  · cases h
  · dsimp only at h
    split at h
    · rw [← Except.ok.inj h]
      exact ReadRules.append (ReadRules.append (readRules_ruleStrings _ _ _ _)
        (readRules_ruleStrings _ _ _ _)) (readRules_ruleStrings _ _ _ _)
    · split_ifs at h
      split at h
      · rename_i hconfig
        rw [Except.ok.inj h] at hconfig
        obtain ⟨allow, hallow, hconfig⟩ := bind_eq_ok.1 hconfig
        obtain ⟨deny, hdeny, hconfig⟩ := bind_eq_ok.1 hconfig
        obtain ⟨ask, hask, hconfig⟩ := bind_eq_ok.1 hconfig
        rw [← Except.ok.inj hconfig]
        exact ((readRules_storedRules hallow).append (readRules_storedRules hdeny)).append
          (readRules_storedRules hask)
      · cases h
    · cases h
  · cases h

/-- What an update is read from. -/
theorem readPermissionUpdate_eq_ok {raw : JsValue} : readPermissionUpdate raw = .ok update ↔
    readUpdateType (raw.get "type") = .ok update.type ∧
      readRuleSource (raw.get "source") = .ok update.source ∧
      readDestination (raw.get "destination") = .ok update.destination ∧
      readRuleBehavior (raw.get "behavior") = .ok update.behavior ∧
      ∃ rules, raw.get "rules" = .array rules ∧ rules ≠ [] ∧
        rules.mapM readRuleValue = .ok update.rules := by
  unfold readPermissionUpdate
  simp only [bind_eq_ok]
  constructor
  · rintro ⟨type, htype, source, hsource, destination, hdestination, behavior, hbehavior, h⟩
    split at h
    · cases h
    · rename_i rules hne hrules
      obtain ⟨values, hvalues, h⟩ := bind_eq_ok.1 h
      rw [← Except.ok.inj h]
      exact ⟨htype, hsource, hdestination, hbehavior, rules, hrules, fun hnil => hne hnil, hvalues⟩
    · cases h
  · rintro ⟨htype, hsource, hdestination, hbehavior, rules, hrules, hne, hvalues⟩
    refine ⟨_, htype, _, hsource, _, hdestination, _, hbehavior, ?_⟩
    rw [hrules]
    cases rules with
    | nil => exact absurd rfl hne
    | cons rule rules =>
      dsimp only
      rw [hvalues]
      rfl

theorem readUpdate_readPermissionUpdate {raw : JsValue}
    (h : readPermissionUpdate raw = .ok update) : ReadUpdate update := by
  obtain ⟨-, -, -, -, rules, -, -, hvalues⟩ := readPermissionUpdate_eq_ok.1 h
  exact forall_of_mapM (fun raw value => readValue_readRuleValue) hvalues

/-! ### One update -/

section

variable {store : RuleStore} {raw : JsValue} {path : FilePath}

/-- What an update that is accepted makes of the files. -/
theorem step_of_accepts (h : Accepts store raw update path rules) :
    ((ruleStore .two).step store raw).1 =
      Function.update store path (writeRules (mutateRules rules update) .two) := by
  obtain ⟨hupdate, hpath, hread⟩ := h
  have happly : applyUpdate .two raw store =
      .ok (Function.update store path (writeRules (mutateRules rules update) .two)) := by
    unfold applyUpdate
    rw [hupdate]
    show (do
      let path ← filePath update.source update.destination
      let current ← store.read path
      return Function.update store path (writeRules (mutateRules current update) .two)) = _
    rw [hpath]
    show (do
      let current ← store.read path
      return Function.update store path (writeRules (mutateRules current update) .two)) = _
    rw [hread]
    rfl
  simp [ruleStore, happly]

/-- The rules that are read of the file after an update. -/
theorem read_step (h : Accepts store raw update path rules)
    (hstorable : ∀ rule ∈ mutateRules rules update, Storable rule.ruleValue) :
    ((ruleStore .two).step store raw).1.read path =
      .ok (restored (mutateRules rules update) path.source path.destination) := by
  rw [step_of_accepts h, RuleStore.read, Function.update_self]
  exact read_writeRules hstorable _ _

theorem Accepts.readRules (h : Accepts store raw update path rules) : ReadRules rules :=
  readRules_readConfigFile h.2.2

theorem Accepts.readUpdate (h : Accepts store raw update path rules) : ReadUpdate update :=
  readUpdate_readPermissionUpdate h.1

/-- An update keeps the decisions. -/
theorem updateKept_of (platform : MatchPlatform) (hstorable : LeavesStorable store raw)
    (hacting : LeavesActing store raw) : UpdateKept platform store raw := by
  intro update path rules h
  have hread := readRules_mutateRules h.readRules h.readUpdate
  have hgood : ∀ rule ∈ mutateRules rules update, ReadValue rule.ruleValue ∧
      Acting rule.ruleValue :=
    fun rule hmem => ⟨hread rule hmem, hacting update path rules h rule hmem⟩
  have hentries := entries_restored (mutateRules rules update) path.source path.destination
  refine ⟨_, read_step h (hstorable update path rules h), ?_, ?_⟩
  · exact decision_of_entries platform (fun rule hmem => readValue_restored hmem) hgood hentries
  · intro rule hmem toolName input hmatch
    have hmatched : matched platform (mutateRules rules update) rule.ruleBehavior toolName input =
        true := List.any_eq_true.2 ⟨rule, hmem, by simp [hmatch]⟩
    rw [matched_iff platform hgood, ← hentries,
      ← matched_iff platform fun rule hmem => readValue_restored hmem] at hmatched
    obtain ⟨rule', hmem', hrule'⟩ := List.any_eq_true.1 hmatched
    rw [Bool.and_eq_true, decide_eq_true_eq] at hrule'
    exact ⟨rule', hmem', hrule'⟩

/-- Whether a rule can be stored is told by its key. -/
theorem storable_of_key {a b : LocalPermissionRuleValue} (h : key a = key b) (hb : Storable b) :
    Storable a := by
  obtain ⟨htool, hmatcher⟩ := Prod.mk.inj h
  rw [storable_iff] at hb ⊢
  refine ⟨htool ▸ hb.1, ?_⟩
  have hpatterned : ∀ matcher, Patterned matcher ↔ Patterned (keyMatcher matcher) := by
    intro matcher
    cases matcher <;> rfl
  rw [hpatterned, hmatcher, ← hpatterned]
  exact hb.2

theorem storable_of_entries {rules' : List LocalPermissionRule}
    (h : ∀ rule ∈ rules, Storable rule.ruleValue) (hentries : entries rules' ⊆ entries rules) :
    ∀ rule ∈ rules', Storable rule.ruleValue := by
  intro rule hmem
  obtain ⟨rule', hmem', heq⟩ := hentries ⟨rule, hmem, rfl⟩
  exact storable_of_key (Prod.mk.inj heq).2.symm (h rule' hmem')

/-- Rules that are added twice decide as rules that are added once. -/
theorem addedOnce_of (platform : MatchPlatform) (hstorable : LeavesStorable store raw) :
    AddedOnce platform store raw := by
  intro update path rules h htype
  have hread := read_step h (hstorable update path rules h)
  have hnext := entries_mutateRules h.readRules h.readUpdate (fun hremove => by
    rw [htype] at hremove
    cases hremove)
  have h' : Accepts ((ruleStore .two).step store raw).1 raw update path _ := ⟨h.1, h.2.1, hread⟩
  have hentries : entries (mutateRules (restored (mutateRules rules update) path.source
      path.destination) update) = entries (mutateRules rules update) := by
    rw [entries_mutateRules h'.readRules h'.readUpdate (fun hremove => by
      rw [htype] at hremove
      cases hremove), entries_restored, hnext]
    simp only [updated, htype, Set.union_assoc, Set.union_self]
  have hstorable' := storable_of_entries (hstorable update path rules h) hentries.subset
  refine ⟨_, _, read_step h' hstorable', hread, ?_⟩
  refine decision_of_entries platform (fun rule hmem => readValue_restored hmem)
    (fun rule hmem => readValue_restored hmem) ?_
  rw [entries_restored, entries_restored, hentries]

/-! ### Updates that remove what was added -/

theorem lookup_append_of_ne {k k' : String} (h : k' ≠ k) (w : JsValue)
    (fields : List (String × JsValue)) :
    JsValue.lookup k' (fields.filter (fun field => field.1 ≠ k) ++ [(k, w)]) =
      JsValue.lookup k' fields := by
  induction fields with
  | nil => simp [JsValue.lookup, h.symm]
  | cons field fields ih =>
    obtain ⟨name, v⟩ := field
    by_cases hname : name = k
    · subst hname
      simpa [JsValue.lookup, h.symm] using ih
    · rw [List.filter_cons_of_pos (by simpa using hname), List.cons_append, JsValue.lookup,
        JsValue.lookup, ih]

theorem lookup_append_self {k : String} {w : JsValue} (hw : w.isUndefined = false)
    (fields : List (String × JsValue)) :
    JsValue.lookup k (fields.filter (fun field => field.1 ≠ k) ++ [(k, w)]) = w := by
  induction fields with
  | nil => simp [JsValue.lookup, hw]
  | cons field fields ih =>
    obtain ⟨name, v⟩ := field
    by_cases hname : name = k
    · subst hname
      simpa using ih
    · rw [List.filter_cons_of_pos (by simpa using hname), List.cons_append, JsValue.lookup]
      simpa [hname] using ih

/-- The same input is accepted to remove the rules. -/
theorem readPermissionUpdate_removal (h : readPermissionUpdate raw = .ok update) :
    readPermissionUpdate (removal raw) = .ok { update with type := .removeRules } := by
  rw [readPermissionUpdate_eq_ok] at h ⊢
  cases raw with
  | object fields =>
    have hother : ∀ {k : String}, k ≠ "type" → (removal (.object fields)).get k =
        (JsValue.object fields).get k := fun hk => lookup_append_of_ne hk _ fields
    have htype : (removal (.object fields)).get "type" = .string "removeRules" :=
      lookup_append_self rfl fields
    rw [htype, hother (by decide), hother (by decide), hother (by decide), hother (by decide)]
    exact ⟨rfl, h.2⟩
  | undefined => cases h.1
  | null => cases h.1
  | boolean value => cases h.1
  | number value => cases h.1
  | string value => cases h.1
  | array elements => cases h.1

/-- A file with the rules added next to one without them. -/
structure Beside (path : FilePath)
    (added : Set (LocalPermissionBehavior × String × LocalPermissionMatcher))
    (store store' : RuleStore) : Prop where
  others : ∀ path', path' ≠ path → store path' = store' path'
  entries : ∃ rules rules', store.read path = .ok rules ∧ store'.read path = .ok rules' ∧
    entries rules \ added = entries rules' ∧ ∀ rule ∈ rules', Acting rule.ruleValue

theorem sdiff_of_not_mem {α : Type} {s t : Set α} (h : ∀ a ∈ s, a ∉ t) : s \ t = s :=
  Set.ext fun a => ⟨fun ha => ha.1, fun ha => ⟨ha, h a ha⟩⟩

/-- What an update makes of the entries, but for rules that it spares. -/
theorem updated_diff {added E : Set (LocalPermissionBehavior × String × LocalPermissionMatcher)}
    (h : update.type ≠ .removeRules → changed update \ added = changed update) :
    updated update E \ added = updated update (E \ added) := by
  unfold updated
  cases htype : update.type with
  | addRules =>
    have hdisjoint := h (by simp [htype])
    dsimp only
    rw [Set.union_sdiff_distrib, hdisjoint]
  | removeRules =>
    dsimp only
    rw [Set.sdiff_sdiff, Set.sdiff_sdiff, Set.union_comm]
  | replaceRules =>
    have hdisjoint := h (by simp [htype])
    dsimp only
    rw [Set.union_sdiff_distrib, hdisjoint]
    refine congrArg (· ∪ _) (Set.ext fun entry => ?_)
    simp only [Set.mem_sdiff, Set.mem_ofPred_eq]
    tauto

theorem equalAsStored_of (h : Accepts store raw update path rules)
    (hconsistent : Consistent store raw) : EqualAsStored rules update :=
  hconsistent update path rules h

theorem disjoint_of_spares {update' : PermissionUpdateInput} {raw' : JsValue}
    (hspares : Spares update path raw') (h : readPermissionUpdate raw' = .ok update')
    (hpath : filePath update'.source update'.destination = .ok path)
    (htype : update'.type ≠ .removeRules) : changed update' \ changed update = changed update' := by
  refine sdiff_of_not_mem ?_
  rintro entry ⟨value', hvalue', rfl⟩ ⟨value, hvalue, heq⟩
  obtain ⟨hbehavior, hkey⟩ := Prod.mk.inj heq
  exact hspares update' h hpath hbehavior.symm htype value' hvalue' value hvalue
    (storedEqual_iff.2 hkey.symm)

/-- Where no update is accepted nothing changes. -/
theorem step_of_not_accepts (h : ∀ update path rules, ¬ Accepts store raw update path rules) :
    ((ruleStore .two).step store raw).1 = store := by
  cases happly : applyUpdate .two raw store with
  | ok store' =>
    unfold applyUpdate at happly
    obtain ⟨update, hupdate, happly⟩ := bind_eq_ok.1 happly
    obtain ⟨path, hpath, happly⟩ := bind_eq_ok.1 happly
    obtain ⟨rules, hrules, -⟩ := bind_eq_ok.1 happly
    exact absurd ⟨hupdate, hpath, hrules⟩ (h update path rules)
  | error error =>
    simp [ruleStore, happly]

/-- The files accept the same updates, of rules that are read of each. -/
theorem Beside.accepts {added : Set (LocalPermissionBehavior × String × LocalPermissionMatcher)}
    {store' : RuleStore} {raw' : JsValue} {path' : FilePath} (h : Beside path added store store') :
    (∃ rules, Accepts store raw' update path' rules) ↔
      ∃ rules, Accepts store' raw' update path' rules := by
  obtain ⟨rules, rules', hrules, hrules', -, -⟩ := h.entries
  by_cases hpath : path' = path
  · rw [hpath]
    constructor
    · rintro ⟨_, hupdate, hfile, -⟩
      exact ⟨rules', hupdate, hfile, hrules'⟩
    · rintro ⟨_, hupdate, hfile, -⟩
      exact ⟨rules, hupdate, hfile, hrules⟩
  · unfold Accepts RuleStore.read
    rw [h.others path' hpath]

theorem Beside.step {store' : RuleStore} {raw' : JsValue}
    (h : Beside path (changed update) store store') (hspares : Spares update path raw')
    (hgood : Lossless store raw') (hgood' : Lossless store' raw') :
    Beside path (changed update) ((ruleStore .two).step store raw').1
      ((ruleStore .two).step store' raw').1 := by
  by_cases haccepts : ∃ update' path' rules, Accepts store raw' update' path' rules
  · obtain ⟨update', path', rules, haccept⟩ := haccepts
    obtain ⟨rules', haccept'⟩ := h.accepts.1 ⟨rules, haccept⟩
    rw [step_of_accepts haccept, step_of_accepts haccept']
    obtain ⟨current, current', hcurrent, hcurrent', hentries, hacting⟩ := h.entries
    by_cases hpath : path' = path
    · rw [hpath] at haccept haccept' ⊢
      obtain rfl := Except.ok.inj (hcurrent.symm.trans haccept.2.2)
      obtain rfl := Except.ok.inj (hcurrent'.symm.trans haccept'.2.2)
      refine ⟨fun path'' hne => ?_,
        restored (mutateRules current update') path.source path.destination,
        restored (mutateRules current' update') path.source path.destination, ?_, ?_, ?_,
        fun rule hmem => (readValue_restored hmem).2⟩
      · rw [Function.update_of_ne hne, Function.update_of_ne hne]
        exact h.others path'' hne
      · rw [RuleStore.read, Function.update_self]
        exact read_writeRules (hgood.storable update' path current haccept) _ _
      · rw [RuleStore.read, Function.update_self]
        exact read_writeRules (hgood'.storable update' path current' haccept') _ _
      · rw [entries_restored, entries_restored,
          entries_mutateRules haccept.readRules haccept.readUpdate
            (fun _ => equalAsStored_of haccept hgood.consistent),
          entries_mutateRules haccept'.readRules haccept'.readUpdate
            (fun _ => equalAsStored_of haccept' hgood'.consistent), ← hentries]
        exact updated_diff (disjoint_of_spares hspares haccept.1 haccept.2.1)
    · have hsame : rules = rules' := by
        have hread := haccept.2.2
        rw [RuleStore.read, h.others path' hpath] at hread
        exact Except.ok.inj (hread.symm.trans haccept'.2.2)
      rw [hsame]
      have hne : path ≠ path' := Ne.symm hpath
      refine ⟨fun path'' hne' => ?_, current, current', ?_, ?_, hentries, hacting⟩
      · by_cases heq : path'' = path'
        · rw [heq, Function.update_self, Function.update_self]
        · rw [Function.update_of_ne heq, Function.update_of_ne heq]
          exact h.others path'' hne'
      · rw [RuleStore.read, Function.update_of_ne hne]
        exact hcurrent
      · rw [RuleStore.read, Function.update_of_ne hne]
        exact hcurrent'
  · have hnone : ∀ update' path' rules, ¬ Accepts store raw' update' path' rules :=
      fun update' path' rules haccept => haccepts ⟨update', path', rules, haccept⟩
    have hnone' : ∀ update' path' rules, ¬ Accepts store' raw' update' path' rules := by
      intro update' path' rules haccept
      obtain ⟨rules', haccept'⟩ := h.accepts.2 ⟨rules, haccept⟩
      exact hnone update' path' rules' haccept'
    rw [step_of_not_accepts hnone, step_of_not_accepts hnone']
    exact h

theorem Beside.after {store' : RuleStore} (raws : List JsValue)
    (h : Beside path (changed update) store store') (hspares : ∀ raw' ∈ raws, Spares update path raw')
    (hgood : (ruleStore .two).Along Lossless store raws)
    (hgood' : (ruleStore .two).Along Lossless store' raws) :
    Beside path (changed update) ((ruleStore .two).after store raws)
      ((ruleStore .two).after store' raws) := by
  induction raws generalizing store store' with
  | nil => exact h
  | cons raw' raws ih =>
    rw [List.forall_mem_cons] at hspares
    exact ih (h.step hspares.1 hgood.1 hgood'.1) hspares.2 hgood.2 hgood'.2

theorem subset_foldl_addRule (values : List LocalPermissionRuleValue) {rule : LocalPermissionRule}
    (h : rule ∈ rules) : rule ∈ values.foldl (addRule update) rules := by
  induction values generalizing rules with
  | nil => exact h
  | cons value values ih =>
    refine ih ?_
    unfold addRule
    split_ifs
    · exact h
    · exact List.mem_append_left _ h

/-- After rules were added that were not there, the file is beside the one before. -/
theorem beside_of_added (h : Accepts store raw update path rules) (htype : update.type = .addRules)
    (hnew : ∀ rule ∈ rules, ∀ value ∈ update.rules, isRuleOf update value rule = false)
    (hgood : Lossless store raw) :
    Beside path (changed update) ((ruleStore .two).step store raw).1 store := by
  have hread := read_step h (hgood.storable update path rules h)
  have hdisjoint : entries rules \ changed update = entries rules := by
    refine sdiff_of_not_mem ?_
    rintro entry ⟨rule, hmem, rfl⟩ ⟨value, hvalue, heq⟩
    obtain ⟨hbehavior, hkey⟩ := Prod.mk.inj heq
    have hsame := hgood.consistent update path rules h rule hmem hbehavior.symm value hvalue
      (storedEqual_iff.2 hkey.symm)
    have hnot := hnew rule hmem value hvalue
    rw [isRuleOf_iff.2 ⟨hbehavior.symm, hsame⟩] at hnot
    cases hnot
  have hacting : ∀ rule ∈ rules, Acting rule.ruleValue := by
    intro rule hmem
    refine hgood.acting update path rules h rule ?_
    rw [mutateRules, htype]
    exact subset_foldl_addRule update.rules hmem
  refine ⟨fun path' hne => ?_, _, rules, hread, h.2.2, ?_, hacting⟩
  · rw [step_of_accepts h, Function.update_of_ne hne]
  · rw [entries_restored, entries_mutateRules h.readRules h.readUpdate
      (fun _ => equalAsStored_of h hgood.consistent), updated, htype]
    dsimp only
    rw [Set.union_sdiff_right, hdisjoint]

/-- Rules that were not there, that are added and removed, leave the decisions. -/
theorem removed_of (platform : MatchPlatform) (raws : List JsValue)
    (hgood : (ruleStore .two).Along Lossless store (raw :: raws ++ [removal raw]))
    (hgood' : (ruleStore .two).Along Lossless store raws) : Removed platform store raw raws := by
  intro update path rules h htype hnew hspares
  obtain ⟨hadd, hgood⟩ := hgood
  obtain ⟨hbetween, hlast, -⟩ := ((ruleStore .two).along_append _ _ raws [removal raw]).1 hgood
  have hbeside := (beside_of_added h htype hnew hadd).after raws hspares hbetween hgood'
  obtain ⟨current, current', hcurrent, hcurrent', hentries, hacting⟩ := hbeside.entries
  have hremove : Accepts ((ruleStore .two).after ((ruleStore .two).step store raw).1 raws)
      (removal raw) { update with type := .removeRules } path current :=
    ⟨readPermissionUpdate_removal h.1, h.2.1, hcurrent⟩
  have hread := read_step hremove (hlast.storable _ _ _ hremove)
  have hgood' : ∀ rule ∈ current', ReadValue rule.ruleValue ∧ Acting rule.ruleValue :=
    fun rule hmem => ⟨readRules_readConfigFile hcurrent' rule hmem, hacting rule hmem⟩
  have hafter : ((ruleStore .two).after store (raw :: raws ++ [removal raw])).read path = .ok
      (restored (mutateRules current { update with type := .removeRules }) path.source
        path.destination) := by
    rw [List.cons_append, Machine.after_cons, Machine.after_append]
    exact hread
  refine ⟨_, current', hafter, hcurrent',
    decision_of_entries platform (fun rule hmem => readValue_restored hmem) hgood' ?_⟩
  rw [entries_restored, entries_mutateRules hremove.readRules hremove.readUpdate
    (fun _ => equalAsStored_of hremove hlast.consistent), ← hentries]
  rfl

end

/-- In a run whose updates leave rules that can be stored, and path rules without actions only for
tools that have one, every update keeps the decisions; what is added twice is added once; and what
is added and removed leaves the decisions, where rules are equal if they are once they were
stored. -/
theorem rules_kept (platform : MatchPlatform) (store : RuleStore) :
    (∀ raws, (ruleStore .two).Along
        (fun store raw => LeavesStorable store raw ∧ LeavesActing store raw) store raws →
      (ruleStore .two).Along (UpdateKept platform) store raws) ∧
    (∀ raw, LeavesStorable store raw → AddedOnce platform store raw) ∧
    ∀ raw raws, (ruleStore .two).Along Lossless store (raw :: raws ++ [removal raw]) →
      (ruleStore .two).Along Lossless store raws → Removed platform store raw raws :=
  ⟨fun _ h => h.mono fun _ _ hstep => updateKept_of platform hstep.1 hstep.2,
    fun _ => addedOnce_of platform, fun _ raws => removed_of platform raws⟩

/-- A platform whose paths are absolute and have no dots. -/
def plainPlatform : MatchPlatform where
  host _ := none
  stringify _ := none
  sep := '/'
  resolve := id
  isWindows := false
  toLowerCase := String.toLower

/-- The global file, of the first version. -/
def firstVersion (behavior : String) (texts : List String) : RuleStore :=
  Function.update (fun _ => .absent) ⟨.globalRules, "global"⟩
    (.value (.object [(behavior, .array (texts.map JsValue.string))]))

/-- An update that adds a rule to the global file. -/
def adding (behavior : String) (rule : List (String × JsValue)) : JsValue :=
  .object [("type", .string "addRules"), ("source", .string "global"),
    ("destination", .string "global"), ("behavior", .string behavior),
    ("rules", .array [.object rule])]

def askPush : JsValue := adding "ask" [("tool_name", .string "bash"),
  ("rule_content", .string "git push:*")]

def allowRead : JsValue := adding "allow" [("tool_name", .string "read"),
  ("matcher", .object [("kind", .string "path"), ("pattern", .string "/srv/**"),
    ("actions", .array [.string "read"])])]

/-- On a file of the first version a rule is added, another, and the first is removed. -/
theorem rules_kept_askPush :
    (ruleStore .two).Along (UpdateKept plainPlatform)
        (firstVersion "deny" ["bash(rm:*)", "write(/etc/**)"]) [askPush, allowRead] ∧
      AddedOnce plainPlatform (firstVersion "deny" ["bash(rm:*)", "write(/etc/**)"]) askPush ∧
      Removed plainPlatform (firstVersion "deny" ["bash(rm:*)", "write(/etc/**)"]) askPush
        [allowRead] := by
  have h := rules_kept plainPlatform (firstVersion "deny" ["bash(rm:*)", "write(/etc/**)"])
  have hgood : (ruleStore .two).Along Lossless
      (firstVersion "deny" ["bash(rm:*)", "write(/etc/**)"])
      (askPush :: [allowRead] ++ [removal askPush]) := by
    decide +kernel
  have hgood' : (ruleStore .two).Along Lossless
      (firstVersion "deny" ["bash(rm:*)", "write(/etc/**)"]) [allowRead] := by
    decide +kernel
  refine ⟨h.1 _ ⟨⟨hgood.1.storable, hgood.1.acting⟩, ⟨hgood.2.1.storable, hgood.2.1.acting⟩,
    trivial⟩, h.2.1 _ hgood.1.storable, h.2.2 _ _ hgood hgood'⟩

/-- A path rule of a file of the first version denies a command no more once it was stored for all
actions; a blank pattern of such a file makes it unreadable; and a path rule that was added without
a matcher is not removed. -/
theorem actionless_blank_unequal :
    ¬ UpdateKept plainPlatform (firstVersion "deny" ["bash(/usr/bin/env)"]) allowRead ∧
    ¬ UpdateKept plainPlatform (firstVersion "deny" ["bash( )"]) allowRead ∧
    ¬ Removed plainPlatform (fun _ => .absent) (adding "allow" [("tool_name", .string "read"),
      ("rule_content", .string "/tmp/x")]) [] := by
  refine ⟨fun h => ?_, fun h => ?_, fun h => ?_⟩
  · obtain ⟨rules', hread, hdecision, -⟩ := h _ ⟨.globalRules, "global"⟩ _ ⟨rfl, rfl, rfl⟩
    have hdenied := hdecision "bash" (.object [("command", .string "/usr/bin/env")])
    have hafter := congrArg (fun rules => rules.toOption.map fun rules =>
      decision plainPlatform rules "bash" (.object [("command", .string "/usr/bin/env")])) hread
    simp only [Except.toOption, Option.map_some, hdenied] at hafter
    revert hafter
    decide +kernel
  · obtain ⟨rules', hread, -⟩ := h _ ⟨.globalRules, "global"⟩ _ ⟨rfl, rfl, rfl⟩
    have hafter : (((ruleStore .two).step (firstVersion "deny" ["bash( )"]) allowRead).1.read
        ⟨.globalRules, "global"⟩).toOption.isSome = true := by
      rw [hread]
      rfl
    revert hafter
    decide +kernel
  · obtain ⟨rules, rules', hadded, hread', hdecision⟩ := h _ ⟨.globalRules, "global"⟩ _
      ⟨rfl, rfl, rfl⟩ rfl (by decide +kernel) (by simp)
    have hread := hdecision "read" (.object [("path", .string "/tmp/x")])
    have hbefore := congrArg (fun rules => rules.toOption.map fun rules =>
      decision plainPlatform rules "read" (.object [("path", .string "/tmp/x")])) hread'
    have hafter := congrArg (fun rules => rules.toOption.map fun rules =>
      decision plainPlatform rules "read" (.object [("path", .string "/tmp/x")])) hadded
    simp only [Except.toOption, Option.map_some, ← hread] at hbefore
    simp only [Except.toOption, Option.map_some] at hafter
    rw [← hbefore] at hafter
    revert hafter
    decide +kernel

end Kinetick.Permission
