import Kinetick.History.TurnConfig
import Kinetick.Proofs.HistoryEnvelope
import Mathlib.Data.List.Find
import Mathlib.Data.List.Forall2

/-!
# What sanitizing keeps

The walk that removes names of credentials and the walk that rejects them agree on what is left, and
what is left does not depend on what was removed. Whatever is not removed is where it was, except
that an unsupported member with the empty name is dropped where every other one is rejected.
-/

namespace Kinetick

namespace HistoryEnvelope

open HistoryReduction (bind_ok)

/-! ## The value of the model -/

section Model

variable {isSensitiveKey : String → Bool}

mutual

theorem isJson_sanitize : ∀ value, isJson value = true →
    isJson (sanitizeModelValue isSensitiveKey value) = true
  | .undefined, h => h
  | .null, h => h
  | .boolean _, h => h
  | .number _, h => h
  | .string _, h => h
  | .array elements, h => areJson_sanitize elements h
  | .object fields, h => fieldsAreJson_sanitize fields h

theorem areJson_sanitize : ∀ elements, areJson elements = true →
    areJson (sanitizeModelElements isSensitiveKey elements) = true
  | [], h => h
  | value :: elements, h => by
    rw [areJson, Bool.and_eq_true] at h
    rw [sanitizeModelElements, areJson, Bool.and_eq_true]
    exact ⟨isJson_sanitize value h.1, areJson_sanitize elements h.2⟩

theorem fieldsAreJson_sanitize : ∀ fields, fieldsAreJson fields = true →
    fieldsAreJson (sanitizeModelFields isSensitiveKey fields) = true
  | [], h => h
  | (key, value) :: fields, h => by
    rw [fieldsAreJson, Bool.and_eq_true] at h
    rw [sanitizeModelFields]
    split_ifs
    · exact fieldsAreJson_sanitize fields h.2
    · rw [fieldsAreJson, Bool.and_eq_true]
      exact ⟨isJson_sanitize value h.1, fieldsAreJson_sanitize fields h.2⟩

end

mutual

/-- What is left is not rejected. -/
theorem assertNoCredentialKeys_sanitize : ∀ value path,
    assertNoCredentialKeys isSensitiveKey (sanitizeModelValue isSensitiveKey value) path = .ok ()
  | .undefined, _ => rfl
  | .null, _ => rfl
  | .boolean _, _ => rfl
  | .number _, _ => rfl
  | .string _, _ => rfl
  | .array elements, path => assertNoCredentialElements_sanitize elements path 0
  | .object fields, path => assertNoCredentialFields_sanitize fields path

theorem assertNoCredentialElements_sanitize : ∀ elements path index,
    assertNoCredentialElements isSensitiveKey (sanitizeModelElements isSensitiveKey elements) path
      index = .ok ()
  | [], _, _ => rfl
  | value :: elements, path, index => by
    rw [sanitizeModelElements, assertNoCredentialElements, assertNoCredentialKeys_sanitize value]
    exact assertNoCredentialElements_sanitize elements path (index + 1)

theorem assertNoCredentialFields_sanitize : ∀ fields path,
    assertNoCredentialFields isSensitiveKey (sanitizeModelFields isSensitiveKey fields) path = .ok ()
  | [], _ => rfl
  | (key, value) :: fields, path => by
    rw [sanitizeModelFields]
    split_ifs with hkey
    · exact assertNoCredentialFields_sanitize fields path
    · rw [assertNoCredentialFields, if_neg hkey, assertNoCredentialKeys_sanitize value]
      exact assertNoCredentialFields_sanitize fields path

end

mutual

/-- Where nothing is a credential, nothing is rejected. -/
theorem assertNoCredentialKeys_none : ∀ value path,
    assertNoCredentialKeys (fun _ => false) value path = .ok ()
  | .undefined, _ => rfl
  | .null, _ => rfl
  | .boolean _, _ => rfl
  | .number _, _ => rfl
  | .string _, _ => rfl
  | .array elements, path => assertNoCredentialElements_none elements path 0
  | .object fields, path => assertNoCredentialFields_none fields path

theorem assertNoCredentialElements_none : ∀ elements path index,
    assertNoCredentialElements (fun _ => false) elements path index = .ok ()
  | [], _, _ => rfl
  | value :: elements, path, index => by
    rw [assertNoCredentialElements, assertNoCredentialKeys_none value]
    exact assertNoCredentialElements_none elements path (index + 1)

theorem assertNoCredentialFields_none : ∀ fields path,
    assertNoCredentialFields (fun _ => false) fields path = .ok ()
  | [], _ => rfl
  | (key, value) :: fields, path => by
    rw [assertNoCredentialFields, if_neg Bool.false_ne_true, assertNoCredentialKeys_none value]
    exact assertNoCredentialFields_none fields path

end

mutual

theorem sanitize_sanitize : ∀ value, sanitizeModelValue isSensitiveKey
    (sanitizeModelValue isSensitiveKey value) = sanitizeModelValue isSensitiveKey value
  | .undefined => rfl
  | .null => rfl
  | .boolean _ => rfl
  | .number _ => rfl
  | .string _ => rfl
  | .array elements => congrArg JsValue.array (sanitizeElements_sanitize elements)
  | .object fields => congrArg JsValue.object (sanitizeFields_sanitize fields)

theorem sanitizeElements_sanitize : ∀ elements, sanitizeModelElements isSensitiveKey
    (sanitizeModelElements isSensitiveKey elements) = sanitizeModelElements isSensitiveKey elements
  | [] => rfl
  | value :: elements => by
    simp only [sanitizeModelElements, sanitize_sanitize value, sanitizeElements_sanitize elements]

theorem sanitizeFields_sanitize : ∀ fields, sanitizeModelFields isSensitiveKey
    (sanitizeModelFields isSensitiveKey fields) = sanitizeModelFields isSensitiveKey fields
  | [] => rfl
  | (key, value) :: fields => by
    rw [sanitizeModelFields]
    split_ifs with hkey
    · exact sanitizeFields_sanitize fields
    · rw [sanitizeModelFields, if_neg hkey, sanitize_sanitize value,
        sanitizeFields_sanitize fields]

end

mutual

/-- What is left does not depend on what is removed. -/
theorem Agree.sanitize_eq : ∀ {value value' : JsValue}, Agree isSensitiveKey value value' →
    sanitizeModelValue isSensitiveKey value = sanitizeModelValue isSensitiveKey value'
  | _, _, .same _ => rfl
  | _, _, .array h => congrArg JsValue.array h.sanitize_eq
  | _, _, .object h => congrArg JsValue.object h.sanitize_eq

theorem AgreeElements.sanitize_eq : ∀ {elements elements' : List JsValue},
    AgreeElements isSensitiveKey elements elements' →
    sanitizeModelElements isSensitiveKey elements = sanitizeModelElements isSensitiveKey elements'
  | _, _, .nil => rfl
  | _, _, .cons hvalue h => by
    simp only [sanitizeModelElements, hvalue.sanitize_eq, h.sanitize_eq]

theorem AgreeFields.sanitize_eq : ∀ {fields fields' : List (String × JsValue)},
    AgreeFields isSensitiveKey fields fields' →
    sanitizeModelFields isSensitiveKey fields = sanitizeModelFields isSensitiveKey fields'
  | _, _, .nil => rfl
  | _, _, .sensitive _ _ hkey h => by
    simp only [sanitizeModelFields, if_pos hkey, h.sanitize_eq]
  | _, _, .cons hvalue h => by
    simp only [sanitizeModelFields, hvalue.sanitize_eq, h.sanitize_eq]

end

/-! ## Its paths -/

@[simp] theorem outside_sanitize (value : JsValue) :
    outside (sanitizeModelValue isSensitiveKey value) = outside value := by
  cases value with
  | array elements =>
    have hlength : (sanitizeModelElements isSensitiveKey elements).length = elements.length := by
      induction elements with
      | nil => rfl
      | cons value elements ih => rw [sanitizeModelElements, List.length_cons, ih, List.length_cons]
    simp only [sanitizeModelValue, outside, hlength]
  | _ => rfl

@[simp] theorem isUndefined_sanitize (value : JsValue) :
    (sanitizeModelValue isSensitiveKey value).isUndefined = value.isUndefined := by
  cases value <;> rfl

theorem lookup_sanitize {name : String} (hname : isSensitiveKey name = false)
    (fields : List (String × JsValue)) :
    JsValue.lookup name (sanitizeModelFields isSensitiveKey fields) =
      sanitizeModelValue isSensitiveKey (JsValue.lookup name fields) := by
  induction fields with
  | nil => rfl
  | cons field fields ih =>
    obtain ⟨key, value⟩ := field
    rw [sanitizeModelFields]
    by_cases hkey : key = name
    · subst hkey
      rw [if_neg (by simp [hname]), JsValue.lookup, JsValue.lookup, isUndefined_sanitize, ih]
      split_ifs <;> rfl
    · split_ifs with hsensitive
      · rw [ih, JsValue.lookup, if_neg (by simp [hkey])]
      · rw [JsValue.lookup, if_neg (by simp [hkey]), ih, JsValue.lookup, if_neg (by simp [hkey])]

theorem lookup_sanitize_sensitive {name : String} (hname : isSensitiveKey name = true)
    (fields : List (String × JsValue)) :
    JsValue.lookup name (sanitizeModelFields isSensitiveKey fields) = .undefined := by
  induction fields with
  | nil => rfl
  | cons field fields ih =>
    obtain ⟨key, value⟩ := field
    rw [sanitizeModelFields]
    split_ifs with hsensitive
    · exact ih
    · have hkey : key ≠ name := fun h => hsensitive (h ▸ hname)
      rw [JsValue.lookup, if_neg (by simp [hkey]), ih]

theorem getElem?_sanitize (elements : List JsValue) (i : ℕ) :
    (sanitizeModelElements isSensitiveKey elements)[i]? =
      elements[i]?.map (sanitizeModelValue isSensitiveKey) := by
  induction elements generalizing i with
  | nil => rfl
  | cons value elements ih => cases i with
    | zero => rfl
    | succ i => exact ih i

/-- Along a path without credentials there is the value, less its credentials. -/
theorem valueAt_sanitize {path : List PathStep} (hpath : goesThrough isSensitiveKey path = false)
    (value : JsValue) : valueAt (sanitizeModelValue isSensitiveKey value) path =
      (valueAt value path).map (sanitizeModelValue isSensitiveKey) := by
  induction path generalizing value with
  | nil => cases value <;> rfl
  | cons step path ih =>
    rw [goesThrough, List.any_cons, Bool.or_eq_false_iff] at hpath
    obtain ⟨hstep, hpath⟩ := hpath
    cases step with
    | key name =>
      cases value with
      | object fields =>
        simp only [sanitizeModelValue, valueAt, lookup_sanitize hstep, isUndefined_sanitize]
        split_ifs
        · rfl
        · exact ih hpath _
      | _ => rfl
    | index i =>
      cases value with
      | array elements =>
        simp only [sanitizeModelValue, valueAt, getElem?_sanitize]
        rcases elements[i]? with _ | element
        · rfl
        · exact ih hpath element
      | _ => rfl

/-- And through the name of one there is nothing. -/
theorem valueAt_sanitize_sensitive {path : List PathStep}
    (hpath : goesThrough isSensitiveKey path = true) (value : JsValue) :
    valueAt (sanitizeModelValue isSensitiveKey value) path = none := by
  induction path generalizing value with
  | nil => cases hpath
  | cons step path ih =>
    rw [goesThrough, List.any_cons, Bool.or_eq_true] at hpath
    cases step with
    | key name =>
      cases value with
      | object fields =>
        by_cases hname : isSensitiveKey name = true
        · simp only [sanitizeModelValue, valueAt, lookup_sanitize_sensitive hname]
          rfl
        · have hrest := hpath.resolve_left hname
          rw [Bool.not_eq_true] at hname
          simp only [sanitizeModelValue, valueAt, lookup_sanitize hname]
          split_ifs
          · rfl
          · exact ih hrest _
      | _ => rfl
    | index i =>
      cases value with
      | array elements =>
        have hrest := hpath.resolve_left Bool.false_ne_true
        simp only [sanitizeModelValue, valueAt, getElem?_sanitize]
        rcases elements[i]? with _ | element
        · rfl
        · exact ih hrest element
      | _ => rfl

end Model

/-! ## Names and checks of them -/

section Names

variable {fields fields' : List (String × JsValue)} {allowed required : List String}
  {context : String}

theorem assertExactKeys_congr (h : fields.map Prod.fst = fields'.map Prod.fst) :
    assertExactKeys fields allowed required context =
      assertExactKeys fields' allowed required context := by
  have hany : ∀ (fields : List (String × JsValue)) (key : String),
      fields.any (·.1 = key) = (fields.map Prod.fst).any (· = key) := by
    intro fields key
    rw [List.any_map]
    rfl
  simp only [assertExactKeys, hany, h]

/-- Without an empty name, every name is supported. -/
theorem names_allowed (h : assertExactKeys fields allowed required context = .ok ())
    (hnames : ∀ field ∈ fields, field.1 ≠ "") : ∀ field ∈ fields, field.1 ∈ allowed := by
  intro field hfield
  by_contra hextra
  have hfound : ((fields.map (·.1)).find? (· ∉ allowed)).isSome := by
    rw [List.find?_isSome]
    exact ⟨field.1, List.mem_map_of_mem hfield, by simpa using hextra⟩
  obtain ⟨extra, hextra⟩ := Option.isSome_iff_exists.1 hfound
  obtain ⟨field', hmem, rfl⟩ := List.mem_map.1 (List.mem_of_find?_eq_some hextra)
  unfold assertExactKeys at h
  simp only [hextra, Option.getD_some] at h
  rw [if_pos (hnames field' hmem)] at h
  cases h

theorem lookup_eq_undefined {name : String} (h : ∀ field ∈ fields, field.1 ≠ name) :
    JsValue.lookup name fields = .undefined := by
  induction fields with
  | nil => rfl
  | cons field fields ih =>
    obtain ⟨key, value⟩ := field
    rw [JsValue.lookup, if_neg (by simp [h (key, value) List.mem_cons_self])]
    exact ih fun field hfield => h field (List.mem_cons_of_mem _ hfield)

theorem lookup_defined {name : String} (hjson : fieldsAreJson fields = true)
    (h : ∃ field ∈ fields, field.1 = name) : (JsValue.lookup name fields).isUndefined = false := by
  induction fields with
  | nil =>
    obtain ⟨field, hfield, -⟩ := h
    cases hfield
  | cons field fields ih =>
    obtain ⟨key, value⟩ := field
    rw [fieldsAreJson, Bool.and_eq_true] at hjson
    have hvalue : value.isUndefined = false := by
      cases value <;> first | rfl | cases hjson.1
    rw [JsValue.lookup]
    by_cases hkey : key = name
    · rw [if_pos (by simp [hkey, hvalue])]
      exact hvalue
    · rw [if_neg (by simp [hkey])]
      obtain ⟨field, hfield, hname⟩ := h
      rcases List.mem_cons.1 hfield with rfl | hfield
      · exact absurd hname hkey
      · exact ih hjson.2 ⟨field, hfield, hname⟩

/-- Objects whose names read the same have the same values at their paths. -/
theorem valueAt_congr (h : ∀ name, JsValue.lookup name fields = JsValue.lookup name fields')
    (path : List PathStep) : (valueAt (.object fields) path).map outside =
      (valueAt (.object fields') path).map outside := by
  rcases path with _ | ⟨name | i, path⟩
  · rfl
  · simp only [valueAt, h]
  · rfl

end Names

/-! ## Tools -/

/-- The object that a tool is decoded to. -/
def toolOf (name description : String) (schema : List (String × JsValue)) : JsValue :=
  .object [("tool_name", .string name), ("description", .string description),
    ("schema", .object schema)]

theorem decodeTurnConfigTool_reads {tool decoded : JsValue} {index : ℕ}
    (h : decodeTurnConfigTool tool index = .ok decoded) :
    ∃ fields name description schema, tool = .object fields ∧
      assertExactKeys fields ["tool_name", "description", "schema"]
        ["tool_name", "description", "schema"] s!"turn_config.tools[{index}]" = .ok () ∧
      tool.get "tool_name" = .string name ∧ tool.get "description" = .string description ∧
      tool.get "schema" = .object schema ∧ decoded = toolOf name description schema := by
  obtain ⟨fields, hfields, h⟩ := bind_ok h
  obtain ⟨⟨⟩, hkeys, h⟩ := bind_ok h
  obtain ⟨name, hname, h⟩ := bind_ok h
  split_ifs at h with hdescription
  · simp at h
  · obtain ⟨schema, hschema, h⟩ := bind_ok h
    obtain ⟨description, hdescription⟩ := isString_eq (by simpa using hdescription)
    simp only [pure, Except.pure, Except.ok.injEq] at h
    refine ⟨fields, name, description, schema, requirePlainRecord_ok hfields, hkeys,
      (requireNonEmptyString_ok hname).1, hdescription, requirePlainRecord_ok hschema, ?_⟩
    rw [← h, hdescription]
    rfl

/-- A tool without an empty name is decoded to what it was. -/
theorem valueAt_tool {tool decoded : JsValue} {index : ℕ}
    (h : decodeTurnConfigTool tool index = .ok decoded) (hnames : hasEmptyName tool = false)
    (path : List PathStep) :
    (valueAt decoded path).map outside = (valueAt tool path).map outside := by
  obtain ⟨fields, name, description, schema, rfl, hkeys, hname, hdescription, hschema, rfl⟩ :=
    decodeTurnConfigTool_reads h
  have hallowed := names_allowed hkeys (by simpa [hasEmptyName] using hnames)
  refine valueAt_congr (fun key => ?_) path
  by_cases hkey : key ∈ ["tool_name", "description", "schema"]
  · simp only [List.mem_cons, List.not_mem_nil, or_false] at hkey
    rcases hkey with rfl | rfl | rfl
    · exact hname.symm
    · exact hdescription.symm
    · exact hschema.symm
  · have habsent : ∀ field ∈ fields, field.1 ≠ key := fun field hfield heq =>
      hkey (heq ▸ hallowed field hfield)
    rw [lookup_eq_undefined habsent]
    simp only [List.mem_cons, List.not_mem_nil, or_false, not_or] at hkey
    simp [JsValue.lookup, Ne.symm hkey.1, Ne.symm hkey.2.1, Ne.symm hkey.2.2]

theorem decodeTurnConfigTools_forall₂ : ∀ {tools decoded : List JsValue} {index : ℕ},
    decodeTurnConfigTools index tools = .ok decoded →
      List.Forall₂ (fun tool decoded => ∃ i, decodeTurnConfigTool tool i = .ok decoded) tools
        decoded
  | [], decoded, index, h => by
    simp only [decodeTurnConfigTools, Except.ok.injEq] at h
    subst h
    exact .nil
  | tool :: tools, decoded, index, h => by
    obtain ⟨first, hfirst, h⟩ := bind_ok h
    obtain ⟨rest, hrest, h⟩ := bind_ok h
    simp only [pure, Except.pure, Except.ok.injEq] at h
    subst h
    exact .cons ⟨index, hfirst⟩ (decodeTurnConfigTools_forall₂ hrest)

/-! ## Configs -/

/-- The object that a config is decoded to. -/
def configOf (prompt : String) (model : List (String × JsValue)) (tools : Option (List JsValue)) :
    JsValue :=
  .object ([("system_prompt", .string prompt), ("model", .object model)] ++
    (tools.map fun tools => ("tools", .array tools)).toList)

section Config

variable {isSensitiveKey : String → Bool} {value output : JsValue}

theorem decodeTurnConfig_reads (h : decodeTurnConfig isSensitiveKey value = .ok output) :
    ∃ fields prompt model tools, value = .object fields ∧
      assertExactKeys fields ["system_prompt", "model", "tools"] ["system_prompt", "model"]
        "turn_config" = .ok () ∧
      value.get "system_prompt" = .string prompt ∧ value.get "model" = .object model ∧
      assertNoCredentialKeys isSensitiveKey (.object model) "turn_config.model" = .ok () ∧
      decodeOptionalTools (value.get "tools") = .ok tools ∧ isJson value = true ∧
      output = configOf prompt model tools := by
  obtain ⟨fields, hfields, h⟩ := bind_ok h
  obtain ⟨⟨⟩, hkeys, h⟩ := bind_ok h
  split_ifs at h with hprompt
  · simp at h
  obtain ⟨prompt, hprompt⟩ := isString_eq (by simpa using hprompt)
  obtain ⟨model, hmodel, h⟩ := bind_ok h
  obtain ⟨⟨⟩, hcredentials, h⟩ := bind_ok h
  obtain ⟨tools, htools, h⟩ := bind_ok h
  obtain ⟨⟨⟩, hcompatible, h⟩ := bind_ok h
  simp only [pure, Except.pure, Except.ok.injEq] at h
  refine ⟨fields, prompt, model, tools, requirePlainRecord_ok hfields, hkeys, hprompt,
    requirePlainRecord_ok hmodel, hcredentials, htools,
    (assertJsonCompatible_iff _ _).1 hcompatible, ?_⟩
  rw [← h, hprompt]
  rfl

theorem decodeTurnConfig_of {fields model : List (String × JsValue)} {prompt : String}
    {tools : Option (List JsValue)}
    (hkeys : assertExactKeys fields ["system_prompt", "model", "tools"] ["system_prompt", "model"]
      "turn_config" = .ok ())
    (hprompt : (JsValue.object fields).get "system_prompt" = .string prompt)
    (hmodel : (JsValue.object fields).get "model" = .object model)
    (hcredentials : assertNoCredentialKeys isSensitiveKey (.object model) "turn_config.model" =
      .ok ())
    (htools : decodeOptionalTools ((JsValue.object fields).get "tools") = .ok tools)
    (hjson : isJson (.object fields) = true) :
    decodeTurnConfig isSensitiveKey (.object fields) = .ok (configOf prompt model tools) := by
  have hcompatible := (assertJsonCompatible_iff (.object fields) "turn_config").2 hjson
  unfold decodeTurnConfig
  rw [hprompt, hmodel, hcompatible]
  simp only [requirePlainRecord, bind, Except.bind, hkeys, isString, Bool.not_true,
    Bool.false_eq_true, if_false, hcredentials, htools, pure, Except.pure]
  rfl

theorem lookup_withModel (model : JsValue) (hmodel : model.isUndefined = false) (name : String)
    (config : List (String × JsValue)) (hname : name ≠ "model" ∨
      (JsValue.lookup "model" config).isUndefined = false) :
    JsValue.lookup name (withModel model config) =
      if name = "model" then model else JsValue.lookup name config := by
  induction config with
  | nil =>
    rcases hname with hname | hname
    · rw [if_neg hname]
      rfl
    · cases hname
  | cons field config ih =>
    obtain ⟨key, value⟩ := field
    rw [withModel, List.map_cons]
    by_cases hkey : key = "model"
    · subst hkey
      rw [if_pos rfl, JsValue.lookup]
      by_cases hname' : name = "model"
      · subst hname'
        simp [hmodel]
      · rw [if_neg (by simp [Ne.symm hname']), if_neg hname', JsValue.lookup,
          if_neg (by simp [Ne.symm hname']), ← withModel, ih (.inl hname'), if_neg hname']
    · rw [if_neg hkey, JsValue.lookup, ← withModel]
      rw [JsValue.lookup] at hname ⊢
      have hmodelAt : ¬(key = "model" && !value.isUndefined) = true := by simp [hkey]
      rw [if_neg hmodelAt] at hname
      rw [ih hname]
      by_cases hhere : (key = name && !value.isUndefined) = true
      · have hne : name ≠ "model" := by
          simp only [Bool.and_eq_true, decide_eq_true_eq] at hhere
          exact fun h => hkey (hhere.1.trans h)
        rw [if_pos hhere, if_pos hhere, if_neg hne]
      · rw [if_neg hhere, if_neg hhere]

/-- What sanitizing reads, and what it answers. -/
theorem sanitizeTurnConfig_reads (h : sanitizeTurnConfig isSensitiveKey value = .ok output) :
    ∃ config prompt model tools, value = .object config ∧
      assertExactKeys config ["system_prompt", "model", "tools"] ["system_prompt", "model"]
        "turn_config" = .ok () ∧
      value.get "system_prompt" = .string prompt ∧ value.get "model" = .object model ∧
      decodeOptionalTools (value.get "tools") = .ok tools ∧ isJson value = true ∧
      output = configOf prompt (sanitizeModelFields isSensitiveKey model) tools := by
  obtain ⟨config, hconfig, hrest⟩ := bind_ok h
  obtain ⟨⟨⟩, hcompatible, hrest⟩ := bind_ok hrest
  obtain ⟨model, hmodel, hdecode⟩ := bind_ok hrest
  obtain rfl := requirePlainRecord_ok hconfig
  have hmodel := requirePlainRecord_ok hmodel
  obtain ⟨fields, prompt, model', tools, hfields, hkeys, hprompt, hmodel', -, htools, -, rfl⟩ :=
    decodeTurnConfig_reads hdecode
  cases hfields
  have hlookup : ∀ name, (JsValue.object (withModel
      (sanitizeModelValue isSensitiveKey (.object model)) config)).get name =
        if name = "model" then sanitizeModelValue isSensitiveKey (.object model)
        else (JsValue.object config).get name := by
    intro name
    refine lookup_withModel _ rfl name config (.inr ?_)
    change ((JsValue.object config).get "model").isUndefined = false
    rw [hmodel]
    rfl
  rw [hlookup, if_neg (by decide)] at hprompt htools
  rw [hlookup, if_pos rfl] at hmodel'
  cases hmodel'
  have hnames : (withModel (sanitizeModelValue isSensitiveKey (.object model)) config).map Prod.fst =
      config.map Prod.fst := by
    rw [withModel, List.map_map]
    refine List.map_congr_left fun field _ => ?_
    simp only [Function.comp_apply]
    split_ifs <;> rfl
  exact ⟨config, prompt, model, tools, rfl, assertExactKeys_congr hnames ▸ hkeys, hprompt, hmodel,
    htools, (assertJsonCompatible_iff _ _).1 hcompatible, rfl⟩

theorem get_configOf (prompt : String) (model : List (String × JsValue))
    (tools : Option (List JsValue)) :
    (configOf prompt model tools).get "system_prompt" = .string prompt ∧
      (configOf prompt model tools).get "model" = .object model ∧
      (configOf prompt model tools).get "tools" = (tools.map .array).getD .undefined := by
  have hstring : ∀ text, (JsValue.string text).isUndefined = false := fun _ => rfl
  have hobject : ∀ fields, (JsValue.object fields).isUndefined = false := fun _ => rfl
  have harray : ∀ elements, (JsValue.array elements).isUndefined = false := fun _ => rfl
  cases tools <;> simp [configOf, JsValue.get, JsValue.lookup, hstring, hobject, harray]

theorem decodeOptionalTools_again {tools : Option (List JsValue)}
    (h : decodeOptionalTools value = .ok tools) :
    decodeOptionalTools ((tools.map .array).getD .undefined) = .ok tools := by
  rcases decodeOptionalTools_cases h with rfl | ⟨elements, decoded, rfl, rfl, hdecoded⟩
  · rfl
  · simp only [Option.map_some, Option.getD_some, decodeOptionalTools,
      decodeTurnConfigTools_again hdecoded 0]
    rfl

/-- Of a config that is JSON, what it is decoded to is. -/
theorem isJson_configOf {prompt : String} {model : List (String × JsValue)}
    {tools : Option (List JsValue)} (hjson : isJson value = true)
    (hmodel : value.get "model" = .object model)
    (htools : decodeOptionalTools (value.get "tools") = .ok tools) :
    isJson (configOf prompt (sanitizeModelFields isSensitiveKey model) tools) = true := by
  have hmodelJson : fieldsAreJson model = true := by
    have hkept : isJson (value.get "model") = true := isJson_get hjson (by rw [hmodel]; rfl)
    rwa [hmodel] at hkept
  have hsanitized : fieldsAreJson (sanitizeModelFields isSensitiveKey model) = true :=
    fieldsAreJson_sanitize model hmodelJson
  rcases decodeOptionalTools_cases htools with rfl | ⟨elements, decoded, helements, rfl, hdecoded⟩
  · simp [configOf, isJson, fieldsAreJson, hsanitized]
  · have hkept : isJson (value.get "tools") = true := isJson_get hjson (by rw [helements]; rfl)
    rw [helements] at hkept
    simp [configOf, isJson, fieldsAreJson, hsanitized, decodeTurnConfigTools_json hkept hdecoded]

theorem assertExactKeys_configOf {prompt : String} {model : List (String × JsValue)}
    {tools : Option (List JsValue)} : ∃ fields, configOf prompt model tools = .object fields ∧
    assertExactKeys fields ["system_prompt", "model", "tools"] ["system_prompt", "model"]
      "turn_config" = .ok () := by
  refine ⟨_, rfl, ?_⟩
  cases tools <;> simp [assertExactKeys]

/-- The output is decoded to itself, with credentials rejected. -/
theorem decodeTurnConfig_output (h : sanitizeTurnConfig isSensitiveKey value = .ok output) :
    decodeTurnConfig isSensitiveKey output = .ok output ∧ isJson output = true := by
  obtain ⟨config, prompt, model, tools, -, -, -, hmodel, htools, hjson, rfl⟩ :=
    sanitizeTurnConfig_reads h
  have hjson' : isJson (configOf prompt (sanitizeModelFields isSensitiveKey model) tools) = true :=
    isJson_configOf hjson hmodel htools
  obtain ⟨hprompt, hmodel', htools'⟩ :=
    get_configOf prompt (sanitizeModelFields isSensitiveKey model) tools
  obtain ⟨fields, hfields, hkeys⟩ := @assertExactKeys_configOf prompt
    (sanitizeModelFields isSensitiveKey model) tools
  rw [hfields] at hprompt hmodel' htools' hjson'
  refine ⟨?_, by rw [hfields]; exact hjson'⟩
  have hdecode := decodeTurnConfig_of hkeys hprompt hmodel'
    (assertNoCredentialKeys_sanitize (.object model) _)
    (by rw [htools']; exact decodeOptionalTools_again htools) hjson'
  rw [hfields] at hdecode ⊢
  exact hdecode

/-- Sanitizing the output changes nothing. -/
theorem sanitize_output (h : sanitizeTurnConfig isSensitiveKey value = .ok output) :
    sanitizeTurnConfig isSensitiveKey output = .ok output := by
  obtain ⟨-, hjson⟩ := decodeTurnConfig_output h
  obtain ⟨config, prompt, model, tools, -, -, -, -, htools, -, rfl⟩ := sanitizeTurnConfig_reads h
  obtain ⟨hprompt, hmodel, htools'⟩ :=
    get_configOf prompt (sanitizeModelFields isSensitiveKey model) tools
  obtain ⟨fields, hfields, hkeys⟩ := @assertExactKeys_configOf prompt
    (sanitizeModelFields isSensitiveKey model) tools
  rw [hfields] at hprompt hmodel htools' hjson ⊢
  have hcompatible := (assertJsonCompatible_iff (.object fields) "turn_config").2 hjson
  have hsame : sanitizeModelValue isSensitiveKey
      (.object (sanitizeModelFields isSensitiveKey model)) =
        .object (sanitizeModelFields isSensitiveKey model) := sanitize_sanitize (.object model)
  have hmodelKept : withModel (.object (sanitizeModelFields isSensitiveKey model)) fields =
      fields := by
    have heq : fields = [("system_prompt", JsValue.string prompt),
        ("model", .object (sanitizeModelFields isSensitiveKey model))] ++
          (tools.map fun tools => ("tools", JsValue.array tools)).toList :=
      (JsValue.object.inj hfields).symm
    rw [heq]
    cases tools <;> simp [withModel]
  have hdecode := decodeTurnConfig_of hkeys hprompt hmodel (assertNoCredentialKeys_none _ _)
    (by rw [htools']; exact decodeOptionalTools_again htools) hjson
  unfold sanitizeTurnConfig
  rw [hcompatible, hmodel]
  simp only [requirePlainRecord, bind, Except.bind, hsame, hmodelKept, hdecode]
  rw [hfields]

/-- Configs that differ only in credentials have one output. -/
theorem sanitize_independent {value' output' : JsValue}
    (hagree : AgreeConfigs isSensitiveKey value value')
    (h : sanitizeTurnConfig isSensitiveKey value = .ok output)
    (h' : sanitizeTurnConfig isSensitiveKey value' = .ok output') : output' = output := by
  obtain ⟨config, config', rfl, rfl, hfields⟩ := hagree
  have hlookup : ∀ name, if name = "model" then
      Agree isSensitiveKey (JsValue.lookup name config) (JsValue.lookup name config')
      else JsValue.lookup name config = JsValue.lookup name config' := by
    intro name
    have hjson : fieldsAreJson config = true ∧ fieldsAreJson config' = true := by
      obtain ⟨_, _, _, _, _, _, _, _, _, hjson, _⟩ := sanitizeTurnConfig_reads h
      obtain ⟨_, _, _, _, _, _, _, _, _, hjson', _⟩ := sanitizeTurnConfig_reads h'
      exact ⟨hjson, hjson'⟩
    clear h h'
    induction hfields with
    | nil =>
      split_ifs
      · exact .same _
      · rfl
    | @cons field field' config config' hfield _ ih =>
      obtain ⟨key, member⟩ := field
      obtain ⟨key', member'⟩ := field'
      obtain ⟨rfl, hmember⟩ := hfield
      obtain ⟨hjson, hjson'⟩ := hjson
      rw [fieldsAreJson, Bool.and_eq_true] at hjson hjson'
      have hdefined : ∀ {v}, isJson v = true → v.isUndefined = false := by
        intro v hv
        cases v <;> first | rfl | cases hv
      have ih := ih ⟨hjson.2, hjson'.2⟩
      simp only [JsValue.lookup, hdefined hjson.1, hdefined hjson'.1, Bool.not_false, Bool.and_true,
        decide_eq_true_eq]
      simp only at hmember
      by_cases hkey : key = name
      · subst hkey
        simpa using hmember
      · simpa [hkey] using ih
  obtain ⟨_, prompt, model, tools, hconfig, -, hprompt, hmodel, htools, -, rfl⟩ :=
    sanitizeTurnConfig_reads h
  obtain ⟨_, prompt', model', tools', hconfig', -, hprompt', hmodel', htools', -, rfl⟩ :=
    sanitizeTurnConfig_reads h'
  have hpromptEq := hlookup "system_prompt"
  have hmodelAgree := hlookup "model"
  have htoolsEq := hlookup "tools"
  rw [if_neg (by decide)] at hpromptEq htoolsEq
  rw [if_pos rfl] at hmodelAgree
  simp only [JsValue.get] at hprompt hprompt' hmodel hmodel' htools htools'
  rw [hprompt, hprompt'] at hpromptEq
  rw [htoolsEq, htools'] at htools
  rw [hmodel, hmodel'] at hmodelAgree
  cases hpromptEq
  cases htools
  have hsanitized := hmodelAgree.sanitize_eq
  rw [sanitizeModelValue, sanitizeModelValue, JsValue.object.injEq] at hsanitized
  rw [hsanitized]

/-! ## Paths of configs -/

theorem decodeOptionalTools_none (h : decodeOptionalTools value = .ok none) :
    value = .undefined := by
  cases value with
  | undefined => rfl
  | array elements =>
    simp only [decodeOptionalTools] at h
    cases htools : decodeTurnConfigTools 0 elements <;> simp [htools, Except.map] at h
  | _ => simp [decodeOptionalTools] at h

/-- The tools are decoded to what they were, if none has an empty name. -/
theorem valueAt_tools {elements decoded : List JsValue}
    (h : decodeTurnConfigTools 0 elements = .ok decoded)
    (hnames : ∀ tool ∈ elements, hasEmptyName tool = false) (path : List PathStep) :
    (valueAt (.array decoded) path).map outside = (valueAt (.array elements) path).map outside := by
  have htools := decodeTurnConfigTools_forall₂ h
  rcases path with _ | ⟨name | i, path⟩
  · simp only [valueAt, Option.map_some, outside, htools.length_eq]
  · rfl
  · simp only [valueAt]
    by_cases hi : i < elements.length
    · have hi' : i < decoded.length := htools.length_eq ▸ hi
      obtain ⟨index, htool⟩ := htools.get hi hi'
      simp only [List.getElem?_eq_getElem hi, List.getElem?_eq_getElem hi', Option.bind_some]
      exact valueAt_tool htool (hnames _ (List.getElem_mem hi)) path
    · have hi' : ¬ i < decoded.length := htools.length_eq ▸ hi
      rw [List.getElem?_eq_none (by omega), List.getElem?_eq_none (by omega)]

/-- Without empty names, whatever is no credential is where it was. -/
theorem valueAt_output (h : sanitizeTurnConfig isSensitiveKey value = .ok output)
    (hnames : hasUnnamed value = false) {path : List PathStep}
    (hpath : isSensitivePath isSensitiveKey path = false) :
    (valueAt output path).map outside = (valueAt value path).map outside := by
  obtain ⟨config, prompt, model, tools, rfl, hkeys, hprompt, hmodel, htools, -, rfl⟩ :=
    sanitizeTurnConfig_reads h
  obtain ⟨hprompt', hmodel', htools'⟩ :=
    get_configOf prompt (sanitizeModelFields isSensitiveKey model) tools
  rw [hasUnnamed, Bool.or_eq_false_iff] at hnames
  obtain ⟨hnames, htoolNames⟩ := hnames
  have hallowed := names_allowed hkeys (by simpa [hasEmptyName] using hnames)
  rcases path with _ | ⟨name | i, path⟩
  · rfl
  · have hobject : ∀ (fields : List (String × JsValue)),
        valueAt (.object fields) (.key name :: path) =
          if ((JsValue.object fields).get name).isUndefined then none
          else valueAt ((JsValue.object fields).get name) path := fun _ => rfl
    unfold configOf at hprompt' hmodel' htools' ⊢
    rw [hobject, hobject]
    by_cases hname : name ∈ ["system_prompt", "model", "tools"]
    · simp only [List.mem_cons, List.not_mem_nil, or_false] at hname
      rcases hname with rfl | rfl | rfl
      · rw [hprompt, hprompt']
      · have hthrough : goesThrough isSensitiveKey path = false := hpath
        have hkept := valueAt_sanitize hthrough (.object model)
        rw [sanitizeModelValue] at hkept
        rw [hmodel, hmodel', if_neg (by simp [JsValue.isUndefined]),
          if_neg (by simp [JsValue.isUndefined]), hkept, Option.map_map]
        congr 1
        funext v
        exact outside_sanitize v
      · rw [htools']
        rcases tools with _ | decoded
        · rw [decodeOptionalTools_none htools]
          rfl
        · rcases decodeOptionalTools_cases htools with hnone | ⟨elements, decoded', helements, heq,
            hdecoded⟩
          · cases hnone
          · cases heq
            rw [helements] at htoolNames ⊢
            exact valueAt_tools hdecoded (by simpa using htoolNames) path
    · have habsent : (JsValue.object config).get name = .undefined :=
        lookup_eq_undefined fun field hfield heq => hname (heq ▸ hallowed field hfield)
      have habsent' : (configOf prompt (sanitizeModelFields isSensitiveKey model) tools).get name =
          .undefined := by
        refine lookup_eq_undefined fun field hfield heq => ?_
        subst heq
        refine hname ?_
        cases tools <;> simp at hfield
        · rcases hfield with rfl | rfl <;> simp
        · rcases hfield with rfl | rfl | rfl <;> simp
      unfold configOf at habsent'
      rw [habsent, habsent']
  · rfl

theorem isJson_of_mem {elements : List JsValue} {v : JsValue} (hjson : areJson elements = true)
    (h : v ∈ elements) : isJson v = true := by
  induction elements with
  | nil => cases h
  | cons w elements ih =>
    rw [areJson, Bool.and_eq_true] at hjson
    rcases List.mem_cons.1 h with rfl | h
    · exact hjson.1
    · exact ih hjson.2 h

/-- A member with an empty name is not where it was. -/
theorem exists_lost (h : sanitizeTurnConfig isSensitiveKey value = .ok output)
    (hnames : hasUnnamed value = true) :
    ∃ path, isSensitivePath isSensitiveKey path = false ∧
      (valueAt output path).map outside ≠ (valueAt value path).map outside := by
  obtain ⟨config, prompt, model, tools, rfl, -, -, -, htools, hjson, rfl⟩ :=
    sanitizeTurnConfig_reads h
  have hmember : ∀ fields, fieldsAreJson fields = true → hasEmptyName (.object fields) = true →
      ∃ v, valueAt (.object fields) [.key ""] = some v := by
    intro fields hfields hempty
    have hdefined : (JsValue.lookup "" fields).isUndefined = false :=
      lookup_defined hfields (by simpa [hasEmptyName] using hempty)
    exact ⟨JsValue.lookup "" fields, by simp [valueAt, hdefined]⟩
  rw [hasUnnamed, Bool.or_eq_true] at hnames
  rcases hnames with hempty | htoolNames
  · obtain ⟨v, hv⟩ := hmember config hjson hempty
    refine ⟨[.key ""], rfl, ?_⟩
    have hnone : valueAt (configOf prompt (sanitizeModelFields isSensitiveKey model) tools)
        [.key ""] = none := by
      cases tools <;> simp [configOf, valueAt, JsValue.lookup, JsValue.isUndefined]
    simp [hv, hnone]
  · rcases helements : (JsValue.object config).get "tools" with _ | _ | _ | _ | _ | elements | _ <;>
      rw [helements] at htoolNames htools <;> try cases htoolNames
    simp only [List.any_eq_true] at htoolNames
    obtain ⟨tool, htool, hempty⟩ := htoolNames
    obtain ⟨i, hi, rfl⟩ := List.getElem_of_mem htool
    rcases decodeOptionalTools_cases htools with rfl | ⟨elements', decoded, heq, rfl, hdecoded⟩
    · cases decodeOptionalTools_none htools
    · cases heq
      have hrelated := decodeTurnConfigTools_forall₂ hdecoded
      have hi' : i < decoded.length := hrelated.length_eq ▸ hi
      obtain ⟨index, hrelated⟩ := hrelated.get hi hi'
      obtain ⟨fields, name, description, schema, hobject, -, -, -, -, hdecoded'⟩ :=
        decodeTurnConfigTool_reads hrelated
      have htoolsJson : areJson elements = true := by
        have hkept : isJson (JsValue.get (.object config) "tools") = true :=
          isJson_get hjson (by rw [helements]; rfl)
        rwa [helements] at hkept
      have hfieldsJson : fieldsAreJson fields = true := by
        have hkept := isJson_of_mem htoolsJson (List.getElem_mem hi)
        simp only [List.get_eq_getElem] at hobject
        rwa [hobject] at hkept
      simp only [List.get_eq_getElem] at hobject hdecoded'
      rw [hobject] at hempty
      obtain ⟨v, hv⟩ := hmember fields hfieldsJson hempty
      refine ⟨[.key "tools", .index i, .key ""], rfl, ?_⟩
      have hsome : valueAt (.object config) [.key "tools", .index i, .key ""] = some v := by
        have hlookup : JsValue.lookup "tools" config = .array elements := helements
        simp only [valueAt, hlookup, JsValue.isUndefined, Bool.false_eq_true, if_false,
          List.getElem?_eq_getElem hi, Option.bind_some, hobject]
        exact hv
      have hnone : valueAt (configOf prompt (sanitizeModelFields isSensitiveKey model)
          (some decoded)) [.key "tools", .index i, .key ""] = none := by
        simp [configOf, valueAt, JsValue.lookup, JsValue.isUndefined, List.getElem?_eq_getElem hi',
          hdecoded', toolOf]
      simp [hsome, hnone]

/-- The model of the output has nothing at a path through the name of a credential. -/
theorem output_without_credentials (h : sanitizeTurnConfig isSensitiveKey value = .ok output)
    {path : List PathStep} (hpath : goesThrough isSensitiveKey path = true) :
    valueAt (output.get "model") path = none := by
  obtain ⟨_, prompt, model, tools, -, -, -, -, -, -, rfl⟩ := sanitizeTurnConfig_reads h
  rw [(get_configOf prompt (sanitizeModelFields isSensitiveKey model) tools).2.1]
  exact valueAt_sanitize_sensitive hpath (.object model)

/-! ## Envelopes with the output -/

theorem lookup_append_of_ne {name key : String} (hname : key ≠ name) (v : JsValue)
    (fields : List (String × JsValue)) :
    JsValue.lookup name (fields ++ [(key, v)]) = JsValue.lookup name fields := by
  rw [JsValue.lookup_append]
  split_ifs with hundefined
  · rw [JsValue.eq_undefined_of_isUndefined hundefined]
    simp [JsValue.lookup, hname]
  · rfl

theorem lookup_append_of_absent {key : String} {v : JsValue} (hv : v.isUndefined = false)
    {fields : List (String × JsValue)} (h : ∀ field ∈ fields, field.1 ≠ key) :
    JsValue.lookup key (fields ++ [(key, v)]) = v := by
  have hundefined : JsValue.undefined.isUndefined = true := rfl
  rw [JsValue.lookup_append, lookup_eq_undefined h, if_pos hundefined]
  simp [JsValue.lookup, hv]

/-- A member that may be there, and need not, is not missed. -/
theorem assertExactKeys_append {fields : List (String × JsValue)} {key context : String}
    {v : JsValue} {allowed required : List String} (hallowed : key ∈ allowed)
    (hrequired : key ∉ required) : assertExactKeys (fields ++ [(key, v)]) allowed required context =
      assertExactKeys fields allowed required context := by
  have hextra : ((fields ++ [(key, v)]).map (·.1)).find? (· ∉ allowed) =
      (fields.map (·.1)).find? (· ∉ allowed) := by
    rw [List.map_append, List.find?_append]
    simp [hallowed]
  have hmissing : required.find? (fun k => !(fields ++ [(key, v)]).any (·.1 = k)) =
      required.find? (fun k => !fields.any (·.1 = k)) := by
    refine List.find?_congr fun k hk => ?_
    have hne : key ≠ k := fun h => hrequired (h ▸ hk)
    rw [List.any_append]
    simp [hne]
  unfold assertExactKeys
  rw [hextra, hmissing]

theorem fieldsAreJson_append {fields : List (String × JsValue)} {key : String} {v : JsValue}
    (hfields : fieldsAreJson fields = true) (hv : isJson v = true) :
    fieldsAreJson (fields ++ [(key, v)]) = true := by
  induction fields with
  | nil => simp [fieldsAreJson, hv]
  | cons field fields ih =>
    obtain ⟨k, w⟩ := field
    rw [fieldsAreJson, Bool.and_eq_true] at hfields
    rw [List.cons_append, fieldsAreJson, Bool.and_eq_true]
    exact ⟨hfields.1, ih hfields.2⟩

/-- A user's envelope without a config is decoded with one that is decoded to itself. -/
theorem decodeEnvelope_withConfig {fields : List (String × JsValue)}
    {envelope : CanonicalHistoryEnvelope} (habsent : ∀ field ∈ fields, field.1 ≠ "turn_config")
    (h : decodeCanonicalHistoryEnvelope isSensitiveKey (.object fields) = .ok envelope)
    (hrole : envelope.message.hasRole "user" = true)
    (hconfig : decodeTurnConfig isSensitiveKey output = .ok output) (hjson : isJson output = true) :
    decodeCanonicalHistoryEnvelope isSensitiveKey (.object (fields ++ [("turn_config", output)])) =
      .ok { envelope with turnConfig := some output } := by
  have hdefined : output.isUndefined = false := by
    cases output <;> first | rfl | cases hjson
  obtain ⟨fields', hfields', h⟩ := bind_ok h
  cases requirePlainRecord_ok hfields'
  obtain ⟨⟨⟩, hkeys, h⟩ := bind_ok h
  obtain ⟨⟨⟩, hcompatible, h⟩ := bind_ok h
  obtain ⟨messageId, hmessageId, h⟩ := bind_ok h
  obtain ⟨turnId, hturnId, h⟩ := bind_ok h
  obtain ⟨message, hmessage, h⟩ := bind_ok h
  obtain ⟨turnConfig, -, h⟩ := bind_ok h
  obtain ⟨artifact, hartifact, h⟩ := bind_ok h
  simp only [pure, Except.pure, Except.ok.injEq] at h
  subst h
  have hget : ∀ name, name ≠ "turn_config" →
      (JsValue.object (fields ++ [("turn_config", output)])).get name =
        (JsValue.object fields).get name :=
    fun name hname => lookup_append_of_ne (Ne.symm hname) output fields
  have hgetConfig : (JsValue.object (fields ++ [("turn_config", output)])).get "turn_config" =
      output := lookup_append_of_absent hdefined habsent
  have hkeys' : assertExactKeys (fields ++ [("turn_config", output)])
      ["message_id", "turn_id", "message", "turn_config", "history_artifact"]
      ["message_id", "turn_id", "message"] "envelope" = .ok () := by
    rw [assertExactKeys_append (by simp) (by simp), hkeys]
  have hcompatible' := (assertJsonCompatible_iff (.object (fields ++ [("turn_config", output)]))
    "envelope").2 (fieldsAreJson_append ((assertJsonCompatible_iff _ _).1 hcompatible) hjson)
  have hturnConfig : decodeOptionalTurnConfig isSensitiveKey message output = .ok (some output) := by
    simp only at hrole
    simp [decodeOptionalTurnConfig, hdefined, hrole, hconfig, Except.map]
  unfold decodeCanonicalHistoryEnvelope
  rw [hgetConfig, hget _ (by decide), hget _ (by decide), hget _ (by decide), hget _ (by decide)]
  simp only [requirePlainRecord, bind, Except.bind, hkeys', hcompatible', hmessageId, hturnId,
    hmessage, hturnConfig, hartifact, pure, Except.pure]

end Config

section Canonical

variable {value output : JsValue}

/-- The output of sanitizing is what is promised of it exactly if neither the config nor one of its
tools has a member with the empty name. -/
theorem sanitized_iff_named (h : sanitizeCanonicalTurnConfig value = .ok output) :
    Sanitized value output ↔ hasUnnamed value = false := by
  constructor
  · intro hsanitized
    by_contra hnames
    obtain ⟨path, hpath, hlost⟩ := exists_lost h (Bool.eq_true_of_not_eq_false hnames)
    exact hlost (hsanitized.keeps path hpath)
  · intro hnames
    obtain ⟨hdecode, hjson⟩ := decodeTurnConfig_output h
    exact {
      accepted := fun fields envelope habsent henvelope hrole =>
        decodeEnvelope_withConfig habsent henvelope hrole hdecode hjson
      withoutCredentials := fun path hpath => output_without_credentials h hpath
      again := sanitize_output h
      keeps := fun path hpath => valueAt_output h hnames hpath
      independent := fun value' output' hagree h' => sanitize_independent hagree h h' }

/-- A config with a key, and a further member of the name. -/
def keyedConfig (name : String) : JsValue :=
  .object [("system_prompt", .string "Be brief."),
    ("model", .object [("provider", .string "local"), ("apiKey", .string "k")]),
    (name, .array [])]

theorem keyedConfig_sensitive : CredentialKeys.isSensitiveKey "provider" = false ∧
    CredentialKeys.isSensitiveKey "apiKey" = true := by
  decide +kernel

theorem sanitized_iff_named_tools : Sanitized (keyedConfig "tools")
    (.object [("system_prompt", .string "Be brief."),
      ("model", .object [("provider", .string "local")]), ("tools", .array [])]) := by
  refine (sanitized_iff_named ?_).2 rfl
  simp [sanitizeCanonicalTurnConfig, sanitizeTurnConfig, keyedConfig, requirePlainRecord,
    assertJsonCompatible, assertJsonCompatibleObject, assertJsonCompatibleArray, JsValue.get,
    JsValue.lookup, JsValue.isUndefined, withModel, sanitizeModelValue, sanitizeModelFields,
    keyedConfig_sensitive, decodeTurnConfig, assertExactKeys, isString, assertNoCredentialKeys,
    assertNoCredentialFields, decodeOptionalTools, decodeTurnConfigTools, bind, Except.bind, pure,
    Except.pure, Except.map]

/-- A member with the empty name is accepted and dropped. -/
theorem empty_name_dropped : ¬ ∀ value output, sanitizeCanonicalTurnConfig value = .ok output →
    Sanitized value output := by
  intro h
  have hsanitize : sanitizeCanonicalTurnConfig (keyedConfig "") =
      .ok (.object [("system_prompt", .string "Be brief."),
        ("model", .object [("provider", .string "local")])]) := by
    simp [sanitizeCanonicalTurnConfig, sanitizeTurnConfig, keyedConfig, requirePlainRecord,
      assertJsonCompatible, assertJsonCompatibleObject, assertJsonCompatibleArray, JsValue.get,
      JsValue.lookup, JsValue.isUndefined, withModel, sanitizeModelValue, sanitizeModelFields,
      keyedConfig_sensitive, decodeTurnConfig, assertExactKeys, isString, assertNoCredentialKeys,
      assertNoCredentialFields, decodeOptionalTools, bind, Except.bind, pure, Except.pure]
  have hkeeps := (h _ _ hsanitize).keeps [.key ""] rfl
  simp [keyedConfig, valueAt, JsValue.lookup, JsValue.isUndefined] at hkeeps

end Canonical

end HistoryEnvelope

end Kinetick
