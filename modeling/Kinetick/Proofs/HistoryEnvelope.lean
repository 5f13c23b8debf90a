import Mathlib.Tactic.SplitIfs
import Kinetick.History.Envelope
import Kinetick.Proofs.ToolRounds

/-!
# Envelopes decoded again

What was decoded is decoded to itself: every check that it passed it passes again, and the fields
that were kept are kept.
-/

namespace Kinetick

namespace HistoryEnvelope

open HistoryReduction (bind_ok)
open HistorySequence (isPlainRecord nonEmptyString isFiniteNumber isNumber isRevision)

/-! ## Values of JSON -/

mutual

def isJson : JsValue → Bool
  | .undefined => false
  | .number n => n.isFinite
  | .array elements => areJson elements
  | .object fields => fieldsAreJson fields
  | _ => true

def areJson : List JsValue → Bool
  | [] => true
  | value :: elements => isJson value && areJson elements

def fieldsAreJson : List (String × JsValue) → Bool
  | [] => true
  | (_, value) :: fields => isJson value && fieldsAreJson fields

end

mutual

theorem assertJsonCompatible_iff : ∀ (value : JsValue) (path : String),
    assertJsonCompatible value path = .ok () ↔ isJson value = true
  | .undefined, path => by simp [assertJsonCompatible, isJson, incompatible]
  | .null, path => by simp [assertJsonCompatible, isJson]
  | .boolean _, path => by simp [assertJsonCompatible, isJson]
  | .string _, path => by simp [assertJsonCompatible, isJson]
  | .number n, path => by
    cases hn : n.isFinite <;> simp [assertJsonCompatible, isJson, incompatible, hn]
  | .array elements, path => by
    rw [assertJsonCompatible, isJson]
    exact assertJsonCompatibleArray_iff elements path 0
  | .object fields, path => by
    rw [assertJsonCompatible, isJson]
    exact assertJsonCompatibleObject_iff fields path

theorem assertJsonCompatibleArray_iff : ∀ (elements : List JsValue) (path : String) (index : ℕ),
    assertJsonCompatibleArray elements path index = .ok () ↔ areJson elements = true
  | [], path, index => by simp [assertJsonCompatibleArray, areJson]
  | value :: elements, path, index => by
    have hvalue := assertJsonCompatible_iff value s!"{path}[{index}]"
    have hrest := assertJsonCompatibleArray_iff elements path (index + 1)
    rw [assertJsonCompatibleArray, areJson, Bool.and_eq_true, ← hvalue, ← hrest]
    cases assertJsonCompatible value s!"{path}[{index}]" <;> simp [bind, Except.bind]

theorem assertJsonCompatibleObject_iff : ∀ (fields : List (String × JsValue)) (path : String),
    assertJsonCompatibleObject fields path = .ok () ↔ fieldsAreJson fields = true
  | [], path => by simp [assertJsonCompatibleObject, fieldsAreJson]
  | (key, value) :: fields, path => by
    have hvalue := assertJsonCompatible_iff value s!"{path}.{key}"
    have hrest := assertJsonCompatibleObject_iff fields path
    rw [assertJsonCompatibleObject, fieldsAreJson, Bool.and_eq_true, ← hvalue, ← hrest]
    cases assertJsonCompatible value s!"{path}.{key}" <;> simp [bind, Except.bind]

end

theorem isJson_lookup (key : String) : ∀ {fields : List (String × JsValue)},
    fieldsAreJson fields = true → (JsValue.lookup key fields).isUndefined = false →
      isJson (JsValue.lookup key fields) = true
  | [], _, hdefined => by simp [JsValue.lookup, JsValue.isUndefined] at hdefined
  | (k, value) :: fields, hjson, hdefined => by
    rw [fieldsAreJson, Bool.and_eq_true] at hjson
    rw [JsValue.lookup] at hdefined ⊢
    split_ifs at hdefined ⊢
    · exact hjson.1
    · exact isJson_lookup key hjson.2 hdefined

theorem isJson_get {value : JsValue} (hjson : isJson value = true) {key : String}
    (hdefined : (value.get key).isUndefined = false) : isJson (value.get key) = true := by
  cases value with
  | object fields => exact isJson_lookup key hjson hdefined
  | _ => simp [JsValue.get, JsValue.isUndefined] at hdefined

/-! ## Checks that were passed -/

theorem requirePlainRecord_ok {value : JsValue} {context : String}
    {fields : List (String × JsValue)} (h : requirePlainRecord value context = .ok fields) :
    value = .object fields := by
  cases value with
  | object fields' =>
    simp only [requirePlainRecord, Except.ok.injEq] at h
    rw [h]
  | _ => simp [requirePlainRecord, invalidEnvelope] at h

theorem requireNonEmptyString_ok {value : JsValue} {context text : String}
    (h : requireNonEmptyString value context = .ok text) :
    value = .string text ∧ jsTrim text ≠ "" := by
  cases value with
  | string text' =>
    by_cases hblank : jsTrim text' = ""
    · simp [requireNonEmptyString, nonEmptyString, hblank, invalidEnvelope] at h
    · simp only [requireNonEmptyString, nonEmptyString, if_neg hblank, Except.ok.injEq] at h
      exact ⟨by rw [h], h ▸ hblank⟩
  | _ => simp [requireNonEmptyString, nonEmptyString, invalidEnvelope] at h

theorem requireNonEmptyString_string {text context : String} (h : jsTrim text ≠ "") :
    requireNonEmptyString (.string text) context = .ok text := by
  simp [requireNonEmptyString, nonEmptyString, h]

theorem isString_eq {value : JsValue} (h : isString value = true) :
    ∃ text, value = .string text := by
  cases value with
  | string text => exact ⟨text, rfl⟩
  | _ => simp [isString] at h

/-! ## Messages -/

@[simp] theorem invalidEnvelope_ne {α : Type} (reason : String) (value : α) :
    (invalidEnvelope reason : Except String α) ≠ .ok value := nofun

/-- A message is decoded to itself, or to its role and summary. -/
theorem decodeMessage_cases {value : JsValue} {message : AgentMessage}
    (h : decodeMessage value = .ok message) :
    value = .object message.fields ∨ ∃ text, message.fields =
      [("role", .string "compactionSummary"), ("summary", .string text)] := by
  obtain ⟨fields, hfields, hrest⟩ := bind_ok h
  obtain rfl := requirePlainRecord_ok hfields
  obtain ⟨role, hrole, h⟩ := bind_ok hrest
  split_ifs at h with hsummary hfinite
  · unfold decodeCompactionSummary at h
    dsimp only at h
    split_ifs at h with hstring hminimal
    · simp at h
    · unfold decodeMinimalCompactionSummary at h
      split_ifs at h
      · simp at h
      · simp only [Except.ok.injEq] at h
        obtain ⟨text, htext⟩ := isString_eq (by simpa using hstring)
        exact Or.inr ⟨text, by rw [← h, htext]⟩
    · unfold decodeFullCompactionSummary at h
      split_ifs at h
      · simp at h
      · simp at h
      · simp only [Except.ok.injEq] at h
        exact Or.inl (by rw [← h])
  · simp at h
  · simp only [pure, Except.pure, Except.ok.injEq] at h
    exact Or.inl (by rw [← h])

theorem decodeMessage_again {value : JsValue} {message : AgentMessage}
    (h : decodeMessage value = .ok message) :
    decodeMessage (.object message.fields) = .ok message := by
  rcases decodeMessage_cases h with rfl | ⟨text, hfields⟩
  · exact h
  · obtain ⟨fields⟩ := message
    simp only at hfields
    subst hfields
    have hne : jsTrim "compactionSummary" ≠ "" := by decide
    simp [decodeMessage, requirePlainRecord, AgentMessage.get, JsValue.lookup,
      JsValue.isUndefined, requireNonEmptyString_string hne, decodeCompactionSummary, isString,
      AgentMessage.hasOwn, decodeMinimalCompactionSummary, bind, Except.bind]

theorem decodeMessage_json {value : JsValue} {message : AgentMessage}
    (hjson : isJson value = true) (h : decodeMessage value = .ok message) :
    fieldsAreJson message.fields = true := by
  rcases decodeMessage_cases h with rfl | ⟨text, hfields⟩
  · exact hjson
  · rw [hfields]
    simp [fieldsAreJson, isJson]

/-! ## Configurations of turns -/

/-- A tool is decoded to an object of its three fields, whatever its index. -/
theorem decodeTurnConfigTool_cases {value decoded : JsValue} {index : ℕ}
    (h : decodeTurnConfigTool value index = .ok decoded) :
    ∃ name description schema, jsTrim name ≠ "" ∧
      value.get "schema" = .object schema ∧
      decoded = .object [("tool_name", .string name), ("description", .string description),
        ("schema", .object schema)] := by
  obtain ⟨fields, hfields, h⟩ := bind_ok h
  obtain ⟨-, -, h⟩ := bind_ok h
  obtain ⟨name, hname, h⟩ := bind_ok h
  obtain ⟨-, hne⟩ := requireNonEmptyString_ok hname
  split_ifs at h with hdescription
  · simp at h
  · obtain ⟨schema, hschema, h⟩ := bind_ok h
    obtain ⟨description, hdescription⟩ := isString_eq (by simpa using hdescription)
    simp only [pure, Except.pure, Except.ok.injEq] at h
    exact ⟨name, description, schema, hne, requirePlainRecord_ok hschema, by
      rw [← h, hdescription]⟩

theorem decodeTurnConfigTool_again {value decoded : JsValue} {index : ℕ}
    (h : decodeTurnConfigTool value index = .ok decoded) (index' : ℕ) :
    decodeTurnConfigTool decoded index' = .ok decoded := by
  obtain ⟨name, description, schema, hne, -, rfl⟩ := decodeTurnConfigTool_cases h
  simp [decodeTurnConfigTool, requirePlainRecord, assertExactKeys, JsValue.get, JsValue.lookup,
    JsValue.isUndefined, requireNonEmptyString_string hne, isString, bind, Except.bind, pure,
    Except.pure]

theorem decodeTurnConfigTool_json {value decoded : JsValue} {index : ℕ}
    (hjson : isJson value = true) (h : decodeTurnConfigTool value index = .ok decoded) :
    isJson decoded = true := by
  obtain ⟨name, description, schema, -, hschema, rfl⟩ := decodeTurnConfigTool_cases h
  have hdefined : (value.get "schema").isUndefined = false := by rw [hschema]; rfl
  have hkept := isJson_get hjson hdefined
  rw [hschema] at hkept
  simp [isJson, fieldsAreJson] at hkept ⊢
  exact hkept

theorem decodeTurnConfigTools_again : ∀ {tools decoded : List JsValue} {index : ℕ},
    decodeTurnConfigTools index tools = .ok decoded → ∀ index' : ℕ,
      decodeTurnConfigTools index' decoded = .ok decoded
  | [], decoded, index, h, index' => by
    simp only [decodeTurnConfigTools, Except.ok.injEq] at h
    subst h
    rfl
  | tool :: tools, decoded, index, h, index' => by
    obtain ⟨first, hfirst, h⟩ := bind_ok h
    obtain ⟨rest, hrest, h⟩ := bind_ok h
    simp only [pure, Except.pure, Except.ok.injEq] at h
    subst h
    have hagain := decodeTurnConfigTool_again hfirst index'
    have hagain' := decodeTurnConfigTools_again hrest (index' + 1)
    simp [decodeTurnConfigTools, hagain, hagain', bind, Except.bind, pure, Except.pure]

theorem decodeTurnConfigTools_json : ∀ {tools decoded : List JsValue} {index : ℕ},
    areJson tools = true → decodeTurnConfigTools index tools = .ok decoded →
      areJson decoded = true
  | [], decoded, index, _, h => by
    simp only [decodeTurnConfigTools, Except.ok.injEq] at h
    subst h
    rfl
  | tool :: tools, decoded, index, hjson, h => by
    obtain ⟨first, hfirst, h⟩ := bind_ok h
    obtain ⟨rest, hrest, h⟩ := bind_ok h
    simp only [pure, Except.pure, Except.ok.injEq] at h
    subst h
    rw [areJson, Bool.and_eq_true] at hjson ⊢
    exact ⟨decodeTurnConfigTool_json hjson.1 hfirst, decodeTurnConfigTools_json hjson.2 hrest⟩

theorem decodeOptionalTools_cases {value : JsValue} {tools : Option (List JsValue)}
    (h : decodeOptionalTools value = .ok tools) :
    tools = none ∨ ∃ elements decoded, value = .array elements ∧ tools = some decoded ∧
      decodeTurnConfigTools 0 elements = .ok decoded := by
  cases value with
  | undefined =>
    simp only [decodeOptionalTools, Except.ok.injEq] at h
    exact Or.inl h.symm
  | array elements =>
    simp only [decodeOptionalTools] at h
    cases htools : decodeTurnConfigTools 0 elements with
    | error e => simp [htools, Except.map] at h
    | ok decoded =>
      simp only [htools, Except.map, Except.ok.injEq] at h
      exact Or.inr ⟨elements, decoded, rfl, h.symm, htools⟩
  | _ => simp [decodeOptionalTools] at h

variable {isSensitiveKey : String → Bool}

theorem decodeTurnConfig_again {value config : JsValue}
    (h : decodeTurnConfig isSensitiveKey value = .ok config) :
    decodeTurnConfig isSensitiveKey config = .ok config ∧ isJson config = true ∧
      config.isUndefined = false := by
  obtain ⟨fields, hfields, h⟩ := bind_ok h
  obtain ⟨-, -, h⟩ := bind_ok h
  split_ifs at h with hprompt
  · simp at h
  obtain ⟨prompt, hprompt⟩ := isString_eq (by simpa using hprompt)
  obtain ⟨model, hmodel, h⟩ := bind_ok h
  obtain ⟨⟨⟩, hcredentials, h⟩ := bind_ok h
  obtain ⟨tools, htools, h⟩ := bind_ok h
  obtain ⟨⟨⟩, hcompatible, h⟩ := bind_ok h
  have hjson := (assertJsonCompatible_iff _ _).1 hcompatible
  have hmodel := requirePlainRecord_ok hmodel
  have hmodelJson : fieldsAreJson model = true := by
    have hdefined : (value.get "model").isUndefined = false := by rw [hmodel]; rfl
    have hkept := isJson_get hjson hdefined
    rwa [hmodel] at hkept
  simp only [pure, Except.pure, Except.ok.injEq] at h
  rw [hprompt] at h
  rcases decodeOptionalTools_cases htools with rfl | ⟨elements, decoded, helements, rfl, hdecoded⟩
  · subst h
    refine ⟨?_, by simp [isJson, fieldsAreJson, hmodelJson], rfl⟩
    simp [decodeTurnConfig, requirePlainRecord, assertExactKeys, JsValue.get, JsValue.lookup,
      JsValue.isUndefined, isString, hcredentials, decodeOptionalTools, assertJsonCompatible_iff,
      assertJsonCompatible, assertJsonCompatibleObject, (assertJsonCompatibleObject_iff _ _).2
      hmodelJson, bind, Except.bind, pure, Except.pure]
  · subst h
    have htoolsJson : areJson decoded = true := by
      have hdefined : (value.get "tools").isUndefined = false := by rw [helements]; rfl
      have hkept := isJson_get hjson hdefined
      rw [helements] at hkept
      exact decodeTurnConfigTools_json hkept hdecoded
    have hagain := decodeTurnConfigTools_again hdecoded 0
    refine ⟨?_, by simp [isJson, fieldsAreJson, hmodelJson, htoolsJson], rfl⟩
    simp [decodeTurnConfig, requirePlainRecord, assertExactKeys, JsValue.get, JsValue.lookup,
      JsValue.isUndefined, isString, hcredentials, decodeOptionalTools, hagain, Except.map,
      assertJsonCompatible, assertJsonCompatibleObject, (assertJsonCompatibleObject_iff _ _).2
      hmodelJson, (assertJsonCompatibleArray_iff _ _ _).2 htoolsJson, bind, Except.bind, pure,
      Except.pure]

/-! ## Artifacts -/

@[simp] theorem invalidArtifact_ne {α : Type} (value : α) :
    (invalidArtifact : Except String α) ≠ .ok value := nofun

theorem requireGeneration_ok {value : JsValue} {minimum : ℤ} {generation : ℕ}
    (h : requireGeneration value minimum = .ok generation) (hminimum : 0 ≤ minimum) :
    minimum ≤ generation ∧ generation ≤ 9007199254740991 := by
  unfold requireGeneration at h
  cases hn : HistorySequence.safeInteger value minimum with
  | none => simp [hn] at h
  | some n =>
    simp only [hn, Except.ok.injEq] at h
    obtain ⟨hsafe, hle⟩ := Option.filter_eq_some_iff.1 hn
    have hbound : n.natAbs ≤ 9007199254740991 := by
      cases value with
      | number number =>
        cases number with
        | finite q =>
          simp only [JsValue.safeInteger] at hsafe
          split_ifs at hsafe with hq
          simp only [Option.some.injEq] at hsafe
          exact hsafe ▸ hq.2
        | _ => simp [JsValue.safeInteger] at hsafe
      | _ => simp [JsValue.safeInteger] at hsafe
    simp only [decide_eq_true_eq] at hle
    omega

theorem requireGeneration_number {generation : ℕ} {minimum : ℤ} (hle : minimum ≤ generation)
    (hbound : generation ≤ 9007199254740991) :
    requireGeneration (numberJson generation) minimum = .ok generation := by
  have hsafe : (numberJson generation).safeInteger = some (generation : ℤ) := by
    simp [numberJson, JsValue.safeInteger, hbound]
  rw [requireGeneration, HistorySequence.safeInteger, hsafe,
    Option.filter_some_pos (by simpa using hle)]
  rfl

theorem requireProducer_text (producer : HistoryProducer) :
    requireProducer (.string (producerText producer)) = .ok producer := by
  cases producer <;> simp [requireProducer, producerText, JsValue.isText]

theorem requireText_ok {accepts : String → Bool} {value : JsValue} {text : String}
    (h : requireText accepts value = .ok text) : accepts text = true := by
  cases value with
  | string text' =>
    simp only [requireText] at h
    split_ifs at h with haccepts
    · simp only [Except.ok.injEq] at h
      exact h ▸ haccepts
    · simp at h
  | _ => simp [requireText] at h

theorem requireText_string {accepts : String → Bool} {text : String} (h : accepts text = true) :
    requireText accepts (.string text) = .ok text := by
  simp [requireText, h]

theorem decodeArtifact_again {value : JsValue} {artifact : CanonicalHistoryArtifact}
    (h : decodeCanonicalHistoryArtifact value = .ok artifact) :
    decodeCanonicalHistoryArtifact (artifactJson artifact) = .ok artifact := by
  obtain ⟨fields, hfields, h⟩ := bind_ok h
  obtain ⟨-, -, h⟩ := bind_ok h
  split_ifs at h
  · simp at h
  obtain ⟨generation, hgeneration, h⟩ := bind_ok h
  obtain ⟨producer, hproducer, h⟩ := bind_ok h
  obtain ⟨parentFields, hparent, h⟩ := bind_ok h
  obtain ⟨-, -, h⟩ := bind_ok h
  obtain ⟨parentGeneration, hparentGeneration, h⟩ := bind_ok h
  split_ifs at h with hchain
  · simp at h
  obtain ⟨compactionId, hcompactionId, h⟩ := bind_ok h
  obtain ⟨revision, hrevision, h⟩ := bind_ok h
  simp only [pure, Except.pure, Except.ok.injEq] at h
  subst h
  obtain ⟨hmin, hbound⟩ := requireGeneration_ok hgeneration (by omega)
  obtain ⟨hparentMin, hparentBound⟩ := requireGeneration_ok hparentGeneration (by omega)
  have hread := requireGeneration_number hmin hbound
  have hparentRead := requireGeneration_number hparentMin hparentBound
  have hid : requireCompactionId (.string compactionId) = .ok compactionId :=
    requireText_string (requireText_ok hcompactionId)
  have hrev : requireRevision (.string revision) = .ok revision :=
    requireText_string (requireText_ok hrevision)
  have hversion : isNumber (numberJson 1) 1 = true := by simp [isNumber, numberJson]
  have hnumber : ∀ n, (numberJson n).isUndefined = false := fun _ => rfl
  have hstring : ∀ text, (JsValue.string text).isUndefined = false := fun _ => rfl
  have hobject : ∀ fields, (JsValue.object fields).isUndefined = false := fun _ => rfl
  simp [decodeCanonicalHistoryArtifact, artifactJson, requirePlainRecord, assertExactKeys,
    JsValue.get, JsValue.lookup, hnumber, hstring, hobject, hversion, hread, hparentRead,
    requireProducer_text, hid, hrev, not_not.1 hchain, bind, Except.bind, pure, Except.pure]

theorem isJson_artifact (artifact : CanonicalHistoryArtifact) :
    isJson (artifactJson artifact) = true := by
  have hnumber : ∀ n, isJson (numberJson n) = true := fun _ => rfl
  simp [artifactJson, isJson, fieldsAreJson, hnumber]

/-! ## Envelopes -/

/-- What a decoded envelope has. -/
structure Proper (isSensitiveKey : String → Bool) (envelope : CanonicalHistoryEnvelope) :
    Prop where
  messageId : isMessageId envelope.messageId = true
  turnId : jsTrim envelope.turnId ≠ ""
  message : decodeMessage (.object envelope.message.fields) = .ok envelope.message
  messageJson : fieldsAreJson envelope.message.fields = true
  turnConfig : ∀ config, envelope.turnConfig = some config →
    envelope.message.hasRole "user" = true ∧
      decodeTurnConfig isSensitiveKey config = .ok config ∧ isJson config = true ∧
        config.isUndefined = false
  artifact : ∀ artifact, envelope.historyArtifact = some artifact →
    decodeCanonicalHistoryArtifact (artifactJson artifact) = .ok artifact

theorem decodeEnvelope_proper {value : JsValue} {envelope : CanonicalHistoryEnvelope}
    (h : decodeCanonicalHistoryEnvelope isSensitiveKey value = .ok envelope) :
    Proper isSensitiveKey envelope := by
  obtain ⟨fields, hfields, h⟩ := bind_ok h
  obtain ⟨-, -, h⟩ := bind_ok h
  obtain ⟨⟨⟩, hcompatible, h⟩ := bind_ok h
  have hjson := (assertJsonCompatible_iff _ _).1 hcompatible
  obtain ⟨messageId, hmessageId, h⟩ := bind_ok h
  obtain ⟨turnId, hturnId, h⟩ := bind_ok h
  obtain ⟨message, hmessage, h⟩ := bind_ok h
  obtain ⟨turnConfig, hturnConfig, h⟩ := bind_ok h
  obtain ⟨artifact, hartifact, h⟩ := bind_ok h
  simp only [pure, Except.pure, Except.ok.injEq] at h
  subst h
  have hmessageJson : isJson (value.get "message") = true := by
    refine isJson_get hjson ?_
    rcases decodeMessage_cases hmessage with hobject | ⟨text, hfields⟩
    · rw [hobject]
      rfl
    · obtain ⟨fields, hfields, -⟩ := bind_ok hmessage
      rw [requirePlainRecord_ok hfields]
      rfl
  refine ⟨?_, (requireNonEmptyString_ok hturnId).2, decodeMessage_again hmessage,
    decodeMessage_json hmessageJson hmessage, fun config hconfig => ?_, fun artifact' h' => ?_⟩
  · simp only [decodeMessageId] at hmessageId
    split at hmessageId
    · split_ifs at hmessageId with hid
      · simp only [Except.ok.injEq] at hmessageId
        exact hmessageId ▸ hid
      · simp at hmessageId
    · simp at hmessageId
  · simp only at hconfig
    subst hconfig
    unfold decodeOptionalTurnConfig at hturnConfig
    split_ifs at hturnConfig with hundefined hrole
    · simp at hturnConfig
    · simp at hturnConfig
    · cases hdecode : decodeTurnConfig isSensitiveKey (value.get "turn_config") with
      | error e => simp [hdecode, Except.map] at hturnConfig
      | ok decoded =>
        simp only [hdecode, Except.map, Except.ok.injEq, Option.some.injEq] at hturnConfig
        exact ⟨by simpa using hrole, hturnConfig ▸ decodeTurnConfig_again hdecode⟩
  · simp only at h'
    subst h'
    unfold decodeOptionalArtifact at hartifact
    split_ifs at hartifact
    · simp at hartifact
    · cases hdecode : decodeCanonicalHistoryArtifact (value.get "history_artifact") with
      | error e => simp [hdecode, Except.map] at hartifact
      | ok decoded =>
        simp only [hdecode, Except.map, Except.ok.injEq, Option.some.injEq] at hartifact
        exact hartifact ▸ decodeArtifact_again hdecode

section Again

variable {envelope : CanonicalHistoryEnvelope}

theorem envelopeJson_get (hconfig : ∀ config, envelope.turnConfig = some config →
    config.isUndefined = false) :
    (envelopeJson envelope).get "message_id" = .string envelope.messageId ∧
      (envelopeJson envelope).get "turn_id" = .string envelope.turnId ∧
      (envelopeJson envelope).get "message" = .object envelope.message.fields ∧
      (envelopeJson envelope).get "turn_config" = envelope.turnConfig.getD .undefined ∧
      (envelopeJson envelope).get "history_artifact" =
        (envelope.historyArtifact.map artifactJson).getD .undefined := by
  have hstring : ∀ text, (JsValue.string text).isUndefined = false := fun _ => rfl
  have hobject : ∀ fields, (JsValue.object fields).isUndefined = false := fun _ => rfl
  have hartifact : ∀ artifact, (artifactJson artifact).isUndefined = false := fun _ => rfl
  cases hturn : envelope.turnConfig with
  | none =>
    cases hhistory : envelope.historyArtifact <;>
      simp [envelopeJson, hturn, hhistory, JsValue.get, JsValue.lookup, hstring, hobject, hartifact]
  | some config =>
    have hdefined := hconfig config hturn
    cases hhistory : envelope.historyArtifact <;>
      simp [envelopeJson, hturn, hhistory, JsValue.get, JsValue.lookup, hstring, hobject,
        hartifact, hdefined]

theorem envelopeJson_keys : ∃ fields, envelopeJson envelope = .object fields ∧
    assertExactKeys fields ["message_id", "turn_id", "message", "turn_config", "history_artifact"]
      ["message_id", "turn_id", "message"] "envelope" = .ok () := by
  refine ⟨_, rfl, ?_⟩
  cases envelope.turnConfig <;> cases envelope.historyArtifact <;> simp [assertExactKeys]

theorem isJson_envelope (hproper : Proper isSensitiveKey envelope) :
    isJson (envelopeJson envelope) = true := by
  have hmessage := hproper.messageJson
  cases hturn : envelope.turnConfig with
  | none =>
    cases hhistory : envelope.historyArtifact <;>
      simp [envelopeJson, hturn, hhistory, isJson, fieldsAreJson, hmessage, isJson_artifact]
  | some config =>
    have hconfig := (hproper.turnConfig config hturn).2.2.1
    cases hhistory : envelope.historyArtifact <;>
      simp [envelopeJson, hturn, hhistory, isJson, fieldsAreJson, hmessage, hconfig,
        isJson_artifact]

theorem decodeOptionalTurnConfig_again (hproper : Proper isSensitiveKey envelope) :
    decodeOptionalTurnConfig isSensitiveKey envelope.message
      (envelope.turnConfig.getD .undefined) = .ok envelope.turnConfig := by
  cases hturn : envelope.turnConfig with
  | none => rfl
  | some config =>
    obtain ⟨hrole, hdecode, -, hdefined⟩ := hproper.turnConfig config hturn
    simp [decodeOptionalTurnConfig, hrole, hdecode, hdefined, Except.map]

theorem decodeOptionalArtifact_again (hproper : Proper isSensitiveKey envelope) :
    decodeOptionalArtifact ((envelope.historyArtifact.map artifactJson).getD .undefined) =
      .ok envelope.historyArtifact := by
  cases hhistory : envelope.historyArtifact with
  | none => rfl
  | some artifact =>
    have hdecode := hproper.artifact artifact hhistory
    have hdefined : (artifactJson artifact).isUndefined = false := rfl
    simp [decodeOptionalArtifact, hdecode, hdefined, Except.map]

/-- A decoded envelope is decoded to itself. -/
theorem decodeEnvelope_again (hproper : Proper isSensitiveKey envelope) :
    decodeCanonicalHistoryEnvelope isSensitiveKey (envelopeJson envelope) = .ok envelope := by
  obtain ⟨fields, hfields, hkeys⟩ := @envelopeJson_keys envelope
  obtain ⟨hid, hturn, hmessage, hconfig, hartifact⟩ := @envelopeJson_get envelope
    fun config h => (hproper.turnConfig config h).2.2.2
  have hplain : requirePlainRecord (envelopeJson envelope) "envelope" = .ok fields := by
    rw [hfields]
    rfl
  have hjson := (assertJsonCompatible_iff _ "envelope").2 (isJson_envelope hproper)
  have hidRead : decodeMessageId (.string envelope.messageId) = .ok envelope.messageId := by
    simp [decodeMessageId, hproper.messageId]
  rw [decodeCanonicalHistoryEnvelope, hplain, hjson, hid, hturn, hmessage, hconfig, hartifact]
  simp only [bind, Except.bind, hkeys, hidRead, requireNonEmptyString_string hproper.turnId,
    hproper.message, decodeOptionalTurnConfig_again hproper, decodeOptionalArtifact_again hproper]
  rfl

end Again

end HistoryEnvelope

end Kinetick
