import Kinetick.Proofs.QueueCodec

/-!
# The checks of the codec and JSON

The write side checks a value before it is stringified and the read side checks what its text parses
to. The checks read fields, and a field that is `undefined` reads as one that is absent: what passes
a check passes it less its `undefined` fields, so a value JSON keeps passes it when it is read back.
-/

namespace Kinetick

open QueueCodec JsValue

/-! ## Reading less what is undefined -/

theorem lookup_dropFields (key : String) (fields : List (String × JsValue)) :
    lookup key (dropFields fields) = dropUndefined (lookup key fields) := by
  induction fields with
  | nil => rfl
  | cons field fields ih =>
    rcases field with ⟨k, v⟩
    rcases hv : v.isUndefined with _ | _
    · by_cases hk : k = key <;> simp [dropFields, lookup, hv, hk, ih]
    · simp [dropFields, lookup, hv, ih]

@[simp] theorem get_dropUndefined (v : JsValue) (key : String) :
    v.dropUndefined.get key = (v.get key).dropUndefined := by
  cases v with
  | object fields => exact lookup_dropFields key fields
  | _ => rfl

theorem dropElements_eq_map (elements : List JsValue) :
    dropElements elements = elements.map dropUndefined := by
  induction elements with
  | nil => rfl
  | cons v elements ih => simp [dropElements, ih]

theorem mem_dropFields {key : String} {v : JsValue} :
    ∀ {fields}, (key, v) ∈ dropFields fields → key ∈ fields.map Prod.fst
  | [], h => by simp [dropFields] at h
  | (k, w) :: fields, h => by
    have ih : (key, v) ∈ dropFields fields → key ∈ fields.map Prod.fst := mem_dropFields
    simp only [dropFields] at h
    split_ifs at h
    · exact .tail _ (ih h)
    · rcases List.mem_cons.1 h with h | h
      · rw [(Prod.mk.inj h).1]
        exact .head _
      · exact .tail _ (ih h)

mutual

theorem dropUndefined_json : ∀ v : JsValue, v.json.dropUndefined = v.json
  | .undefined => rfl
  | .null => rfl
  | .boolean _ => rfl
  | .number n => by cases h : n.isFinite <;> simp [JsValue.json, dropUndefined, h]
  | .string _ => rfl
  | .array elements => by simp [JsValue.json, dropUndefined, dropElements_jsonElements elements]
  | .object fields => by simp [JsValue.json, dropUndefined, dropFields_jsonFields fields]

theorem dropElements_jsonElements : ∀ elements,
    dropElements (jsonElements elements) = jsonElements elements
  | [] => rfl
  | v :: elements => by
    have hv := dropUndefined_json v
    have ih := dropElements_jsonElements elements
    rcases h : v.isUndefined with _ | _ <;> simp [jsonElements, dropElements, dropUndefined, h, hv, ih]

theorem dropFields_jsonFields : ∀ fields, dropFields (jsonFields fields) = jsonFields fields
  | [] => rfl
  | (k, v) :: fields => by
    have hv := dropUndefined_json v
    have ih := dropFields_jsonFields fields
    rcases h : v.isUndefined with _ | _ <;> simp [jsonFields, dropFields, h, hv, ih]

end

/-- What a text parses to JSON keeps. -/
theorem jsonSafe_json (v : JsValue) : v.json.JsonSafe :=
  (json_eq_dropUndefined v.json).1 (by rw [json_json, dropUndefined_json])

/-! ## Checks of single fields -/

section Fields

variable (v : JsValue)

@[simp] theorem record_dropUndefined : record v.dropUndefined = record v := by cases v <;> rfl

@[simp] theorem asString_dropUndefined : asString v.dropUndefined = asString v := by cases v <;> rfl

@[simp] theorem isString_dropUndefined : isString v.dropUndefined = isString v := by cases v <;> rfl

@[simp] theorem isBoolean_dropUndefined : isBoolean v.dropUndefined = isBoolean v := by
  cases v <;> rfl

@[simp] theorem nonEmpty_dropUndefined : nonEmpty v.dropUndefined = nonEmpty v := by cases v <;> rfl

@[simp] theorem finite_dropUndefined : finite v.dropUndefined = finite v := by cases v <;> rfl

@[simp] theorem isText_dropUndefined (text : String) :
    v.dropUndefined.isText text = v.isText text := by
  cases v <;> rfl

@[simp] theorem isUserMessageId_dropUndefined :
    isUserMessageId v.dropUndefined = isUserMessageId v := by
  cases v <;> rfl

@[simp] theorem isQueueMessageSource_dropUndefined :
    isQueueMessageSource v.dropUndefined = isQueueMessageSource v := by
  cases v <;> rfl

@[simp] theorem isModelLimit_dropUndefined : isModelLimit v.dropUndefined = isModelLimit v := by
  cases v <;> rfl

@[simp] theorem optionalString_dropUndefined :
    optionalString v.dropUndefined = optionalString v := by
  simp [optionalString]

@[simp] theorem optionalBoolean_dropUndefined :
    optionalBoolean v.dropUndefined = optionalBoolean v := by
  simp [optionalBoolean]

@[simp] theorem optionalFinite_dropUndefined :
    optionalFinite v.dropUndefined = optionalFinite v := by
  simp [optionalFinite]

theorem stringIs_dropUndefined (text : String) :
    ∀ v : JsValue, stringIs text v.dropUndefined = stringIs text v
  | .array [v] => by simp [dropUndefined, dropElements, stringIs, stringIs_dropUndefined text v]
  | .array [] => rfl
  | .array (_ :: _ :: _) => rfl
  | .undefined => rfl
  | .null => rfl
  | .boolean _ => rfl
  | .number _ => rfl
  | .string _ => rfl
  | .object _ => rfl

end Fields

/-- A check that also takes what it takes less its `undefined` fields. -/
def Steady (validate : JsValue → Bool) : Prop :=
  ∀ v, validate v = true → validate v.dropUndefined = true

namespace Steady

variable {validate : JsValue → Bool}

theorem of_eq (h : ∀ v, validate v.dropUndefined = validate v) : Steady validate :=
  fun v hv => (h v).trans hv

/-- What JSON keeps is still taken when it is read back. -/
theorem json (h : Steady validate) {v : JsValue} (hv : validate v = true) (hsafe : v.JsonSafe) :
    validate v.json = true := by
  rw [(json_eq_dropUndefined v).2 hsafe]
  exact h v hv

theorem every (h : Steady validate) : Steady (every validate) := by
  intro v hv
  cases v with
  | array elements =>
    simp only [dropUndefined, dropElements_eq_map, QueueCodec.every, List.all_map,
      List.all_eq_true] at hv ⊢
    exact fun v hmem => h v (hv v hmem)
  | _ => exact hv

theorem optionalRecord (h : Steady validate) : Steady fun v => optionalRecord v validate := by
  intro v hv
  simp only [QueueCodec.optionalRecord, Bool.or_eq_true, isUndefined_dropUndefined] at hv ⊢
  exact hv.imp id (h v)

theorem optionalArray (h : Steady validate) : Steady fun v => optionalArray v validate :=
  h.every.optionalRecord

end Steady

/-! ## The message -/

theorem onlyKeys_dropUndefined (keys : List String) : Steady (onlyKeys keys) := by
  intro v hv
  cases v with
  | object fields =>
    simp only [dropUndefined, onlyKeys, List.all_eq_true] at hv ⊢
    intro field hmem
    obtain ⟨other, hother, hkey⟩ := List.mem_map.1 (mem_dropFields hmem)
    rw [← hkey]
    exact hv other hother
  | _ => exact hv

theorem steady_isInputSafetyDecision : Steady isInputSafetyDecision := by
  intro v hv
  simp only [isInputSafetyDecision, Bool.and_eq_true, record_dropUndefined, get_dropUndefined,
    isString_dropUndefined, asString_dropUndefined, isText_dropUndefined] at hv ⊢
  exact ⟨hv.1, onlyKeys_dropUndefined _ v hv.2⟩

theorem steady_isAttachment : Steady isAttachment :=
  .of_eq fun v => by simp [isAttachment]

theorem steady_isQuoted : Steady isQuoted :=
  .of_eq fun v => by simp [isQuoted]

theorem steady_isChannelContext : Steady isChannelContext :=
  .of_eq fun v => by simp [isChannelContext]

theorem steady_isQueueMessageInput : Steady isQueueMessageInput := by
  intro v hv
  simp only [isQueueMessageInput, hasValidAttachmentsAndSafety, validMessageOptionals,
    Bool.and_eq_true, record_dropUndefined, get_dropUndefined, isString_dropUndefined,
    optionalBoolean_dropUndefined, List.all_cons, List.all_nil, optionalString_dropUndefined]
    at hv ⊢
  obtain ⟨⟨⟨⟨⟨hshape, hattachments, hsafety⟩, hdisplayed⟩, hoptionals⟩, hquoted⟩, hcontext⟩ := hv
  exact ⟨⟨⟨⟨⟨hshape, steady_isAttachment.every _ hattachments,
    steady_isInputSafetyDecision.optionalRecord _ hsafety⟩,
    (Steady.of_eq record_dropUndefined).optionalArray _ hdisplayed⟩, hoptionals⟩,
    steady_isQuoted.optionalRecord _ hquoted⟩,
    steady_isChannelContext.optionalRecord _ hcontext⟩

/-! ## The model and the batch -/

theorem steady_isModel : Steady isModel :=
  .of_eq fun v => by
    simp [isModel, isModelContext, isParameterSnapshot, isProvenance, stringIs_dropUndefined,
      optionalRecord, isModelThinking]

theorem validUnconsumedTurnIds_dropUndefined (v : JsValue) :
    validUnconsumedTurnIds v.dropUndefined = validUnconsumedTurnIds v := by
  cases v with
  | array elements =>
    simp [dropUndefined, dropElements_eq_map, validUnconsumedTurnIds, Function.comp_def]
  | _ => rfl

theorem steady_validImmediateSendMember : Steady validImmediateSendMember := by
  intro v hv
  simp only [validImmediateSendMember, validBatchProvenance, Bool.and_eq_true, get_dropUndefined,
    nonEmpty_dropUndefined, finite_dropUndefined, validUnconsumedTurnIds_dropUndefined,
    optionalString_dropUndefined, record_dropUndefined, isQueueMessageSource_dropUndefined] at hv ⊢
  obtain ⟨⟨⟨⟨⟨⟨⟨⟨hmessage, hkey⟩, hclaim⟩, hcreated⟩, hunconsumed⟩, hunstarted⟩, hsource⟩, hmodel⟩,
    hprovenance, hcontext⟩ := hv
  have hmember : Steady isMemberClaim := .of_eq fun v => by simp [isMemberClaim]
  exact ⟨⟨⟨⟨⟨⟨⟨⟨steady_isQueueMessageInput _ hmessage, hkey⟩, hmember.optionalRecord _ hclaim⟩,
    hcreated⟩, hunconsumed⟩, hunstarted⟩, hsource⟩, steady_isModel.optionalRecord _ hmodel⟩,
    hprovenance, (Steady.of_eq record_dropUndefined).optionalRecord _ hcontext⟩

theorem validMembers_dropUndefined : ∀ {members : List JsValue} {ids : List String},
    validMembers members ids = true → validMembers (members.map dropUndefined) ids = true
  | [], _, _ => rfl
  | member :: members, ids, h => by
    simp only [List.map_cons, validMembers, Bool.and_eq_true, record_dropUndefined,
      get_dropUndefined, isUserMessageId_dropUndefined, asString_dropUndefined] at h ⊢
    exact ⟨⟨h.1.1, steady_validImmediateSendMember member h.1.2⟩, validMembers_dropUndefined h.2⟩

theorem steady_isQueueImmediateSendBatch : Steady isQueueImmediateSendBatch := by
  intro v hv
  simp only [isQueueImmediateSendBatch, Bool.and_eq_true, record_dropUndefined, get_dropUndefined,
    nonEmpty_dropUndefined] at hv ⊢
  refine ⟨hv.1, ?_⟩
  cases hmembers : v.get "members" with
  | array members =>
    have hvalid := hv.2
    rw [hmembers] at hvalid
    simp only [Bool.and_eq_true, decide_eq_true_eq, ne_eq, dropUndefined, dropElements_eq_map,
      List.map_eq_nil_iff] at hvalid ⊢
    exact ⟨hvalid.1, validMembers_dropUndefined hvalid.2⟩
  | _ =>
    rw [hmembers] at hv
    exact absurd hv.2 (by simp)

/-! ## The item -/

theorem validAttempts_dropUndefined : ∀ (attempts : List JsValue) (claims turns : List String),
    validAttempts (attempts.map dropUndefined) claims turns = validAttempts attempts claims turns
  | [], _, _ => rfl
  | attempt :: attempts, claims, turns => by
    simp [validAttempts, validAttempts_dropUndefined attempts]

theorem validDeliveryAttempts_dropUndefined (v : JsValue) :
    validDeliveryAttempts v.dropUndefined = validDeliveryAttempts v := by
  cases v with
  | array attempts =>
    simp [dropUndefined, dropElements_eq_map, validDeliveryAttempts, validAttempts_dropUndefined]
  | _ => rfl

theorem steady_isQueueItem : Steady isQueueItem := by
  intro v hv
  simp only [isQueueItem, hasIdentity, hasOptionalMetadata, claimFieldsAbsent, Bool.and_eq_true,
    record_dropUndefined, get_dropUndefined, nonEmpty_dropUndefined, List.all_cons, List.all_nil,
    isQueueMessageSource_dropUndefined, isText_dropUndefined, finite_dropUndefined,
    optionalString_dropUndefined, optionalFinite_dropUndefined, isUndefined_dropUndefined,
    validDeliveryAttempts_dropUndefined] at hv ⊢
  obtain ⟨⟨⟨hrecord, ⟨⟨hidentity, hmessage⟩, hcreated⟩⟩, ⟨⟨⟨⟨⟨⟨htexts, huser⟩, hexpires⟩, hcontext⟩,
    hmodel⟩, hbatch⟩, hattempts⟩⟩, hclaim⟩ := hv
  exact ⟨⟨⟨hrecord, ⟨⟨hidentity, steady_isQueueMessageInput _ hmessage⟩, hcreated⟩⟩,
    ⟨⟨⟨⟨⟨⟨htexts, (Steady.of_eq isUserMessageId_dropUndefined).optionalRecord _ huser⟩, hexpires⟩,
    steady_isChannelContext.optionalRecord _ hcontext⟩, steady_isModel.optionalRecord _ hmodel⟩,
    steady_isQueueImmediateSendBatch.optionalRecord _ hbatch⟩, hattempts⟩⟩, hclaim⟩

end Kinetick
