import Kinetick.Queue.Codec

/-!
# What a row reads back as

A row written from an item decodes exactly when the item is readable, and then to the item as JSON
keeps it.
-/

namespace Kinetick

open QueueCodec JsValue

/-- The attempts the read side takes: some, each named, no claim and no Turn twice. -/
structure ReadableAttempts (attempts : List QueueDeliveryAttempt) : Prop where
  nonempty : attempts ≠ []
  named : ∀ attempt ∈ attempts, attempt.claimId ≠ "" ∧ attempt.turnId ≠ ""
  claims : (attempts.map QueueDeliveryAttempt.claimId).Nodup
  turns : (attempts.map QueueDeliveryAttempt.turnId).Nodup

namespace QueueItem

/-- The claim fields the read side takes of an item of the status. -/
def ClaimReadable (item : QueueItem) : Prop :=
  match item.status with
  | .queued => item.claimId = none ∧ item.claimedAt = none ∧ item.claimOwnerId = none ∧
      item.claimLeaseExpiresAt = none
  | .claimed => (∃ claimId, item.claimId = some claimId ∧ claimId ≠ "") ∧
      (∃ claimedAt, item.claimedAt = some claimedAt ∧ claimedAt.isFinite = true) ∧
      ∀ n ∈ item.claimLeaseExpiresAt, n.isFinite = true

/-- What the read side takes, field by field. -/
structure Readable (item : QueueItem) : Prop where
  itemId : item.itemId ≠ ""
  sessionId : item.sessionId ≠ ""
  agentName : item.agentName ≠ ""
  message : isQueueMessageInput item.message.json = true
  createdAt : item.createdAt.isFinite = true
  userMessageId : ∀ id ∈ item.userMessageId, userMessageIdText id = true
  expiresAt : ∀ n ∈ item.expiresAt, n.isFinite = true
  channelContext : optionalRecord item.channelContext.json isChannelContext = true
  model : optionalRecord item.model.json isModel = true
  immediateSendBatch :
    optionalRecord item.immediateSendBatch.json isQueueImmediateSendBatch = true
  deliveryAttempts : ∀ attempts ∈ item.deliveryAttempts, ReadableAttempts attempts
  claim : item.ClaimReadable

/-- The item as JSON keeps it. -/
def json (item : QueueItem) : QueueItem :=
  { item with
    immediateSendBatch := item.immediateSendBatch.json
    message := item.message.json
    channelContext := item.channelContext.json
    model := item.model.json }

theorem get_toJs (item : QueueItem) {key : String} {v : JsValue} (h : (key, v) ∈ item.fields) :
    item.toJs.get key = v :=
  lookup_of_mem (by simp [fields]) h

end QueueItem

/-! ## Fields as JSON keeps them -/

@[simp] theorem json_ofText (text : Option String) : (ofText text).json = ofText text := by
  cases text <;> rfl

@[simp] theorem text?_ofText (text : Option String) : (ofText text).text? = text := by
  cases text <;> rfl

@[simp] theorem optionalString_ofText (text : Option String) :
    optionalString (ofText text) = true := by
  cases text <;> rfl

@[simp] theorem json_string (s : String) : (JsValue.string s).json = .string s := rfl

theorem json_number (n : JsNumber) :
    (JsValue.number n).json = if n.isFinite then .number n else .null := rfl

theorem finite_json_number (n : JsNumber) : finite (JsValue.number n).json = n.isFinite := by
  rw [json_number]
  cases h : n.isFinite <;> simp [finite, h]

theorem optionalFinite_json_ofNumber (n : Option JsNumber) :
    optionalFinite (ofNumber n).json = true ↔ ∀ m ∈ n, m.isFinite = true := by
  rcases n with _ | n
  · simp [ofNumber, JsValue.json, optionalFinite, isUndefined]
  · rw [ofNumber, json_number]
    cases h : n.isFinite <;> simp [optionalFinite, finite, isUndefined, h]

@[simp] theorem number?_number (n : JsNumber) : (JsValue.number n).number? = some n := rfl

theorem isUndefined_ofText (text : Option String) : (ofText text).isUndefined = text.isNone := by
  cases text <;> rfl

theorem isUndefined_ofNumber (n : Option JsNumber) : (ofNumber n).isUndefined = n.isNone := by
  cases n <;> rfl

theorem number?_json_ofNumber {n : Option JsNumber} (h : ∀ m ∈ n, m.isFinite = true) :
    (ofNumber n).json.number? = n := by
  rcases n with _ | n
  · rfl
  · rw [ofNumber, json_number, if_pos (h n rfl)]
    rfl

/-! ## Attempts -/

theorem get_claimId (attempt : QueueDeliveryAttempt) :
    attempt.toJs.get "claimId" = .string attempt.claimId :=
  lookup_of_mem (by simp) (by simp)

theorem get_turnId (attempt : QueueDeliveryAttempt) :
    attempt.toJs.get "turnId" = .string attempt.turnId :=
  lookup_of_mem (by simp) (by simp)

@[simp] theorem ofJs_toJs (attempt : QueueDeliveryAttempt) :
    QueueDeliveryAttempt.ofJs attempt.toJs = attempt := by
  simp [QueueDeliveryAttempt.ofJs, get_claimId, get_turnId, asString]

@[simp] theorem jsonElements_attempts (attempts : List QueueDeliveryAttempt) :
    jsonElements (attempts.map QueueDeliveryAttempt.toJs) =
      attempts.map QueueDeliveryAttempt.toJs := by
  induction attempts with
  | nil => rfl
  | cons attempt attempts ih => simp only [List.map_cons, jsonElements, ih]; rfl

/-- The loop over the attempts takes those that are named and new. -/
theorem validAttempts_toJs (attempts : List QueueDeliveryAttempt) (claims turns : List String) :
    validAttempts (attempts.map QueueDeliveryAttempt.toJs) claims turns = true ↔
      (∀ attempt ∈ attempts, attempt.claimId ≠ "" ∧ attempt.turnId ≠ "") ∧
      (attempts.map QueueDeliveryAttempt.claimId).Nodup ∧
      (attempts.map QueueDeliveryAttempt.turnId).Nodup ∧
      (∀ attempt ∈ attempts, attempt.claimId ∉ claims ∧ attempt.turnId ∉ turns) := by
  induction attempts generalizing claims turns with
  | nil => simp [validAttempts]
  | cons attempt attempts ih =>
    have hrecord : record attempt.toJs = true := rfl
    simp only [List.map_cons, validAttempts, hrecord, get_claimId, get_turnId, nonEmpty, asString,
      Bool.and_eq_true, decide_eq_true_eq, ih, List.nodup_cons, List.mem_map, List.mem_cons,
      forall_eq_or_imp, Bool.not_eq_true', List.contains_eq_mem, decide_eq_false_iff_not, true_and,
      not_exists, not_and, not_or]
    constructor
    · rintro ⟨⟨⟨⟨hclaim, hturn⟩, hclaims⟩, hturns⟩, hnamed, hc, ht, hnew⟩
      exact ⟨⟨⟨hclaim, hturn⟩, hnamed⟩, ⟨fun a ha => (hnew a ha).1.1, hc⟩,
        ⟨fun a ha => (hnew a ha).2.1, ht⟩, ⟨hclaims, hturns⟩,
        fun a ha => ⟨(hnew a ha).1.2, (hnew a ha).2.2⟩⟩
    · rintro ⟨⟨⟨hclaim, hturn⟩, hnamed⟩, ⟨hcfirst, hc⟩, ⟨htfirst, ht⟩, ⟨hclaims, hturns⟩, hnew⟩
      exact ⟨⟨⟨⟨hclaim, hturn⟩, hclaims⟩, hturns⟩, hnamed, hc, ht,
        fun a ha => ⟨⟨hcfirst a ha, (hnew a ha).1⟩, htfirst a ha, (hnew a ha).2⟩⟩

theorem validDeliveryAttempts_json (attempts : Option (List QueueDeliveryAttempt)) :
    validDeliveryAttempts (ofAttempts attempts).json = true ↔
      ∀ as ∈ attempts, ReadableAttempts as := by
  rcases attempts with _ | attempts
  · simp [ofAttempts, JsValue.json, validDeliveryAttempts]
  · have hvalid := validAttempts_toJs attempts [] []
    simp only [ofAttempts, JsValue.json, jsonElements_attempts, validDeliveryAttempts, Bool.and_eq_true, hvalid,
      Option.mem_some_iff, forall_eq']
    constructor
    · rintro ⟨hne, hnamed, hclaims, hturns, -⟩
      exact ⟨by simpa using hne, hnamed, hclaims, hturns⟩
    · rintro ⟨hne, hnamed, hclaims, hturns⟩
      exact ⟨by simpa using hne, hnamed, hclaims, hturns, by simp⟩

/-! ## Items -/

namespace QueueItem

variable (item : QueueItem)

theorem status_isText_queued : (JsValue.string item.status.text).isText "queued" =
    decide (item.status = .queued) := by
  cases item.status <;> decide

theorem status_isText_claimed : (JsValue.string item.status.text).isText "claimed" =
    decide (item.status = .claimed) := by
  cases item.status <;> decide

/-- The fields of the item's JSON. -/
theorem json_fields : ∀ field ∈ item.fields, item.toJs.json.get field.1 = field.2.json := by
  intro field h
  rw [get_json, item.get_toJs h]

theorem isQueueMessageSource_text (source : QueueMessageSource) :
    isQueueMessageSource (JsValue.string source.text) = true := by
  simp [isQueueMessageSource]

theorem status_text : ((JsValue.string item.status.text).isText "queued" ||
    (JsValue.string item.status.text).isText "claimed") = true := by
  cases item.status <;> decide

theorem userMessageId_ofText (id : Option String) :
    optionalRecord (ofText id) isUserMessageId = true ↔ ∀ s ∈ id, userMessageIdText s = true := by
  cases id <;> simp [optionalRecord, ofText, isUserMessageId, isUndefined]

theorem finite_json_ofNumber (n : Option JsNumber) :
    finite (ofNumber n).json = true ↔ ∃ m, n = some m ∧ m.isFinite = true := by
  rcases n with _ | n
  · simp [ofNumber, JsValue.json, finite]
  · simp [ofNumber, finite_json_number]

theorem nonEmpty_ofText (text : Option String) :
    nonEmpty (ofText text) = true ↔ ∃ s, text = some s ∧ s ≠ "" := by
  cases text <;> simp [ofText, nonEmpty]

/-- The claim fields, as the read side sees them. -/
theorem claimFields_json : (if (JsValue.string item.status.text).isText "queued" = true then
        (ofText item.claimId).isUndefined && (ofNumber item.claimedAt).isUndefined &&
          (ofText item.claimOwnerId).isUndefined && (ofNumber item.claimLeaseExpiresAt).isUndefined
      else
        (JsValue.string item.status.text).isText "claimed" && nonEmpty (ofText item.claimId) &&
          finite (ofNumber item.claimedAt).json && optionalString (ofText item.claimOwnerId) &&
          optionalFinite (ofNumber item.claimLeaseExpiresAt).json) = true ↔ item.ClaimReadable := by
  unfold ClaimReadable
  rw [item.status_isText_queued, item.status_isText_claimed]
  cases item.status
  · simp [isUndefined_ofText, isUndefined_ofNumber, and_assoc]
  · simp [nonEmpty_ofText, finite_json_ofNumber, optionalFinite_json_ofNumber, and_assoc]

/-- The read side takes the JSON of the readable items. -/
theorem isQueueItem_json : isQueueItem item.toJs.json = true ↔ item.Readable := by
  have hfields := item.json_fields
  simp only [fields, List.forall_mem_cons] at hfields
  obtain ⟨hattempts, hbatch, hitemId, huser, hturn, hsession, hagent, hsource, hstatus, hmessage,
    hcontext, hmodel, hcreated, hrequest, hdedupe, hexpires, hclaimId, hclaimedAt, howner, hlease,
    -⟩ := hfields
  have hrecord : record item.toJs.json = true := rfl
  simp only [isQueueItem, hrecord, hasIdentity, hasOptionalMetadata, claimFieldsAbsent, hattempts,
    hbatch, hitemId, huser, hturn, hsession, hagent, hsource, hstatus, hmessage, hcontext, hmodel,
    hcreated, hrequest, hdedupe, hexpires, hclaimId, hclaimedAt, howner, hlease, json_string,
    json_ofText, isUndefined_json, Bool.and_eq_true, true_and]
  rw [item.claimFields_json]
  simp only [finite_json_number, item.status_text, isQueueMessageSource_text,
    userMessageId_ofText, optionalFinite_json_ofNumber, validDeliveryAttempts_json, List.all_cons,
    List.all_nil, optionalString_ofText, Bool.and_true, and_true, true_and, nonEmpty,
    decide_eq_true_eq]
  constructor
  · rintro ⟨⟨⟨⟨⟨⟨hid, hsid⟩, hagent⟩, hmessage⟩, hcreated⟩,
      ⟨⟨⟨⟨huser, hexpires⟩, hcontext⟩, hmodel⟩, hbatch⟩, hattempts⟩, hclaim⟩
    exact ⟨hid, hsid, hagent, hmessage, hcreated, huser, hexpires, hcontext, hmodel, hbatch,
      hattempts, hclaim⟩
  · rintro ⟨hid, hsid, hagent, hmessage, hcreated, huser, hexpires, hcontext, hmodel, hbatch,
      hattempts, hclaim⟩
    exact ⟨⟨⟨⟨⟨⟨hid, hsid⟩, hagent⟩, hmessage⟩, hcreated⟩,
      ⟨⟨⟨⟨huser, hexpires⟩, hcontext⟩, hmodel⟩, hbatch⟩, hattempts⟩, hclaim⟩

/-- A readable item comes back as JSON keeps it. -/
theorem ofJs_json {item : QueueItem} (h : item.Readable) : ofJs item.toJs.json = item.json := by
  have hfields := item.json_fields
  simp only [fields, List.forall_mem_cons] at hfields
  obtain ⟨hattempts, hbatch, hitemId, huser, hturn, hsession, hagent, hsource, hstatus, hmessage,
    hcontext, hmodel, hcreated, hrequest, hdedupe, hexpires, hclaimId, hclaimedAt, howner, hlease,
    -⟩ := hfields
  have hclaimedAtFinite : ∀ n ∈ item.claimedAt, n.isFinite = true := by
    have hclaim := h.claim
    unfold ClaimReadable at hclaim
    cases hstatus : item.status <;> rw [hstatus] at hclaim
    · simp [hclaim.2.1]
    · obtain ⟨-, ⟨t, ht, hfinite⟩, -⟩ := hclaim
      simp [ht, hfinite]
  have hleaseFinite : ∀ n ∈ item.claimLeaseExpiresAt, n.isFinite = true := by
    have hclaim := h.claim
    unfold ClaimReadable at hclaim
    cases hstatus : item.status <;> rw [hstatus] at hclaim
    · simp [hclaim.2.2.2]
    · exact hclaim.2.2
  have hcreatedAt : (JsValue.number item.createdAt).json = .number item.createdAt := by
    rw [json_number, if_pos h.createdAt]
  have hstatusOf : (if decide (item.status = .queued) = true then QueueItemStatus.queued
      else .claimed) = item.status := by
    cases item.status <;> rfl
  have hattemptsOf : (ofAttempts item.deliveryAttempts).json.attempts? = item.deliveryAttempts := by
    rcases item.deliveryAttempts with _ | attempts
    · rfl
    · simp [ofAttempts, attempts?, JsValue.json, Function.comp_def]
  simp only [ofJs, hattempts, hbatch, hitemId, huser, hturn, hsession, hagent, hsource, hstatus,
    hmessage, hcontext, hmodel, hcreated, hrequest, hdedupe, hexpires, hclaimId, hclaimedAt,
    howner, hlease, json_string, json_ofText, text?_ofText, asString, hcreatedAt, number?_number,
    number?_json_ofNumber h.expiresAt, number?_json_ofNumber hclaimedAtFinite,
    number?_json_ofNumber hleaseFinite, item.status_isText_queued, hstatusOf, hattemptsOf,
    QueueMessageSource.ofText?_text, Option.getD_some]
  rfl

/-- A row decodes exactly to what JSON keeps of the readable item it was written from. -/
theorem decode_storage : decodeQueueRow item.storage = .ok item.json ↔ item.Readable := by
  unfold decodeQueueRow parseQueueItem
  have hparse : item.storage.dataJson.parse = item.toJs.json := rfl
  rw [hparse]
  constructor
  · intro h
    by_contra hnot
    rw [if_neg (mt item.isQueueItem_json.1 hnot)] at h
    cases h
  · intro h
    rw [if_pos (item.isQueueItem_json.2 h), ofJs_json h]
    exact if_pos ⟨rfl, rfl, rfl, rfl⟩

theorem decode_storage_error (h : ¬ item.Readable) :
    decodeQueueRow item.storage = .error (.dataCorruption item.sessionId item.itemId) := by
  unfold decodeQueueRow parseQueueItem
  have hparse : item.storage.dataJson.parse = item.toJs.json := rfl
  rw [hparse, if_neg (mt item.isQueueItem_json.1 h)]
  rfl

/-- What a row of an item decodes to is what JSON keeps of it. -/
theorem eq_json_of_decode {item : QueueItem} {decoded : QueueItem}
    (h : decodeQueueRow item.storage = .ok decoded) : item.Readable ∧ decoded = item.json := by
  by_cases hreadable : item.Readable
  · exact ⟨hreadable, Except.ok.inj (h.symm.trans (item.decode_storage.2 hreadable))⟩
  · rw [item.decode_storage_error hreadable] at h
    cases h

end QueueItem

end Kinetick
