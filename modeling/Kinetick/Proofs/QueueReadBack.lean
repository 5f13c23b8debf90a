import Kinetick.Proofs.QueueOperations
import Kinetick.Proofs.QueueValidators

/-!
# Rows that read back

A row reads back as what was written exactly when it was written from a sound item: one the read side
takes and JSON keeps. Decoded items are sound, and so are those the operations make of them; what is
left are the inputs.
-/

namespace Kinetick

open QueueCodec JsValue QueueRepository

/-! ## Sound items -/

namespace QueueItem

/-- The read side takes the item, and JSON keeps it. -/
structure Sound (item : QueueItem) : Prop where
  readable : item.Readable
  message : item.message.JsonSafe
  channelContext : item.channelContext.JsonSafe
  model : item.model.JsonSafe
  immediateSendBatch : item.immediateSendBatch.JsonSafe

theorem jsonSafe_ofText (text : Option String) : (ofText text).JsonSafe := by
  cases text <;> simp [ofText, JsonSafe]

theorem jsonSafe_ofNumber (n : Option JsNumber) :
    (ofNumber n).JsonSafe ↔ ∀ m ∈ n, m.isFinite = true := by
  cases n <;> simp [ofNumber, JsonSafe]

theorem safeElements_attempts (attempts : List QueueDeliveryAttempt) :
    SafeElements (attempts.map QueueDeliveryAttempt.toJs) := by
  induction attempts with
  | nil => trivial
  | cons attempt attempts ih =>
    exact ⟨rfl, ⟨trivial, trivial, trivial⟩, ih⟩

theorem jsonSafe_ofAttempts (attempts : Option (List QueueDeliveryAttempt)) :
    (ofAttempts attempts).JsonSafe := by
  rcases attempts with _ | attempts
  · trivial
  · exact safeElements_attempts attempts

/-- JSON keeps an item where it keeps its free fields and its numbers. -/
theorem jsonSafe_toJs (item : QueueItem) : item.toJs.JsonSafe ↔
    (item.immediateSendBatch.JsonSafe ∧ item.message.JsonSafe ∧ item.channelContext.JsonSafe ∧
      item.model.JsonSafe) ∧ item.createdAt.isFinite = true ∧
      (∀ n ∈ item.expiresAt, n.isFinite = true) ∧ (∀ n ∈ item.claimedAt, n.isFinite = true) ∧
      ∀ n ∈ item.claimLeaseExpiresAt, n.isFinite = true := by
  have hattempts := jsonSafe_ofAttempts item.deliveryAttempts
  simp only [toJs, fields, JsonSafe, SafeFields, jsonSafe_ofText, jsonSafe_ofNumber, hattempts,
    true_and, and_true]
  tauto

theorem Readable.claimedAt {item : QueueItem} (h : item.Readable) :
    (∀ n ∈ item.claimedAt, n.isFinite = true) ∧
      ∀ n ∈ item.claimLeaseExpiresAt, n.isFinite = true := by
  have hclaim := h.claim
  unfold ClaimReadable at hclaim
  cases hstatus : item.status <;> rw [hstatus] at hclaim
  · simp [hclaim.2.1, hclaim.2.2.2]
  · obtain ⟨-, ⟨t, ht, hfinite⟩, hlease⟩ := hclaim
    exact ⟨by simp [ht, hfinite], hlease⟩

/-- A row reads back exactly when its item is sound. -/
theorem readsBack_storage (item : QueueItem) : item.storage.ReadsBack ↔ item.Sound := by
  have hkeeps : item.storage.dataJson.parse = item.storage.dataJson.stringified.dropUndefined ↔
      item.toJs.JsonSafe := json_eq_dropUndefined item.toJs
  unfold QueueRow.ReadsBack
  rw [hkeeps, jsonSafe_toJs]
  constructor
  · rintro ⟨⟨decoded, hdecoded⟩, ⟨hbatch, hmessage, hcontext, hmodel⟩, -⟩
    exact ⟨(eq_json_of_decode hdecoded).1, hmessage, hcontext, hmodel, hbatch⟩
  · intro h
    exact ⟨⟨item.json, item.decode_storage.2 h.readable⟩,
      ⟨h.immediateSendBatch, h.message, h.channelContext, h.model⟩, h.readable.createdAt,
      h.readable.expiresAt, h.readable.claimedAt⟩

end QueueItem

/-! ## Decoded items -/

theorem nonEmpty_iff {v : JsValue} : nonEmpty v = true ↔ ∃ s, v = .string s ∧ s ≠ "" := by
  cases v <;> simp [nonEmpty]

theorem asString_of_nonEmpty {v : JsValue} (h : nonEmpty v = true) : asString v ≠ "" := by
  obtain ⟨s, rfl, hs⟩ := nonEmpty_iff.1 h
  exact hs

theorem finite_iff {v : JsValue} : finite v = true ↔ ∃ n, v = .number n ∧ n.isFinite = true := by
  cases v <;> simp [finite]

theorem number?_of_optionalFinite {v : JsValue} (h : optionalFinite v = true) :
    ∀ n ∈ v.number?, n.isFinite = true := by
  intro n hn
  cases v <;> simp_all [JsValue.number?, optionalFinite, finite, isUndefined]

theorem text?_of_isUserMessageId {v : JsValue} (h : optionalRecord v isUserMessageId = true) :
    ∀ id ∈ v.text?, userMessageIdText id = true := by
  intro id hid
  cases v <;> simp_all [JsValue.text?, optionalRecord, isUserMessageId, isUndefined]

/-- The attempts the loop takes are named and new. -/
theorem readable_of_validAttempts : ∀ {attempts : List JsValue} {claims turns : List String},
    validAttempts attempts claims turns = true →
      (∀ attempt ∈ attempts.map QueueDeliveryAttempt.ofJs,
        attempt.claimId ≠ "" ∧ attempt.turnId ≠ "" ∧ attempt.claimId ∉ claims ∧
          attempt.turnId ∉ turns) ∧
      ((attempts.map QueueDeliveryAttempt.ofJs).map QueueDeliveryAttempt.claimId).Nodup ∧
      ((attempts.map QueueDeliveryAttempt.ofJs).map QueueDeliveryAttempt.turnId).Nodup
  | [], _, _, _ => by simp
  | attempt :: attempts, claims, turns, h => by
    simp only [validAttempts, Bool.and_eq_true, Bool.not_eq_true', List.contains_eq_mem,
      decide_eq_false_iff_not] at h
    obtain ⟨⟨⟨⟨⟨-, hclaim⟩, hturn⟩, hclaims⟩, hturns⟩, hrest⟩ := h
    obtain ⟨hnamed, hclaimsNodup, hturnsNodup⟩ := readable_of_validAttempts hrest
    simp only [List.map_cons, List.mem_cons, forall_eq_or_imp, List.nodup_cons, List.mem_map,
      not_exists, not_and, forall_exists_index, and_imp, forall_apply_eq_imp_iff₂, not_or] at hnamed ⊢
    refine ⟨⟨⟨asString_of_nonEmpty hclaim, asString_of_nonEmpty hturn, hclaims, hturns⟩,
      fun a ha => ⟨(hnamed a ha).1, (hnamed a ha).2.1, (hnamed a ha).2.2.1.2,
        (hnamed a ha).2.2.2.2⟩⟩, ⟨fun a ha => ?_, hclaimsNodup⟩, ⟨fun a ha => ?_, hturnsNodup⟩⟩
    · exact (hnamed a ha).2.2.1.1
    · exact (hnamed a ha).2.2.2.1

theorem attempts?_of_valid {v : JsValue} (h : validDeliveryAttempts v = true) :
    ∀ attempts ∈ v.attempts?, ReadableAttempts attempts := by
  intro attempts hattempts
  cases v with
  | array elements =>
    simp only [JsValue.attempts?, Option.mem_def, Option.some.injEq] at hattempts
    simp only [validDeliveryAttempts, Bool.and_eq_true, decide_eq_true_eq] at h
    obtain ⟨hnamed, hclaims, hturns⟩ := readable_of_validAttempts h.2
    subst hattempts
    exact ⟨by simpa using h.1, fun a ha => ⟨(hnamed a ha).1, (hnamed a ha).2.1⟩, hclaims, hturns⟩
  | _ => simp [JsValue.attempts?] at hattempts

theorem claimReadable_ofJs {v : JsValue} (h : (if (v.get "status").isText "queued" then
      claimFieldsAbsent v
    else (v.get "status").isText "claimed" && nonEmpty (v.get "claimId") &&
      finite (v.get "claimedAt") && optionalString (v.get "claimOwnerId") &&
      optionalFinite (v.get "claimLeaseExpiresAt")) = true) : (QueueItem.ofJs v).ClaimReadable := by
  unfold QueueItem.ClaimReadable
  by_cases hstatus : (v.get "status").isText "queued" = true
  · rw [if_pos hstatus, claimFieldsAbsent] at h
    simp only [Bool.and_eq_true] at h
    obtain ⟨⟨⟨hclaimId, hclaimedAt⟩, howner⟩, hlease⟩ := h
    have hqueued : (QueueItem.ofJs v).status = .queued := if_pos hstatus
    rw [hqueued]
    simp [QueueItem.ofJs, eq_undefined_of_isUndefined hclaimId,
      eq_undefined_of_isUndefined hclaimedAt, eq_undefined_of_isUndefined howner,
      eq_undefined_of_isUndefined hlease, JsValue.text?, JsValue.number?]
  · rw [if_neg hstatus] at h
    simp only [Bool.and_eq_true] at h
    obtain ⟨⟨⟨⟨-, hclaimId⟩, hclaimedAt⟩, -⟩, hlease⟩ := h
    have hclaimed : (QueueItem.ofJs v).status = .claimed := if_neg hstatus
    obtain ⟨claimId, hid, hne⟩ := nonEmpty_iff.1 hclaimId
    obtain ⟨claimedAt, hat, hfinite⟩ := finite_iff.1 hclaimedAt
    rw [hclaimed]
    exact ⟨⟨claimId, by simp [QueueItem.ofJs, hid, JsValue.text?], hne⟩,
      ⟨claimedAt, by simp [QueueItem.ofJs, hat], hfinite⟩, number?_of_optionalFinite hlease⟩

/-- What passes the check of the read side, as JSON keeps it, is a sound item. -/
theorem sound_ofJs {v : JsValue} (hjson : v.json = v) (h : isQueueItem v = true) :
    (QueueItem.ofJs v).Sound := by
  have hget : ∀ key, (v.get key).json = v.get key := fun key => by rw [← get_json, hjson]
  have hsafe : ∀ key, (v.get key).JsonSafe := fun key => hget key ▸ jsonSafe_json (v.get key)
  unfold isQueueItem at h
  simp only [Bool.and_eq_true, hasIdentity, hasOptionalMetadata] at h
  obtain ⟨⟨⟨-, ⟨⟨⟨⟨⟨⟨hitemId, hsessionId⟩, hagent⟩, -⟩, -⟩, hmessage⟩, hcreated⟩⟩,
    ⟨⟨⟨⟨⟨⟨-, huser⟩, hexpires⟩, hcontext⟩, hmodel⟩, hbatch⟩, hattempts⟩⟩, hclaim⟩ := h
  obtain ⟨createdAt, hat, hfinite⟩ := finite_iff.1 hcreated
  refine ⟨?_, hsafe _, hsafe _, hsafe _, hsafe _⟩
  exact {
    itemId := asString_of_nonEmpty hitemId
    sessionId := asString_of_nonEmpty hsessionId
    agentName := asString_of_nonEmpty hagent
    message := (congrArg isQueueMessageInput (hget "message")).trans hmessage
    createdAt := by simp [QueueItem.ofJs, hat, hfinite]
    userMessageId := text?_of_isUserMessageId huser
    expiresAt := number?_of_optionalFinite hexpires
    channelContext :=
      (congrArg (optionalRecord · isChannelContext) (hget "channelContext")).trans hcontext
    model := (congrArg (optionalRecord · isModel) (hget "model")).trans hmodel
    immediateSendBatch := (congrArg (optionalRecord · isQueueImmediateSendBatch)
      (hget "immediateSendBatch")).trans hbatch
    deliveryAttempts := attempts?_of_valid hattempts
    claim := claimReadable_ofJs hclaim }

/-- Decoded items are sound. -/
theorem Decodes.sound {row : QueueRow} {item : QueueItem} (h : Decodes row item) : item.Sound := by
  have hd := h.decoded
  unfold decodeQueueRow parseQueueItem at hd
  by_cases hvalid : isQueueItem row.dataJson.parse = true
  · simp only [hvalid, if_true] at hd
    split_ifs at hd
    cases hd
    exact sound_ofJs (json_json _) hvalid
  · simp only [hvalid, if_false, Bool.false_eq_true] at hd
    cases hd

end Kinetick
