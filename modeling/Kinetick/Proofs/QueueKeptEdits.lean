import Kinetick.Proofs.QueueKeptInputs

/-!
# Updates, deliveries and replacements that are kept

An update writes its message and its model over a sound item, a delivery its attempt, a replacement
its items.
-/

namespace Kinetick

open QueueCodec JsValue QueueRepository

variable {env : QueueEnvironment} {db db' : QueueDb}

/-! ## Setting a field -/

/-- A field that is set reads as it was set, and the others as before. -/
theorem get_set {v : JsValue} (hrecord : record v = true) (key other : String) (w : JsValue) :
    (v.set key w).get other = if other = key then w else v.get other := by
  cases v with
  | object fields => exact get_set_object fields key other w
  | _ => cases hrecord

theorem safeFields_iff (fields : List (String × JsValue)) :
    SafeFields fields ↔ ∀ field ∈ fields, field.2.JsonSafe := by
  induction fields with
  | nil => simp [SafeFields]
  | cons field fields ih =>
    rcases field with ⟨k, v⟩
    simp [SafeFields, ih]

theorem jsonSafe_set {v : JsValue} (h : v.JsonSafe) (key : String) {w : JsValue}
    (hw : w.JsonSafe) : (v.set key w).JsonSafe := by
  cases v with
  | object fields =>
    simp only [JsValue.set, JsonSafe, safeFields_iff, List.mem_append, List.mem_singleton] at h ⊢
    rintro field (hfield | rfl)
    · exact h field (List.mem_filter.1 hfield).1
    · exact hw
  | _ => exact ⟨hw, trivial⟩

/-- What JSON keeps with a field set it keeps, where it keeps the field. -/
theorem jsonSafe_of_set {v : JsValue} (hdistinct : v.DistinctNames) {key : String} {w : JsValue}
    (hfield : (v.get key).JsonSafe) (h : (v.set key w).JsonSafe) : record v = true → v.JsonSafe := by
  intro hrecord
  cases v with
  | object fields =>
    simp only [JsValue.set, JsonSafe, safeFields_iff, List.mem_append, List.mem_singleton] at h ⊢
    intro field hmem
    by_cases hkey : field.1 = key
    · have hget : lookup key fields = field.2 := lookup_of_mem hdistinct (hkey ▸ hmem)
      have hsafe : (lookup key fields).JsonSafe := hfield
      rwa [hget] at hsafe
    · exact h field (.inl (List.mem_filter.2 ⟨hmem, by simpa using hkey⟩))
  | _ => cases hrecord

/-! ## Updates -/

theorem record_of_message {message : JsValue} (h : isQueueMessageInput message = true) :
    record message = true := by
  simp only [isQueueMessageInput, Bool.and_eq_true] at h
  exact h.1.1.1.1.1.1

theorem optionalString_clientIntent {message : JsValue} (h : isQueueMessageInput message = true) :
    optionalString (message.get "clientIntent") = true := by
  simp only [isQueueMessageInput, validMessageOptionals, Bool.and_eq_true, List.all_cons] at h
  exact h.1.1.2.2.2.2.2.1

theorem jsonSafe_of_optionalString {v : JsValue} (h : optionalString v = true) : v.JsonSafe := by
  cases v <;> simp_all [optionalString, isUndefined, isString, JsonSafe]

/-- A message with its intent set is still one. -/
theorem isQueueMessageInput_set {message intent : JsValue} (h : isQueueMessageInput message = true)
    (hintent : optionalString intent = true) :
    isQueueMessageInput (message.set "clientIntent" intent) = true := by
  have hrecord := record_of_message h
  have hset : record (message.set "clientIntent" intent) = true := by cases message <;> rfl
  simp only [isQueueMessageInput, hasValidAttachmentsAndSafety, validMessageOptionals,
    Bool.and_eq_true, List.all_cons, List.all_nil, get_set hrecord, hset] at h ⊢
  simp only [String.reduceEq, if_false, if_true, hintent, true_and] at h ⊢
  obtain ⟨⟨⟨⟨⟨hshape, hattachments⟩, hdisplayed⟩, hbool, hcontent, hitem, hsource, hclient⟩,
    hquoted⟩, hcontext⟩ := h
  exact ⟨⟨⟨⟨⟨hshape.2, hattachments⟩, hdisplayed⟩, hbool, hcontent, hitem, hsource, trivial⟩, hquoted⟩,
    hcontext⟩

theorem safe_of_replaceItemMessage {item : QueueItem} {message : JsValue}
    (hmessage : isQueueMessageInput message = true) (hdistinct : message.DistinctNames)
    (h : (replaceItemMessage item message).message.JsonSafe) : message.JsonSafe := by
  unfold replaceItemMessage at h
  dsimp only at h
  split_ifs at h
  · exact h
  · exact jsonSafe_of_set hdistinct
      (jsonSafe_of_optionalString (optionalString_clientIntent hmessage)) h
      (record_of_message hmessage)

/-- The item is sound with the message an update gives it exactly when JSON keeps the message. -/
theorem sound_replaceItemMessage {item : QueueItem} {message : JsValue} (h : item.Sound)
    (hmessage : isQueueMessageInput message = true) (hdistinct : message.DistinctNames) :
    (replaceItemMessage item message).Sound ↔ message.JsonSafe := by
  have hintent : optionalString (item.message.get "clientIntent") = true := by
    have hread := optionalString_clientIntent h.readable.message
    rwa [(json_eq_dropUndefined _).2 h.message, get_dropUndefined, optionalString_dropUndefined]
      at hread
  refine ⟨fun hsound => safe_of_replaceItemMessage hmessage hdistinct hsound.message,
    fun hsafe => ?_⟩
  unfold replaceItemMessage
  obtain ⟨hvalid, hreplaced⟩ : isQueueMessageInput
      (if (item.message.get "clientIntent").isUndefined = true then message
        else message.set "clientIntent" (item.message.get "clientIntent")) = true ∧
      (if (item.message.get "clientIntent").isUndefined = true then message
        else message.set "clientIntent" (item.message.get "clientIntent")).JsonSafe := by
    split_ifs
    · exact ⟨hmessage, hsafe⟩
    · exact ⟨isQueueMessageInput_set hmessage hintent,
        jsonSafe_set hsafe _ (jsonSafe_of_optionalString hintent)⟩
  obtain ⟨hcontext, hcontextSafe⟩ := channelContext_kept hvalid hreplaced
  exact ⟨{ h.readable with
    message := steady_isQueueMessageInput.json hvalid hreplaced, channelContext := hcontext },
    hreplaced, hcontextSafe, h.model, h.immediateSendBatch⟩

theorem sound_withModel {item : QueueItem} {model : JsValue} (h : item.Sound) :
    QueueItem.Sound { item with model } ↔
      optionalRecord model.json isModel = true ∧ model.JsonSafe :=
  ⟨fun hsound => ⟨hsound.readable.model, hsound.model⟩, fun ⟨hmodel, hsafe⟩ =>
    ⟨{ h.readable with model := hmodel }, h.message, h.channelContext, hsafe,
      h.immediateSendBatch⟩⟩

theorem sound_modelUpdate {item : QueueItem} {input : QueueUpdateInput} (h : item.Sound) :
    (modelUpdate input item).Sound ↔ ModelKept input.model := by
  rw [modelKept_iff]
  unfold modelUpdate orAbsent
  split
  · rename_i hnull
    rw [hnull]
    simp [sound_withModel h, truthy, optionalRecord, JsValue.json, isUndefined, JsonSafe]
  · by_cases htruthy : input.model.truthy = true
    · rw [if_pos htruthy, if_pos htruthy]
      exact sound_withModel h
    · rw [if_neg htruthy, if_neg htruthy]
      simp [h, optionalRecord, JsValue.json, isUndefined, JsonSafe]

theorem sound_withExpiresAt {item : QueueItem} {expiresAt : JsNumber}
    (hitem : ∀ n ∈ item.expiresAt, n.isFinite = true) (hfinite : expiresAt.isFinite = true) :
    QueueItem.Sound { item with expiresAt := some expiresAt } ↔ item.Sound := by
  have hexpires : ∀ n ∈ some expiresAt, n.isFinite = true := by simp [hfinite]
  constructor
  · exact fun h => ⟨{ h.readable with expiresAt := hitem }, h.message, h.channelContext, h.model,
      h.immediateSendBatch⟩
  · exact fun h => ⟨{ h.readable with expiresAt := hexpires }, h.message, h.channelContext, h.model,
      h.immediateSendBatch⟩

theorem modelUpdate_message (input : QueueUpdateInput) (item : QueueItem) :
    (modelUpdate input item).message = item.message ∧
      (modelUpdate input item).expiresAt = item.expiresAt := by
  unfold modelUpdate
  split
  · exact ⟨rfl, rfl⟩
  · split_ifs <;> exact ⟨rfl, rfl⟩

/-- The item an update leaves of a sound one is sound exactly when the input is kept. -/
theorem sound_updatedItem {item : QueueItem} {input : QueueUpdateInput} (h : item.Sound)
    (hvalid : input.valid = true) (hdistinct : input.message.DistinctNames) :
    (updatedItem input item).Sound ↔ input.Kept := by
  simp only [QueueUpdateInput.valid, Bool.and_eq_true, Bool.or_eq_true] at hvalid
  obtain ⟨⟨-, hmessage⟩, hexpires⟩ := hvalid
  obtain ⟨messageUpdated, hupdated⟩ : ∃ m, m = if input.message.truthy = true then
      replaceItemMessage item input.message else item := ⟨_, rfl⟩
  have hfinite : messageUpdated.expiresAt = item.expiresAt := by
    rw [hupdated]
    split_ifs <;> rfl
  have hkept : (messageUpdated.message.JsonSafe → input.message.JsonSafe) ∧
      (input.message.JsonSafe → messageUpdated.Sound) := by
    rcases hmessage with hundefined | hmessage
    · rw [eq_undefined_of_isUndefined hundefined] at hupdated ⊢
      exact ⟨fun _ => trivial, fun _ => hupdated ▸ h⟩
    · have htruthy : input.message.truthy = true := by
        have hrecord := record_of_message hmessage.1
        cases hm : input.message <;> rw [hm] at hrecord <;> first | rfl | cases hrecord
      rw [if_pos htruthy] at hupdated
      rw [hupdated]
      exact ⟨safe_of_replaceItemMessage hmessage.1 hdistinct,
        (sound_replaceItemMessage h hmessage.1 hdistinct).2⟩
  have hmodel : (modelUpdate input messageUpdated).Sound ↔ input.Kept := by
    constructor
    · intro hsound
      have hsafe := hsound.message
      rw [(modelUpdate_message input messageUpdated).1] at hsafe
      exact ⟨(sound_modelUpdate (hkept.2 (hkept.1 hsafe))).1 hsound, hkept.1 hsafe⟩
    · exact fun hinput => (sound_modelUpdate (hkept.2 hinput.message)).2 hinput.model
  unfold updatedItem
  rw [← hupdated]
  rcases hat : input.expiresAt with _ | expiresAt
  · exact hmodel
  · refine (sound_withExpiresAt ?_ (by simpa [hat] using hexpires)).trans hmodel
    rw [(modelUpdate_message input messageUpdated).2, hfinite]
    exact h.readable.expiresAt

/-- An update that answers writes the item exactly where it edits one. -/
theorem updateQueued_edits {input : QueueUpdateInput} {result : CommittedQueueResult QueueEdit}
    (h : updateQueued env input db = (.ok result, db')) :
    (input.Edits env db ∧ ∃ item db₁ db₂, item.Sound ∧ item.sessionId = input.sessionId ∧
      Shrinks input.sessionId db db₁ ∧ write (updatedItem input item) db₁ = (.ok (), db₂) ∧
      ∀ t, db'.rows t = db₂.rows t) ∨
    (¬ input.Edits env db ∧ Shrinks input.sessionId db db') := by
  unfold updateQueued at h
  by_cases hvalid : input.valid = true
  swap
  · rw [if_pos (by simp [hvalid])] at h
    obtain ⟨-, rfl⟩ := Effect.pure_ok h
    exact .inr ⟨fun hedits => hvalid hedits.valid, fun _ h => h⟩
  rw [if_neg (by simp [hvalid])] at h
  obtain ⟨inner, db₂, rest, h, -, -, hrows⟩ := transaction_ok (mutationTransaction_ok h)
  obtain ⟨facts, db₁, hexpire, h₁⟩ := Effect.bind_ok h
  have hfiltered := expire_filtered hexpire
  have hshrinks : Shrinks input.sessionId db₁ db₂ → Shrinks input.sessionId db db' := by
    intro hlater row hrow
    rw [hrows] at hrow
    exact hfiltered.shrinks row (hlater row hrow)
  have hmem : ∀ row, row ∈ db₁.rows input.sessionId ↔
      row ∈ db.rows input.sessionId ∧ isExpiredRow env.nowMs row = false := by
    intro row
    rw [hfiltered, List.mem_filter, Bool.not_eq_true']
  by_cases hlive : (input.expiresAt.any fun expiresAt => expiresAt.le env.nowMs) = true
  · rw [if_pos hlive] at h₁
    obtain ⟨-, rfl⟩ := Effect.pure_ok h₁
    exact .inr ⟨fun hedits => by simp [hedits.live] at hlive, hshrinks fun _ h => h⟩
  rw [if_neg hlive] at h₁
  obtain ⟨found, db₃, hfind, h₂⟩ := Effect.bind_ok h₁
  obtain ⟨rfl, hfound⟩ := selectFirst_ok hfind
  rcases found with _ | item
  · obtain ⟨-, rfl⟩ := Effect.pure_ok h₂
    refine .inr ⟨fun hedits => ?_, hshrinks fun _ h => h⟩
    obtain ⟨row, hrow, hid, -, hunexpired, -⟩ := hedits.editable
    simpa [hid] using hfound row ((hmem row).2 ⟨hrow, hunexpired⟩)
  obtain ⟨row, hrow, hid, hdecodes⟩ := hfound
  rw [decide_eq_true_eq] at hid
  dsimp only at h₂
  by_cases heditable : item.status ≠ .queued ∨ item.source ≠ .api
  · rw [if_pos heditable] at h₂
    obtain ⟨-, rfl⟩ := Effect.pure_ok h₂
    refine .inr ⟨fun hedits => ?_, hshrinks fun _ h => h⟩
    obtain ⟨other, hother, hotherId, hstatus, -, decoded, hdecoded, hsource⟩ := hedits.editable
    obtain rfl := row_unique ((hmem row).1 hrow).1 hother (hid.trans hotherId.symm)
    obtain rfl := Except.ok.inj (hdecodes.decoded.symm.trans hdecoded)
    exact heditable.elim (fun h => h (hdecodes.status.trans hstatus)) fun h => h hsource
  rw [if_neg heditable] at h₂
  push Not at heditable
  obtain ⟨⟨⟩, db₄, hwrite, h₃⟩ := Effect.bind_ok h₂
  obtain ⟨-, rfl⟩ := Effect.pure_ok h₃
  obtain ⟨hold, hunexpired⟩ := (hmem row).1 hrow
  exact .inl ⟨⟨hvalid, by simpa using hlive, row, hold, hid,
    hdecodes.status.symm.trans heditable.1, hunexpired, item, hdecodes.decoded, heditable.2⟩,
    item, _, _, hdecodes.sound, hdecodes.sessionId.trans (mem_rows.1 hold).2, hfiltered.shrinks,
    hwrite, hrows⟩

/-- An update that answers leaves good rows where the input is kept, and only there. -/
theorem updateQueued_kept {input : QueueUpdateInput} {result : CommittedQueueResult QueueEdit}
    (hdistinct : input.message.DistinctNames)
    (h : updateQueued env input db = (.ok result, db')) :
    ((input.Edits env db → input.Kept) → KeepsGood input.sessionId db db') ∧
    ((∀ row ∈ db'.rows input.sessionId, row.ReadsBack) → input.Edits env db → input.Kept) := by
  rcases updateQueued_edits h with
    ⟨hedits, item, db₁, db₂, hitem, hsession, hshrinks, hwrite, hrows⟩ | ⟨hnot, hshrinks⟩
  · have hsound := sound_updatedItem hitem hedits.valid hdistinct
    constructor
    · intro hkept Good hGood hdb row hrow
      rw [hrows] at hrow
      rcases adds_write hwrite row hrow with hrow | rfl
      · exact hdb row (hshrinks row hrow)
      · exact hGood _ (hsound.2 (hkept hedits))
    · intro hreads _
      have hmem := mem_write hwrite
      rw [(updatedItem_entry input item).2, hsession, ← hrows] at hmem
      exact hsound.1 ((QueueItem.readsBack_storage _).1 (hreads _ hmem))
  · exact ⟨fun _ => hshrinks.keepsGood, fun _ hedits => absurd hedits hnot⟩

end Kinetick
