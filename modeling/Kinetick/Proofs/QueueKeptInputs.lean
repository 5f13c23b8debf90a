import Kinetick.Proofs.QueueKept

/-!
# Inputs that are written

The operations that write what they were given: the row they write of it reads back exactly when the
input is kept.
-/

namespace Kinetick

open QueueCodec JsValue QueueRepository

variable {env : QueueEnvironment} {db db' : QueueDb}

theorem jsonSafe_get {v : JsValue} (h : v.JsonSafe) (key : String) : (v.get key).JsonSafe := by
  rw [← json_eq_dropUndefined] at h ⊢
  rw [← get_json, h, get_dropUndefined]

theorem orAbsent_of_record {v : JsValue} (h : record v = true) : v.orAbsent = v := by
  cases v <;> first | rfl | cases h

/-- A part that may be absent is kept or left out. -/
theorem orAbsent_of_optional {validate : JsValue → Bool} {v : JsValue}
    (hrecord : ∀ w, validate w = true → record w = true) (h : optionalRecord v validate = true) :
    v.orAbsent = v := by
  rcases (Bool.or_eq_true _ _).mp h with hv | hv
  · rw [eq_undefined_of_isUndefined hv]
    rfl
  · exact orAbsent_of_record (hrecord v hv)

theorem record_of_isChannelContext (v : JsValue) (h : isChannelContext v = true) :
    record v = true := by
  simp only [isChannelContext, Bool.and_eq_true] at h
  exact h.1

/-- The check of a message checks its context. -/
theorem channelContext_of_message {message : JsValue} (h : isQueueMessageInput message = true) :
    optionalRecord (message.get "channelContext") isChannelContext = true := by
  simp only [isQueueMessageInput, Bool.and_eq_true] at h
  exact h.2

/-- The context an item takes of a message that is kept. -/
theorem channelContext_kept {message : JsValue} (h : isQueueMessageInput message = true)
    (hsafe : message.JsonSafe) :
    optionalRecord (message.get "channelContext").orAbsent.json isChannelContext = true ∧
      (message.get "channelContext").orAbsent.JsonSafe := by
  have hcontext := channelContext_of_message h
  rw [orAbsent_of_optional record_of_isChannelContext hcontext]
  exact ⟨steady_isChannelContext.optionalRecord.json hcontext (jsonSafe_get hsafe _),
    jsonSafe_get hsafe _⟩

/-- A model that is kept, where there is one. -/
theorem modelKept_iff (model : JsValue) : ModelKept model ↔
    optionalRecord model.orAbsent.json isModel = true ∧ model.orAbsent.JsonSafe := by
  unfold ModelKept orAbsent
  by_cases htruthy : model.truthy = true
  · have hdefined : model.isUndefined = false := by
      cases model <;> first | rfl | cases htruthy
    rw [if_pos htruthy]
    simp only [htruthy, forall_const, optionalRecord, isUndefined_json, hdefined, Bool.false_or]
    constructor
    · rintro ⟨hvalid, hsafe⟩
      exact ⟨steady_isModel.json hvalid hsafe, hsafe⟩
    · rintro ⟨hvalid, hsafe⟩
      rw [(json_eq_dropUndefined model).2 hsafe] at hvalid
      refine ⟨?_, hsafe⟩
      simpa [isModel, isModelContext, isParameterSnapshot, isProvenance, stringIs_dropUndefined,
        optionalRecord, isModelThinking] using hvalid
  · rw [if_neg htruthy]
    simp [htruthy, optionalRecord, JsValue.json, isUndefined, JsonSafe]

/-! ## Enqueue -/

namespace QueueEnqueueInput

variable {input : QueueEnqueueInput} {itemId : String} {nowMs : JsNumber}

/-- The item an enqueue makes is sound exactly when the input is kept. -/
theorem sound_makeQueued (hvalid : input.valid = true) (hid : itemId ≠ "")
    (hnow : nowMs.isFinite = true) : (input.makeQueued itemId nowMs).Sound ↔ input.Kept := by
  simp only [valid, validMetadata, Bool.and_eq_true, decide_eq_true_eq, ne_eq] at hvalid
  obtain ⟨⟨⟨⟨hsession, hagent⟩, hmessage⟩, -⟩, ⟨hbatch, hcreated⟩, hexpires⟩ := hvalid
  constructor
  · intro h
    exact ⟨(modelKept_iff _).2 ⟨h.readable.model, h.model⟩, h.readable.userMessageId, h.message,
      h.immediateSendBatch⟩
  · rintro ⟨hmodel, huser, hsafe, hbatchSafe⟩
    obtain ⟨hmodelReadable, hmodelSafe⟩ := (modelKept_iff _).1 hmodel
    obtain ⟨hcontext, hcontextSafe⟩ := channelContext_kept hmessage hsafe
    refine ⟨?_, hsafe, hcontextSafe, hmodelSafe, hbatchSafe⟩
    have hcreatedAt : (input.createdAt.getD nowMs).isFinite = true := by
      rcases hat : input.createdAt with _ | createdAt
      · exact hnow
      · simpa [hat] using hcreated
    exact {
      itemId := hid
      sessionId := hsession
      agentName := hagent
      message := steady_isQueueMessageInput.json hmessage hsafe
      createdAt := hcreatedAt
      userMessageId := huser
      expiresAt := fun n hn => by
        have hsome : input.expiresAt = some n := hn
        simpa [hsome] using hexpires
      channelContext := hcontext
      model := hmodelReadable
      immediateSendBatch := steady_isQueueImmediateSendBatch.optionalRecord.json hbatch hbatchSafe
      deliveryAttempts := fun _ h => by cases h
      claim := ⟨rfl, rfl, rfl, rfl⟩ }

end QueueEnqueueInput

section Enqueue

variable {Good : QueueRow → Prop} {s : String} {input : QueueEnqueueInput}

theorem leaves_replayEnqueue (hGood : ∀ item : QueueItem, item.Sound → Good item.storage)
    {found : QueueItem} (hfound : found.Sound) (facts : List QueueCommittedFact) :
    Leaves Good s (replayEnqueue input found facts) fun _ => True := by
  refine Leaves.bind (Q := QueueItem.Sound) ?_ fun existing hexisting => ?_
  · rcases hturn : nonEmptyText input.requestedTurnId with _ | turnId <;>
      simp only [attachRequestedTurnId, hturn]
    · exact leaves_pure hfound
    · split_ifs
      · exact leaves_pure hfound
      · have hwritten := hfound.withRequestedTurnId (some turnId)
        exact (leaves_write (hGood _ hwritten)).bind fun _ _ => leaves_pure hwritten
  · dsimp only
    split_ifs
    · exact (leaves_moveQueuedToFront hGood hexisting).bind fun _ _ => (leaves_read _).bind
        fun _ _ => leaves_pure trivial
    · exact (leaves_read _).bind fun _ _ => leaves_pure trivial

theorem leaves_settleBatchMemberClaim {t : String} (nowMs : JsNumber) (member : JsValue) :
    Leaves Good s (settleBatchMemberClaim t nowMs member) fun _ => True := by
  rcases hid : memberItemId member with _ | itemId <;> simp only [settleBatchMemberClaim, hid]
  · exact leaves_pure trivial
  refine (leaves_selectFirst _).bind fun existing _ => ?_
  rcases existing with _ | existing
  · exact leaves_pure trivial
  dsimp only
  split_ifs
  · exact leaves_pure trivial
  · exact leaves_pure trivial
  · exact leaves_raise _
  · exact (leaves_deleteRows _).bind fun _ _ => leaves_pure trivial

/-- An identity to restore is not empty. -/
theorem leaves_restorableIdentity : Leaves Good s (restorableIdentity input)
    fun restored => ∀ r ∈ restored, r.1 ≠ "" := by
  rcases hid : nonEmptyText input.itemId with _ | itemId <;> simp only [restorableIdentity, hid]
  · exact leaves_pure (by simp)
  have hne : itemId ≠ "" := by
    have hfilter := Option.eq_some_of_filter_eq_some hid
    simpa [nonEmptyText, hfilter] using hid
  refine (leaves_selectFirst _).bind fun existing _ => ?_
  rcases existing with _ | existing
  · exact leaves_pure (by simp [hne])
  dsimp only
  split_ifs
  · exact leaves_pure (by simp)
  · exact (leaves_deleteRows _).bind fun _ _ => leaves_pure (by simp [hne])

theorem restorableIdentity_named {restored : Option (String × Option QueueItem)}
    (h : restorableIdentity input db = (.ok restored, db')) : ∀ r ∈ restored, r.1 ≠ "" := by
  have hleaves : Leaves (fun _ => True) input.sessionId (restorableIdentity input)
    fun restored => ∀ r ∈ restored, r.1 ≠ "" := leaves_restorableIdentity
  exact (hleaves db restored db' (fun _ _ => trivial) h).2

theorem leaves_findReplaced : Leaves Good s (findReplaced input) fun _ => True := by
  rcases hkey : nonEmptyText input.dedupeKey with _ | key <;> simp only [findReplaced, hkey]
  · exact leaves_pure trivial
  · exact (leaves_selectFirst _).mono fun _ _ => trivial

theorem leaves_writeEnqueued {item : QueueItem} (hitem : Good item.storage) :
    ∀ replaced, Leaves Good s (writeEnqueued item replaced) fun _ => True
  | some _ => leaves_replaceItem hitem
  | none => leaves_write hitem

theorem leaves_insertEnqueue (hGood : ∀ item : QueueItem, item.Sound → Good item.storage)
    (hitem : ∀ itemId, itemId ≠ "" → (input.makeQueued itemId env.nowMs).Sound)
    (hid : env.newItemId ≠ "") (facts : List QueueCommittedFact) :
    Leaves Good s (insertEnqueue env input env.nowMs facts) fun _ => True := by
  refine Leaves.bind (Q := fun _ => True) ((leaves_gather fun _ _ =>
    leaves_settleBatchMemberClaim _ _).bind fun _ _ => leaves_pure trivial) fun batchClaims _ =>
    leaves_restorableIdentity.bind fun restored hrestored => leaves_findReplaced.bind
      fun replaced _ => ?_
  have hsound : (input.makeQueued ((restored.map Prod.fst).getD env.newItemId) env.nowMs).Sound := by
    rcases restored with _ | r
    · exact hitem _ hid
    · exact hitem _ (hrestored r rfl)
  refine (leaves_writeEnqueued (hGood _ hsound) _).bind fun _ _ => ?_
  dsimp only
  split_ifs
  · exact (leaves_moveQueuedToFront hGood hsound).bind fun _ _ => (leaves_read _).bind fun _ _ =>
      leaves_pure trivial
  · exact (leaves_read _).bind fun _ _ => leaves_pure trivial

/-- The rows of the Session stay good, whichever these are, where all of sound items are. -/
def KeepsGood (s : String) (db db' : QueueDb) : Prop :=
  ∀ Good : QueueRow → Prop, (∀ item : QueueItem, item.Sound → Good item.storage) →
    (∀ row ∈ db.rows s, Good row) → ∀ row ∈ db'.rows s, Good row

theorem Shrinks.keepsGood (h : Shrinks s db db') : KeepsGood s db db' :=
  fun _ _ hdb row hrow => hdb row (h row hrow)

theorem findReplayed_request {found : QueueItem}
    (h : findReplayed input db = (.ok (some found), db')) :
    db' = db ∧ ∃ request, nonEmptyText input.clientRequestId = some request ∧
      ∃ row ∈ db.rows input.sessionId, row.clientRequestId = some request ∧ Decodes row found := by
  rcases hrequest : nonEmptyText input.clientRequestId with _ | request <;>
    simp only [findReplayed, hrequest] at h
  · cases (Effect.pure_ok h).1
  · obtain ⟨rfl, row, hrow, hmatches, hdecodes⟩ := selectFirst_ok h
    exact ⟨rfl, request, rfl, row, hrow, by simpa using hmatches, hdecodes⟩

theorem not_expired_of_claimed {nowMs : JsNumber} {row : QueueRow} (h : row.status = .claimed) :
    isExpiredRow nowMs row = false := by
  simp [isExpiredRow, h]

/-- An enqueue that answers inserts its item exactly where it is to, and else leaves good rows. -/
theorem enqueue_inserts {result : CommittedQueueResult (Option QueueEnqueueResult)}
    (h : enqueue env input db = (.ok result, db')) :
    (input.Inserts env db ∧ ∃ facts inner db₁ db₂, Shrinks input.sessionId db db₁ ∧
      insertEnqueue env input env.nowMs facts db₁ = (.ok inner, db₂) ∧
      ∀ t, db'.rows t = db₂.rows t) ∨
    (¬ input.Inserts env db ∧ KeepsGood input.sessionId db db') := by
  unfold enqueue at h
  by_cases hvalid : input.valid = true
  swap
  · rw [if_neg hvalid] at h
    obtain ⟨-, rfl⟩ := Effect.pure_ok h
    exact .inr ⟨fun hinserts => hvalid hinserts.valid, fun _ _ hdb => hdb⟩
  rw [if_pos hvalid] at h
  obtain ⟨inner, db₂, rest, h, -, -, hrows⟩ := transaction_ok (mutationTransaction_ok h)
  have hkeeps : KeepsGood input.sessionId db db₂ → KeepsGood input.sessionId db db' :=
    fun hkeeps Good hGood hdb row hrow => hkeeps Good hGood hdb row (hrows _ ▸ hrow)
  obtain ⟨facts, db₁, hexpire, h₁⟩ := Effect.bind_ok h
  have hfiltered := expire_filtered hexpire
  have hmem : ∀ row, row ∈ db₁.rows input.sessionId ↔
      row ∈ db.rows input.sessionId ∧ isExpiredRow env.nowMs row = false := by
    intro row
    rw [hfiltered, List.mem_filter, Bool.not_eq_true']
  by_cases hlive : (input.expiresAt.any fun expiresAt => expiresAt.le env.nowMs) = true
  · rw [if_pos hlive] at h₁
    obtain ⟨-, rfl⟩ := Effect.pure_ok h₁
    exact .inr ⟨fun hinserts => by simp [hinserts.live] at hlive,
      hkeeps hfiltered.shrinks.keepsGood⟩
  rw [if_neg hlive] at h₁
  obtain ⟨claimed, db₃, hread, h₂⟩ := Effect.bind_ok h₁
  obtain ⟨rfl, rfl⟩ := Effect.read_ok hread
  have hclaimed : ((db₃.rows input.sessionId).any fun row => row.status = .claimed) = true ↔
      ∃ row ∈ db.rows input.sessionId, row.status = .claimed := by
    simp only [List.any_eq_true, decide_eq_true_eq]
    constructor
    · exact fun ⟨row, hrow, hstatus⟩ => ⟨row, ((hmem row).1 hrow).1, hstatus⟩
    · exact fun ⟨row, hrow, hstatus⟩ =>
        ⟨row, (hmem row).2 ⟨hrow, not_expired_of_claimed hstatus⟩, hstatus⟩
  by_cases hfront : (input.front && (nonEmptyText input.itemId).isNone &&
      (db₃.rows input.sessionId).any fun row => row.status = .claimed) = true
  · rw [if_pos hfront] at h₂
    obtain ⟨-, rfl⟩ := Effect.pure_ok h₂
    simp only [Bool.and_eq_true, Option.isNone_iff_eq_none, hclaimed] at hfront
    exact .inr ⟨fun hinserts => hinserts.placed ⟨hfront.1.1, hfront.1.2, hfront.2⟩,
      hkeeps hfiltered.shrinks.keepsGood⟩
  rw [if_neg hfront] at h₂
  obtain ⟨found, db₄, hfind, h₃⟩ := Effect.bind_ok h₂
  rcases found with _ | found
  · obtain ⟨rfl, hnone⟩ := findReplayed_ok hfind
    simp only [Bool.and_eq_true, Option.isNone_iff_eq_none, hclaimed] at hfront
    refine .inl ⟨⟨hvalid, by simpa using hlive, fun hplaced => hfront ⟨⟨hplaced.1, hplaced.2.1⟩,
      hplaced.2.2⟩, fun request hrequest row hrow hrowRequest => ?_⟩, facts, inner, db₄, db₂,
      hfiltered.shrinks, h₃, hrows⟩
    by_contra hexpired
    exact hnone request hrequest row ((hmem row).2 ⟨hrow, by simpa using hexpired⟩) hrowRequest
  · obtain ⟨rfl, request, hrequest, row, hrow, hrowRequest, hdecodes⟩ := findReplayed_request hfind
    obtain ⟨hold, hexpired⟩ := (hmem row).1 hrow
    refine .inr ⟨fun hinserts => ?_, hkeeps fun Good hGood hdb => ?_⟩
    · simp [hinserts.request request hrequest row hold hrowRequest] at hexpired
    · exact (leaves_replayEnqueue hGood hdecodes.sound facts db₄ _ db₂
        (fun row hrow => hdb row (hfiltered.shrinks row hrow)) h₃).1

/-! ### The row of the new item -/

theorem mem_insert {item : QueueItem} (h : QueueRepository.insert item db = (.ok (), db')) :
    item.storage ∈ db'.rows item.sessionId := by
  rw [(insert_ok h).1.rows]
  simp

theorem mem_rows_insert {item : QueueItem} {row : QueueRow} {t : String}
    (h : QueueRepository.insert item db = (.ok (), db')) (hrow : row ∈ db.rows t) :
    row ∈ db'.rows t := by
  obtain ⟨hwrote, -⟩ := insert_ok h
  by_cases ht : t = item.sessionId
  · subst ht
    rw [hwrote.rows]
    exact List.mem_append_left _ hrow
  · rwa [hwrote.others t ht]

theorem mem_rows_inserts {row : QueueRow} {t : String} :
    ∀ {items : List QueueItem} {db : QueueDb},
      Effect.forEach QueueRepository.insert items db = (.ok (), db') → row ∈ db.rows t →
        row ∈ db'.rows t
  | [], _, h, hrow => by
    obtain ⟨-, rfl⟩ := Effect.pure_ok h
    exact hrow
  | item :: items, db, h, hrow => by
    obtain ⟨⟨⟩, db₁, hinsert, hrest⟩ := Effect.bind_ok h
    exact mem_rows_inserts hrest (mem_rows_insert hinsert hrow)

/-- Each inserted item has its row. -/
theorem mem_inserts {item : QueueItem} :
    ∀ {items : List QueueItem} {db : QueueDb},
      Effect.forEach QueueRepository.insert items db = (.ok (), db') → item ∈ items →
        item.storage ∈ db'.rows item.sessionId
  | [], _, _, hitem => by cases hitem
  | first :: items, db, h, hitem => by
    obtain ⟨⟨⟩, db₁, hinsert, hrest⟩ := Effect.bind_ok h
    rcases List.mem_cons.1 hitem with rfl | hitem
    · exact mem_rows_inserts hrest (mem_insert hinsert)
    · exact mem_inserts hrest hitem

theorem mem_moveQueuedToFront {item : QueueItem}
    (h : moveQueuedToFront item db = (.ok (), db')) : item.storage ∈ db'.rows item.sessionId := by
  obtain ⟨queued, db₁, -, h₁⟩ := Effect.bind_ok h
  obtain ⟨⟨⟩, db₂, -, h₂⟩ := Effect.bind_ok h₁
  exact mem_inserts h₂ (.head _)

theorem mem_putRow {row : QueueRow} {itemId : String} {rows : List QueueRow}
    (h : ∃ old ∈ rows, old.itemId = itemId) : row ∈ putRow itemId row rows := by
  obtain ⟨old, hold, hid⟩ := h
  exact List.mem_map.2 ⟨old, hold, if_pos hid⟩

theorem mem_write {item : QueueItem} (h : write item db = (.ok (), db')) :
    item.storage ∈ db'.rows item.sessionId := by
  rw [(write_ok h).rows]
  split_ifs with hrow
  · exact mem_putRow hrow
  · simp

theorem mem_replaceItem {previous item : QueueItem} (hsession : item.sessionId = previous.sessionId)
    (hrow : ∃ row ∈ db.rows item.sessionId, row.itemId = previous.itemId)
    (h : replaceItem previous item db = (.ok (), db')) :
    item.storage ∈ db'.rows item.sessionId := by
  rw [(replaceItem_ok hsession h).rows]
  exact mem_putRow hrow

/-- An insert leaves the row of the item it makes. -/
theorem mem_insertEnqueue {facts : List QueueCommittedFact} {nowMs : JsNumber}
    {result : CommittedQueueResult (Option QueueEnqueueResult)} (hid : env.newItemId ≠ "")
    (h : insertEnqueue env input nowMs facts db = (.ok result, db')) :
    ∃ itemId, itemId ≠ "" ∧ (input.makeQueued itemId nowMs).storage ∈ db'.rows input.sessionId := by
  obtain ⟨batchClaims, db₁, -, h₁⟩ := Effect.bind_ok h
  obtain ⟨restored, db₂, hrestored, h₂⟩ := Effect.bind_ok h₁
  have hnamed : (restored.map Prod.fst).getD env.newItemId ≠ "" := by
    rcases restored with _ | r
    · exact hid
    · exact restorableIdentity_named hrestored r rfl
  refine ⟨_, hnamed, ?_⟩
  obtain ⟨replaced, db₃, hreplaced, h₃⟩ := Effect.bind_ok h₂
  obtain ⟨rfl, hfound⟩ := findReplaced_ok hreplaced
  obtain ⟨⟨⟩, db₄, hwrite, h₄⟩ := Effect.bind_ok h₃
  have hwritten : (input.makeQueued ((restored.map Prod.fst).getD env.newItemId) nowMs).storage ∈
      db₄.rows input.sessionId := by
    rcases replaced with _ | replaced
    · exact mem_write hwrite
    · obtain ⟨row, hrow, hdecodes, -⟩ := hfound
      have hsession : replaced.sessionId = input.sessionId :=
        hdecodes.sessionId.trans (mem_rows.1 hrow).2
      exact mem_replaceItem hsession.symm ⟨row, hrow, hdecodes.itemId.symm⟩ hwrite
  dsimp only at h₄
  split_ifs at h₄
  · obtain ⟨⟨⟩, db₅, hmove, h₅⟩ := Effect.bind_ok h₄
    obtain ⟨result, db₆, hresult, h₆⟩ := Effect.bind_ok h₅
    obtain ⟨-, rfl⟩ := Effect.pure_ok h₆
    obtain ⟨rfl, -⟩ := enqueueResult_ok hresult
    exact mem_moveQueuedToFront hmove
  · obtain ⟨result, db₆, hresult, h₆⟩ := Effect.bind_ok h₄
    obtain ⟨-, rfl⟩ := Effect.pure_ok h₆
    obtain ⟨rfl, -⟩ := enqueueResult_ok hresult
    exact hwritten

/-- An enqueue that answers leaves good rows where the input is kept, and only there. -/
theorem enqueue_kept {result : CommittedQueueResult (Option QueueEnqueueResult)}
    (hid : env.newItemId ≠ "") (h : enqueue env input db = (.ok result, db')) :
    ((input.Inserts env db → input.Kept) → KeepsGood input.sessionId db db') ∧
    ((∀ row ∈ db'.rows input.sessionId, row.ReadsBack) → input.Inserts env db → input.Kept) := by
  rcases enqueue_inserts h with
    ⟨hinserts, facts, inner, db₁, db₂, hshrinks, hinsert, hrows⟩ | ⟨hnot, hkeeps⟩
  · have hsound : ∀ itemId, itemId ≠ "" →
        ((input.makeQueued itemId env.nowMs).Sound ↔ input.Kept) :=
      fun itemId hne => QueueEnqueueInput.sound_makeQueued hinserts.valid hne rfl
    constructor
    · intro hkept Good hGood hdb row hrow
      rw [hrows] at hrow
      exact (leaves_insertEnqueue hGood (fun itemId hne => (hsound itemId hne).2 (hkept hinserts))
        hid facts db₁ inner db₂ (fun row hrow => hdb row (hshrinks row hrow)) hinsert).1 row hrow
    · intro hreads _
      obtain ⟨itemId, hne, hmem⟩ := mem_insertEnqueue hid hinsert
      rw [← hrows] at hmem
      exact (hsound itemId hne).1 ((QueueItem.readsBack_storage _).1 (hreads _ hmem))
  · exact ⟨fun _ => hkeeps, fun _ hinserts => absurd hinserts hnot⟩

end Enqueue

/-! ## Claims -/

section Claims

variable {s : String} {input : QueueClaimInput}

/-- The item as the claim writes it. -/
def claimedItem (env : QueueEnvironment) (claimedAt : JsNumber) (item : QueueItem) : QueueItem :=
  { item with
    status := .claimed
    claimId := some env.newClaimId
    claimedAt := some claimedAt
    claimOwnerId := some env.claimOwnerId
    claimLeaseExpiresAt := some (claimedAt.add env.claimLeaseMs) }

theorem sound_claimedItem {claimedAt : JsNumber} {item : QueueItem} (h : item.Sound)
    (hid : env.newClaimId ≠ "") :
    (claimedItem env claimedAt item).Sound ↔ claimedAt.isFinite = true := by
  constructor
  · exact fun hsound => hsound.readable.claimedAt.1 claimedAt rfl
  · intro hfinite
    have hlease : ∀ n ∈ (claimedItem env claimedAt item).claimLeaseExpiresAt, n.isFinite = true := by
      simp [claimedItem, hfinite]
    exact ⟨{ h.readable with
      claim := ⟨⟨env.newClaimId, rfl, hid⟩, ⟨claimedAt, rfl, hfinite⟩, hlease⟩ }, h.message,
      h.channelContext, h.model, h.immediateSendBatch⟩

/-- The first item of a property of its id is of the first such row. -/
theorem find_decodes {p : String → Bool} {rows : List QueueRow} {items : List QueueItem}
    (h : List.Forall₂ Decodes rows items) :
    Option.Rel Decodes (rows.find? fun row => p row.itemId) (items.find? fun item => p item.itemId) := by
  induction h with
  | nil => exact .none
  | @cons row item rows items hd _ ih =>
    rw [List.find?_cons, List.find?_cons, hd.itemId]
    rcases p row.itemId with _ | _
    · exact ih
    · exact .some hd

/-- Where no row is claimed, the candidate is the first the claim may take. -/
theorem claimCandidate_find {selected : Option QueueItem}
    (hfree : ∀ row ∈ db.rows input.sessionId, row.status = .queued)
    (h : claimCandidate input db = (.ok selected, db')) :
    db' = db ∧ Option.Rel Decodes ((db.rows input.sessionId).find? input.takes) selected := by
  rcases hid : nonEmptyText input.itemId with _ | itemId <;> simp only [claimCandidate, hid] at h
  · obtain ⟨queued, db₁, hselect, h₁⟩ := Effect.bind_ok h
    obtain ⟨rfl, rfl⟩ := Effect.pure_ok h₁
    obtain ⟨hitems, rfl⟩ := select_ok hselect
    have hall : (db'.rows input.sessionId).filter (fun row => row.status = .queued) =
        db'.rows input.sessionId := List.filter_eq_self.2 fun row hrow => by simp [hfree row hrow]
    rw [hall] at hitems
    have htakes : input.takes = fun row => !input.excludeItemIds.contains row.itemId := by
      funext row
      simp only [QueueClaimInput.takes, hid]
    rw [htakes]
    exact ⟨rfl, find_decodes (p := fun id => !input.excludeItemIds.contains id) hitems⟩
  · obtain ⟨found, db₁, hfind, h₁⟩ := Effect.bind_ok h
    obtain ⟨rfl, rfl⟩ := Effect.pure_ok h₁
    have htakes : input.takes = fun row => decide (row.itemId = itemId) := by
      funext row
      simp only [QueueClaimInput.takes, hid]
    obtain ⟨rfl, -⟩ := selectFirst_ok hfind
    rw [htakes]
    unfold QueueRepository.find selectFirst at hfind
    rcases hrow : (db'.rows input.sessionId).find? (fun row => decide (row.itemId = itemId)) with
      _ | row <;> rw [hrow] at hfind
    · obtain ⟨hnone, -⟩ := Prod.mk.inj hfind
      cases hnone
      rw [hrow]
      exact ⟨rfl, .none⟩
    · obtain ⟨hitem, -⟩ := Prod.mk.inj hfind
      rcases hdecoded : decodeQueueRow row with e | item <;> rw [hdecoded] at hitem <;> cases hitem
      have hdecodes := decodes_of_ok hdecoded
      have hqueued : item.status = .queued :=
        hdecodes.status.trans (hfree row (List.mem_of_find?_eq_some hrow))
      have honly : onlyQueuedItem (some item) = some item := by simp [onlyQueuedItem, hqueued]
      rw [hrow, honly]
      exact ⟨rfl, .some hdecodes⟩

/-- A claim that answers writes the claimed item exactly where it takes one. -/
theorem claimNext_claims {result : CommittedQueueResult (Option QueueDispatchItem)}
    (h : claimNext env input db = (.ok result, db')) :
    (input.Claims env db ∧ ∃ item db₁ db₂, item.Sound ∧ item.sessionId = input.sessionId ∧
      env.newClaimId ≠ "" ∧ Shrinks input.sessionId db db₁ ∧
      write (claimedItem env (input.claimedAt env) item) db₁ = (.ok (), db₂) ∧
      (∀ t, db'.rows t = db₂.rows t) ∧
      (∃ row, (db₁.rows input.sessionId).find? input.takes = some row ∧ Decodes row item) ∧
      ∃ claim, result.value = some claim ∧ claim.claimId = env.newClaimId ∧
        claim.selection = claimSelection input ∧ claim.sessionId = input.sessionId ∧
        claim.item.itemId = item.itemId) ∨
    (¬ input.Claims env db ∧ Shrinks input.sessionId db db' ∧ result.value = none) := by
  obtain ⟨inner, db₂, rest, h, hvalue, -, hrows⟩ := transaction_ok h
  obtain ⟨facts, db₁, hexpire, h₁⟩ := Effect.bind_ok h
  have hfiltered : Filtered input.sessionId (fun row => !isExpiredRow (input.claimedAt env) row)
    db db₁ := expire_filtered hexpire
  have hshrinks : Shrinks input.sessionId db₁ db₂ → Shrinks input.sessionId db db' := by
    intro hlater row hrow
    rw [hrows] at hrow
    exact hfiltered.shrinks row (hlater row hrow)
  have hpauses : db₁.pauses = db.pauses := by
    obtain ⟨changes, hbecomes, -⟩ : Does (frontScope "") _ _ _ _ := expire_does hexpire
    exact hbecomes.pauses
  obtain ⟨paused, db₃, hread, h₂⟩ := Effect.bind_ok h₁
  obtain ⟨rfl, rfl⟩ := Effect.read_ok hread
  by_cases hpaused : ((nonEmptyText input.itemId).isNone && !input.continuePaused &&
      (db₃.pauses input.sessionId).isSome) = true
  · rw [if_pos hpaused] at h₂
    obtain ⟨rfl, rfl⟩ := Effect.pure_ok h₂
    simp only [Bool.and_eq_true, Option.isNone_iff_eq_none, Bool.not_eq_true', hpauses] at hpaused
    refine .inr ⟨fun hclaims => ?_, hshrinks fun _ h => h, hvalue⟩
    simp [hclaims.running hpaused.1.1 hpaused.1.2] at hpaused
  rw [if_neg hpaused] at h₂
  obtain ⟨claimed, db₄, hread', h₃⟩ := Effect.bind_ok h₂
  obtain ⟨rfl, rfl⟩ := Effect.read_ok hread'
  by_cases hclaimed : ((db₄.rows input.sessionId).any fun row => row.status = .claimed) = true
  · rw [if_pos hclaimed] at h₃
    obtain ⟨rfl, rfl⟩ := Effect.pure_ok h₃
    obtain ⟨row, hrow, hstatus⟩ := List.any_eq_true.1 hclaimed
    refine .inr ⟨fun hclaims => ?_, hshrinks fun _ h => h, hvalue⟩
    have hqueued := hclaims.free row (hfiltered.shrinks row hrow)
    simp [hqueued] at hstatus
  rw [if_neg hclaimed] at h₃
  have hfree : ∀ row ∈ db.rows input.sessionId, row.status = .queued := by
    intro row hrow
    cases hstatus : row.status
    · rfl
    · refine absurd (List.any_eq_true.2 ⟨row, ?_, by simpa using hstatus⟩) hclaimed
      rw [hfiltered]
      exact List.mem_filter.2 ⟨hrow, by simp [not_expired_of_claimed hstatus]⟩
  obtain ⟨value, db₅, hselected, h₄⟩ := Effect.bind_ok h₃
  obtain ⟨rfl, rfl⟩ := Effect.pure_ok h₄
  obtain ⟨selected, db₆, hcandidate, h₅⟩ := Effect.bind_ok hselected
  obtain ⟨rfl, hfind⟩ := claimCandidate_find
    (fun row hrow => hfree row (hfiltered.shrinks row hrow)) hcandidate
  rw [hfiltered] at hfind
  rcases selected with _ | item
  · obtain ⟨rfl, rfl⟩ := Effect.pure_ok h₅
    refine .inr ⟨fun hclaims => ?_, hshrinks fun _ h => h, hvalue⟩
    obtain ⟨row, hrow, -⟩ := hclaims.candidate
    rw [hrow] at hfind
    cases hfind
  obtain ⟨row, hrow, hdecodes⟩ : ∃ row, ((db.rows input.sessionId).filter fun row =>
      !isExpiredRow (input.claimedAt env) row).find? input.takes = some row ∧ Decodes row item := by
    rcases hrow : ((db.rows input.sessionId).filter fun row =>
      !isExpiredRow (input.claimedAt env) row).find? input.takes with _ | row <;>
      rw [hrow] at hfind <;> cases hfind
    rename_i hdecodes
    exact ⟨row, rfl, hdecodes⟩
  dsimp only at h₅
  by_cases hsource : (input.allowedSources.any fun sources => !sources.contains item.source) = true
  · rw [if_pos hsource] at h₅
    obtain ⟨rfl, rfl⟩ := Effect.pure_ok h₅
    refine .inr ⟨fun hclaims => ?_, hshrinks fun _ h => h, hvalue⟩
    obtain ⟨other, hother, decoded, hdecoded, hallowed⟩ := hclaims.candidate
    obtain rfl := Option.some.inj (hrow.symm.trans hother)
    obtain rfl := Except.ok.inj (hdecodes.decoded.symm.trans hdecoded)
    rcases hsources : input.allowedSources with _ | sources <;>
      simp only [hsources, Option.any_none, Option.any_some, Option.all_some] at hsource hallowed
    · cases hsource
    · rw [hallowed] at hsource
      cases hsource
  rw [if_neg hsource] at h₅
  obtain ⟨written, db₇, hclaim, h₆⟩ := Effect.bind_ok h₅
  obtain ⟨dispatched, db₈, hdispatch, h₇⟩ := Effect.bind_ok h₆
  obtain ⟨rfl, rfl⟩ := Effect.pure_ok h₇
  obtain ⟨⟨⟩, db₉, hwrite, h₈⟩ := Effect.bind_ok hclaim
  obtain ⟨rfl, rfl⟩ := Effect.pure_ok h₈
  have hid : env.newClaimId ≠ "" := by
    intro hempty
    simp [dispatchItem, nonEmptyText, hempty] at hdispatch
  obtain ⟨hclaimId, hselection, hsessionId, hitem⟩ := dispatchItem_answer hdispatch
  obtain rfl := dispatchItem_ok hdispatch
  have hsession : item.sessionId = input.sessionId := by
    have hmem := (List.mem_filter.1 (List.mem_of_find?_eq_some hrow)).1
    exact hdecodes.sessionId.trans (mem_rows.1 hmem).2
  refine .inl ⟨⟨fun hnone hcontinue => ?_, hfree, row, hrow, item, hdecodes.decoded, ?_⟩, item, _, _,
    hdecodes.sound, hsession, hid, hfiltered.shrinks, hwrite, hrows, ⟨row, hfiltered ▸ hrow, hdecodes⟩,
    dispatched, hvalue, ?_, hselection, hsessionId.trans hsession, ?_⟩
  · by_contra hsome
    refine hpaused ?_
    rw [hpauses]
    simp [hnone, hcontinue, Option.isSome_iff_ne_none, hsome]
  · rcases hsources : input.allowedSources with _ | sources
    · rfl
    · simpa [hsources] using hsource
  · have hsame : some env.newClaimId = some dispatched.claimId := hclaimId
    exact (Option.some.inj hsame).symm
  · rw [hitem]

/-- A claim that answers leaves good rows where its time is finite, and only there. -/
theorem claimNext_kept {result : CommittedQueueResult (Option QueueDispatchItem)}
    (h : claimNext env input db = (.ok result, db')) :
    ((input.Claims env db → (input.claimedAt env).isFinite = true) →
      KeepsGood input.sessionId db db') ∧
    ((∀ row ∈ db'.rows input.sessionId, row.ReadsBack) → input.Claims env db →
      (input.claimedAt env).isFinite = true) := by
  rcases claimNext_claims h with
    ⟨hclaims, item, db₁, db₂, hitem, hsession, hid, hshrinks, hwrite, hrows, -⟩ |
      ⟨hnot, hshrinks, -⟩
  · have hsound : (claimedItem env (input.claimedAt env) item).Sound ↔ _ :=
      sound_claimedItem hitem hid
    constructor
    · intro hfinite Good hGood hdb row hrow
      rw [hrows] at hrow
      rcases adds_write hwrite row hrow with hrow | rfl
      · exact hdb row (hshrinks row hrow)
      · exact hGood _ (hsound.2 (hfinite hclaims))
    · intro hreads _
      have hmem : (claimedItem env (input.claimedAt env) item).storage ∈
          db₂.rows item.sessionId := mem_write hwrite
      rw [hsession, ← hrows] at hmem
      exact hsound.1 ((QueueItem.readsBack_storage _).1 (hreads _ hmem))
  · exact ⟨fun _ => hshrinks.keepsGood, fun _ hclaims => absurd hclaims hnot⟩

end Claims

end Kinetick
