import Kinetick.Proofs.QueueKeptEdits
import Kinetick.Proofs.QueueLedger

/-!
# What the repository writes reads back

Exactly the operations that are kept leave the rows of their Session such that each decodes to what
was written.
-/

namespace Kinetick

open QueueCodec JsValue QueueRepository

variable {env : QueueEnvironment} {db db' : QueueDb} {s : String}

/-! ## Deliveries -/

section Deliveries

variable {claimId turnId : String} {item : QueueItem}

/-- The item with the attempt noted. -/
def attemptedItem (claimId turnId : String) (item : QueueItem) : QueueItem :=
  { item with
    deliveryAttempts := some (item.deliveryAttempts.getD [] ++ [{ claimId, turnId }]) }

theorem sound_attemptedItem (h : item.Sound) (hturn : turnId ≠ "")
    (hnew : ∀ attempt ∈ item.deliveryAttempts.getD [], attempt.claimId ≠ claimId) :
    (attemptedItem claimId turnId item).Sound ↔
      claimId ≠ "" ∧ ∀ attempt ∈ item.deliveryAttempts.getD [], attempt.turnId ≠ turnId := by
  have hold : (∀ attempt ∈ item.deliveryAttempts.getD [],
      attempt.claimId ≠ "" ∧ attempt.turnId ≠ "") ∧
      ((item.deliveryAttempts.getD []).map QueueDeliveryAttempt.claimId).Nodup ∧
      ((item.deliveryAttempts.getD []).map QueueDeliveryAttempt.turnId).Nodup := by
    rcases hattempts : item.deliveryAttempts with _ | attempts
    · simp
    · have hread := h.readable.deliveryAttempts attempts hattempts
      exact ⟨hread.named, hread.claims, hread.turns⟩
  have hread : ReadableAttempts (item.deliveryAttempts.getD [] ++ [⟨claimId, turnId⟩]) ↔
      claimId ≠ "" ∧ ∀ attempt ∈ item.deliveryAttempts.getD [], attempt.turnId ≠ turnId := by
    constructor
    · intro hread
      have hturns := hread.turns
      rw [List.map_append, List.nodup_append] at hturns
      exact ⟨(hread.named ⟨claimId, turnId⟩ (by simp)).1, fun attempt hattempt =>
        hturns.2.2 _ (List.mem_map.2 ⟨attempt, hattempt, rfl⟩) turnId (by simp)⟩
    · rintro ⟨hclaim, hturns⟩
      refine ⟨by simp, fun attempt hattempt => ?_, ?_, ?_⟩
      · rcases List.mem_append.1 hattempt with hattempt | hattempt
        · exact hold.1 attempt hattempt
        · obtain rfl := List.mem_singleton.1 hattempt
          exact ⟨hclaim, hturn⟩
      · rw [List.map_append, List.nodup_append]
        refine ⟨hold.2.1, by simp, ?_⟩
        simpa using hnew
      · rw [List.map_append, List.nodup_append]
        refine ⟨hold.2.2, by simp, ?_⟩
        simpa using hturns
  rw [← hread]
  constructor
  · exact fun hsound => hsound.readable.deliveryAttempts _ rfl
  · intro hattempts
    have hall : ∀ attempts ∈ (attemptedItem claimId turnId item).deliveryAttempts,
        ReadableAttempts attempts := by
      rintro attempts ⟨rfl⟩
      exact hattempts
    exact ⟨{ h.readable with deliveryAttempts := hall }, h.message, h.channelContext, h.model,
      h.immediateSendBatch⟩

/-- A noted attempt is new, or was noted before. -/
theorem prepareItem_ok (h : prepareItem claimId turnId item db = (.ok (), db')) :
    ((∀ attempt ∈ item.deliveryAttempts.getD [], attempt.claimId ≠ claimId) ∧
      write (attemptedItem claimId turnId item) db = (.ok (), db')) ∨
    ((∃ attempt ∈ item.deliveryAttempts.getD [], attempt.claimId = claimId) ∧ db' = db) := by
  unfold prepareItem at h
  rcases hfind : (item.deliveryAttempts.getD []).find? (fun attempt => attempt.claimId = claimId)
    with _ | existing <;> rw [hfind] at h
  · exact .inl ⟨by simpa using hfind, h⟩
  · refine .inr ⟨⟨existing, List.mem_of_find?_eq_some hfind,
      by simpa using List.find?_some hfind⟩, ?_⟩
    dsimp only at h
    split_ifs at h
    · cases h
    · exact (Effect.pure_ok h).2

theorem prepareItem_keepsOthers (hs : item.sessionId = s)
    (h : prepareItem claimId turnId item db = (.ok (), db')) : KeepsOthers s item.itemId db db' := by
  rcases prepareItem_ok h with ⟨-, hwrite⟩ | ⟨-, rfl⟩
  · have hkeeps : KeepsOthers s (attemptedItem claimId turnId item).itemId db db' :=
      keepsOthers_write (by exact hs) hwrite
    exact hkeeps
  · exact fun _ hrow _ => hrow

/-- Each item whose attempt is new has its row. -/
theorem mem_prepareItems : ∀ {items : List QueueItem} {db : QueueDb},
    (items.map QueueItem.itemId).Nodup → (∀ item ∈ items, item.sessionId = s) →
      Effect.forEach (prepareItem claimId turnId) items db = (.ok (), db') →
      (∀ row ∈ db.rows s, row.itemId ∉ items.map QueueItem.itemId → row ∈ db'.rows s) ∧
      ∀ item ∈ items, (∀ attempt ∈ item.deliveryAttempts.getD [], attempt.claimId ≠ claimId) →
        (attemptedItem claimId turnId item).storage ∈ db'.rows s
  | [], _, _, _, h => by
    obtain ⟨-, rfl⟩ := Effect.pure_ok h
    exact ⟨fun _ hrow _ => hrow, by simp⟩
  | first :: items, db, hnodup, hs, h => by
    obtain ⟨⟨⟩, db₁, hfirst, hrest⟩ := Effect.bind_ok h
    rw [List.map_cons, List.nodup_cons] at hnodup
    obtain ⟨hkeeps, hrows⟩ := mem_prepareItems hnodup.2 (fun item hitem => hs item (.tail _ hitem))
      hrest
    refine ⟨fun row hrow hid => ?_, fun item hitem hnew => ?_⟩
    · rw [List.map_cons, List.mem_cons, not_or] at hid
      exact hkeeps row (prepareItem_keepsOthers (hs first (.head _)) hfirst row hrow hid.1) hid.2
    · rcases List.mem_cons.1 hitem with rfl | hitem
      · rcases prepareItem_ok hfirst with ⟨-, hwrite⟩ | ⟨⟨attempt, hattempt, hclaim⟩, -⟩
        · have hmem := mem_write hwrite
          rw [show (attemptedItem claimId turnId item).sessionId = s from hs item (.head _)] at hmem
          exact hkeeps _ hmem hnodup.1
        · exact absurd hclaim (hnew attempt hattempt)
      · exact hrows item hitem hnew

/-- Each of the rows has its decoded item. -/
theorem exists_item_of_mem {rows : List QueueRow} {items : List QueueItem}
    (h : List.Forall₂ Decodes rows items) {row : QueueRow} (hrow : row ∈ rows) :
    ∃ item ∈ items, Decodes row item := by
  induction h with
  | nil => cases hrow
  | cons hd _ ih =>
    rcases List.mem_cons.1 hrow with rfl | hrow
    · exact ⟨_, .head _, hd⟩
    · obtain ⟨item, hitem, hdecodes⟩ := ih hrow
      exact ⟨item, .tail _ hitem, hdecodes⟩

/-- A delivery that is prepared leaves good rows where its attempt is new, and only there. -/
theorem prepareDelivery_kept (h : prepareDelivery s claimId turnId db = (.ok (), db')) :
    (DeliveryKept db s claimId turnId → KeepsGood s db db') ∧
    ((∀ row ∈ db'.rows s, row.ReadsBack) → DeliveryKept db s claimId turnId) := by
  unfold prepareDelivery at h
  by_cases hturn : turnId = ""
  · rw [if_pos hturn] at h
    cases h
  rw [if_neg hturn] at h
  obtain ⟨result, db₁, htransaction, h₁⟩ := Effect.bind_ok h
  obtain ⟨-, rfl⟩ := Effect.pure_ok h₁
  obtain ⟨inner, db₂, rest, hinner, -, -, hrows⟩ := transaction_ok htransaction
  obtain ⟨items, db₃, hselect, h₂⟩ := Effect.bind_ok hinner
  obtain ⟨hitems, rfl⟩ := select_ok hselect
  split_ifs at h₂
  · cases h₂
  obtain ⟨⟨⟩, db₄, hforEach, h₃⟩ := Effect.bind_ok h₂
  obtain ⟨-, rfl⟩ := Effect.pure_ok h₃
  constructor
  · intro hkept Good hGood hdb row hrow
    rw [hrows] at hrow
    refine (leaves_forEach (fun item hitem => ?_) _ _ _ hdb hforEach).1 row hrow
    obtain ⟨-, other, hother, hclaim, hdecodes⟩ := present_of_forall₂ hitems hitem
    simp only [Bool.and_eq_true, decide_eq_true_eq] at hclaim
    intro db a db' hdb hprepare
    rcases prepareItem_ok hprepare with ⟨hnew, hwrite⟩ | ⟨-, rfl⟩
    · have hsound := (sound_attemptedItem hdecodes.sound hturn hnew).2
        (hkept other hother hclaim.1 hclaim.2 item hdecodes.decoded hnew)
      exact leaves_write (hGood _ hsound) db _ db' hdb hwrite
    · exact ⟨hdb, trivial⟩
  · intro hreads row hrow hstatus hclaim item hdecoded hnew
    obtain ⟨other, hother, hdecodes⟩ : ∃ other ∈ items, Decodes row other := by
      refine exists_item_of_mem hitems (List.mem_filter.2 ⟨hrow, ?_⟩)
      simp [hstatus, hclaim]
    obtain rfl := Except.ok.inj (hdecodes.decoded.symm.trans hdecoded)
    have hmem := (mem_prepareItems (nodup_of_forall₂ hitems)
      (fun item hitem => (present_of_forall₂ hitems hitem).1.sessionId) hforEach).2 other hother hnew
    rw [← hrows] at hmem
    exact (sound_attemptedItem hdecodes.sound hturn hnew).1
      ((QueueItem.readsBack_storage _).1 (hreads _ hmem))

end Deliveries

/-! ## Replacements -/

/-- An item that passes the check is sound exactly when JSON keeps it. -/
theorem sound_iff_jsonSafe {item : QueueItem} (h : isQueueItem item.toJs = true) :
    item.Sound ↔ item.toJs.JsonSafe := by
  rw [item.jsonSafe_toJs]
  constructor
  · exact fun hsound => ⟨⟨hsound.immediateSendBatch, hsound.message, hsound.channelContext,
      hsound.model⟩, hsound.readable.createdAt, hsound.readable.expiresAt, hsound.readable.claimedAt⟩
  · intro hsafe
    have hreadable := item.isQueueItem_json.1
      (steady_isQueueItem.json h (item.jsonSafe_toJs.2 hsafe))
    obtain ⟨⟨hbatch, hmessage, hcontext, hmodel⟩, -⟩ := hsafe
    exact ⟨hreadable, hmessage, hcontext, hmodel, hbatch⟩

theorem replaceSession_kept {items : List QueueItem} {result : CommittedQueueResult Unit}
    (h : replaceSession s items db = (.ok result, db')) :
    ((∀ item ∈ items, item.toJs.JsonSafe) → KeepsGood s db db') ∧
    ((∀ row ∈ db'.rows s, row.ReadsBack) → ∀ item ∈ items, item.toJs.JsonSafe) := by
  unfold replaceSession at h
  split_ifs at h with hinvalid
  · cases h
  have hvalid : ∀ item ∈ items, item.sessionId = s ∧ isQueueItem item.toJs = true := by
    simpa using hinvalid
  obtain ⟨⟨⟩, db₁, hreplace, h₁⟩ := Effect.bind_ok (Effect.atomically_ok h)
  obtain ⟨⟨⟩, db₂, hreconcile, h₂⟩ := Effect.bind_ok h₁
  obtain ⟨-, rfl⟩ := Effect.pure_ok h₂
  have hrows : db'.rows s = db₁.rows s := by
    rw [QueueDb.rows, (reconcilePause_ok hreconcile).1]
    rfl
  constructor
  · intro hsafe Good hGood hdb row hrow
    rw [hrows] at hrow
    have hleaves : Leaves Good s (replaceRows s items) fun _ => True :=
      (leaves_deleteRows _).bind fun _ _ => leaves_forEach fun item hitem =>
        leaves_insert (hGood _ ((sound_iff_jsonSafe (hvalid item hitem).2).2 (hsafe item hitem)))
    exact (hleaves _ _ _ hdb hreplace).1 row hrow
  · intro hreads item hitem
    obtain ⟨⟨⟩, db₃, -, hinserts⟩ := Effect.bind_ok hreplace
    have hmem := mem_inserts hinserts hitem
    rw [(hvalid item hitem).1, ← hrows] at hmem
    exact (sound_iff_jsonSafe (hvalid item hitem).2).1
      ((QueueItem.readsBack_storage _).1 (hreads _ hmem))

/-! ## Every operation -/

theorem Leaves.keepsGood {α : Type} {m : QueueTransaction α} {a : α}
    (h : ∀ Good : QueueRow → Prop, (∀ item : QueueItem, item.Sound → Good item.storage) →
      Leaves Good s m fun _ => True) (hm : m db = (.ok a, db')) : KeepsGood s db db' :=
  fun Good hGood hdb => (h Good hGood db a db' hdb hm).1

/-- What an operation does to the rows of its Session. -/
theorem perform_kept {op : QueueOperation} {facts : List QueueCommittedFact}
    (hid : env.newItemId ≠ "") (hproper : op.Proper) (h : op.perform env db = (.ok facts, db')) :
    (op.Kept env db → KeepsGood op.sessionId db db') ∧
    ((∀ row ∈ db'.rows op.sessionId, row.ReadsBack) → op.Kept env db) := by
  have hother : (∀ Good : QueueRow → Prop,
      (∀ item : QueueItem, item.Sound → Good item.storage) →
      Leaves Good op.sessionId (op.perform env) fun _ => True) → op.Kept env db →
      (op.Kept env db → KeepsGood op.sessionId db db') ∧
      ((∀ row ∈ db'.rows op.sessionId, row.ReadsBack) → op.Kept env db) :=
    fun hleaves hkept => ⟨fun _ => Leaves.keepsGood hleaves h, fun _ => hkept⟩
  cases op with
  | enqueue input =>
    obtain ⟨result, hm, -⟩ := facts_ok h
    exact enqueue_kept hid hm
  | updateQueued input =>
    obtain ⟨result, hm, -⟩ := facts_ok h
    exact updateQueued_kept hproper hm
  | claimNext input =>
    obtain ⟨result, hm, -⟩ := facts_ok h
    exact claimNext_kept hm
  | prepareDelivery t claimId turnId =>
    obtain ⟨⟨⟩, db₁, hm, h₁⟩ := Effect.bind_ok h
    obtain ⟨-, rfl⟩ := Effect.pure_ok h₁
    exact prepareDelivery_kept hm
  | replaceSession t items =>
    obtain ⟨result, hm, -⟩ := facts_ok h
    exact replaceSession_kept hm
  | snapshot t => exact hother (fun _ _ => leaves_facts (leaves_snapshot env t)) trivial
  | pauseIfPending input =>
    exact hother (fun _ _ => leaves_facts (leaves_pauseIfPending env input)) trivial
  | continueQueue t expectedPause =>
    exact hother (fun _ _ => leaves_facts (leaves_continueQueue env t expectedPause)) trivial
  | list t => exact hother (fun _ _ => leaves_facts (leaves_list env t)) trivial
  | findByClientRequestId t request =>
    exact hother (fun _ _ => leaves_facts (leaves_findByClientRequestId env t request)) trivial
  | get t itemId => exact hother (fun _ _ => leaves_facts (leaves_get env t itemId)) trivial
  | cancel t itemId => exact hother (fun _ _ => leaves_facts (leaves_cancel env t itemId)) trivial
  | clearUserManageable t =>
    exact hother (fun _ _ => leaves_facts (leaves_clearUserManageable env t)) trivial
  | promoteQueuedSource t itemId source =>
    exact hother (fun _ hGood =>
      leaves_facts (leaves_promoteQueuedSource env hGood t itemId source)) trivial
  | reorder t itemIds =>
    exact hother (fun _ hGood => leaves_facts (leaves_reorder env hGood t itemIds)) trivial
  | acknowledgeClaim t claimId turnId isAccepted =>
    exact hother (fun _ _ =>
      leaves_facts (leaves_acknowledgeClaim env t claimId turnId isAccepted)) trivial
  | releaseClaim t claimId reason =>
    exact hother (fun _ hGood => leaves_facts (leaves_releaseClaim env hGood t claimId reason)) trivial
  | rejectClaim t claimId reason =>
    exact hother (fun _ _ => leaves_facts (leaves_settleClaim env t claimId _ _)) trivial
  | cancelClaim t claimId =>
    exact hother (fun _ _ => leaves_facts (leaves_settleClaim env t claimId _ _)) trivial
  | consumeClaim t claimId reason =>
    exact hother (fun _ _ => leaves_facts (leaves_settleClaim env t claimId _ _)) trivial
  | recoverClaims t isAccepted scope =>
    exact hother (fun _ hGood =>
      leaves_facts (leaves_recoverClaims env hGood t isAccepted scope)) trivial
  | drainComposerInjectable t =>
    exact hother (fun _ _ => leaves_facts (leaves_drainComposerInjectable env t)) trivial
  | deleteSession t => exact hother (fun _ _ => leaves_facts (leaves_deleteSession env t)) trivial

/-- Let every row of the Session decode, and the operation answer. Where what it writes of its input
is kept, every row decodes afterwards, the new ones to what was written; and rows that read back do
so afterwards only there. -/
theorem queue_reads_back {op : QueueOperation} {facts : List QueueCommittedFact}
    (hid : env.newItemId ≠ "") (hproper : op.Proper)
    (hdb : ∀ row ∈ db.rows op.sessionId, ∃ item, decodeQueueRow row = .ok item)
    (h : op.perform env db = (.ok facts, db')) :
    (op.Kept env db → ∀ row ∈ db'.rows op.sessionId, (∃ item, decodeQueueRow row = .ok item) ∧
      (row ∈ db.rows op.sessionId ∨ row.ReadsBack)) ∧
    ((∀ row ∈ db.rows op.sessionId, row.ReadsBack) →
      ((∀ row ∈ db'.rows op.sessionId, row.ReadsBack) ↔ op.Kept env db)) := by
  obtain ⟨hkeeps, hkept⟩ := perform_kept hid hproper h
  refine ⟨fun hop => ?_, fun hreads => ⟨hkept, fun hop => ?_⟩⟩
  · refine hkeeps hop (fun row => (∃ item, decodeQueueRow row = .ok item) ∧
      (row ∈ db.rows op.sessionId ∨ row.ReadsBack)) (fun item hitem => ?_)
      fun row hrow => ⟨hdb row hrow, .inl hrow⟩
    have hback := item.readsBack_storage.2 hitem
    exact ⟨hback.1, .inr hback⟩
  · exact hkeeps hop QueueRow.ReadsBack (fun item hitem => item.readsBack_storage.2 hitem) hreads

/-- A model override without tokens, which only the read side checks. -/
def limitlessInput : QueueEnqueueInput :=
  { sampleInput none none with model := .object [("context_limit", .number (.finite 0))] }

/-- The row of an enqueue need not decode. -/
theorem queue_row_unreadable : ¬ ∀ env db op facts db', env.newItemId ≠ "" →
    QueueOperation.Proper op →
    (∀ row ∈ QueueDb.rows db op.sessionId, ∃ item, decodeQueueRow row = .ok item) →
    op.perform env db = (.ok facts, db') →
    ∀ row ∈ db'.rows op.sessionId, ∃ item, decodeQueueRow row = .ok item := by
  intro h
  obtain ⟨item, hitem⟩ := h (sampleEnvironment 1 "a" "c") .empty (.enqueue limitlessInput) _ _
    (by decide) trivial (by simp [QueueDb.rows, QueueDb.empty]) rfl
    (limitlessInput.makeQueued "a" (.finite 1)).storage (.head _)
  have hmodel := (QueueItem.eq_json_of_decode hitem).1.model
  revert hmodel
  decide

/-- An enqueue of an input that is kept: its row reads back. -/
theorem queue_reads_back_enqueued :
    let op := QueueOperation.enqueue (sampleInput none none)
    let db' := (op.perform (sampleEnvironment 1 "a" "c") .empty).2
    db'.rows "s" ≠ [] ∧ ∀ row ∈ db'.rows "s", row.ReadsBack := by
  intro op db'
  have hempty : ∀ p : QueueRow → Prop, ∀ row ∈ QueueDb.empty.rows "s", p row := by
    simp [QueueDb.rows, QueueDb.empty]
  have hkept : op.Kept (sampleEnvironment 1 "a" "c") .empty :=
    fun _ => ⟨fun h => absurd h (by decide), by decide, ⟨trivial, trivial, trivial⟩, trivial⟩
  have hproper : op.Proper := trivial
  have hperform : op.perform (sampleEnvironment 1 "a" "c") .empty = (.ok _, db') := rfl
  exact ⟨fun h => List.cons_ne_nil _ _ h,
    ((queue_reads_back (by decide) hproper (hempty _) hperform).2 (hempty _)).2 hkept⟩

end Kinetick
