import Kinetick.Proofs.QueueClaims
import Kinetick.Proofs.QueueReadBack

/-!
# What operations leave of good rows

Let the rows written from sound items be good. Every operation leaves the rows of a Session good when
the items it makes of its input are sound, since the others it makes of decoded ones.
-/

namespace Kinetick

open QueueCodec JsValue QueueRepository

/-- From good rows of the Session the computation leaves good ones, with an answer in `Q`. -/
def Leaves (Good : QueueRow → Prop) (s : String) {α : Type} (m : QueueTransaction α)
    (Q : α → Prop) : Prop :=
  Effect.Answers (fun db => ∀ row ∈ db.rows s, Good row) m
    fun a db => (∀ row ∈ db.rows s, Good row) ∧ Q a

section Leaves

variable {Good : QueueRow → Prop} {s t : String} {α β : Type} {m : QueueTransaction α}
  {Q : α → Prop}

theorem Leaves.bind {f : α → QueueTransaction β} {R : β → Prop} (h : Leaves Good s m Q)
    (hf : ∀ a, Q a → Leaves Good s (f a) R) : Leaves Good s (m >>= f) R :=
  Effect.Answers.bind h fun a db b db' hdb hb => hf a hdb.2 db b db' hdb.1 hb

theorem Leaves.mono {Q' : α → Prop} (h : Leaves Good s m Q) (hQ : ∀ a, Q a → Q' a) :
    Leaves Good s m Q' :=
  Effect.Answers.mono h (fun _ h => h) fun a _ h => ⟨h.1, hQ a h.2⟩

theorem leaves_pure {a : α} (h : Q a) : Leaves Good s (pure a) Q :=
  Effect.answers_pure fun _ hdb => ⟨hdb, h⟩

theorem leaves_raise (e : QueueError) : Leaves Good s (Effect.raise e : QueueTransaction α) Q :=
  Effect.answers_raise e

theorem leaves_read (f : QueueDb → α) : Leaves Good s (Effect.read f) fun _ => True :=
  Effect.answers_read fun _ hdb => ⟨hdb, trivial⟩

theorem leaves_forEach {f : α → QueueTransaction Unit} {as : List α}
    (h : ∀ a ∈ as, Leaves Good s (f a) fun _ => True) :
    Leaves Good s (Effect.forEach f as) fun _ => True := by
  refine Effect.Answers.mono (Effect.answers_forEach fun a ha => ?_) (fun _ h => h)
    fun _ _ h => ⟨h, trivial⟩
  exact Effect.Answers.mono (h a ha) (fun _ h => h) fun _ _ h => h.1

theorem leaves_gather {f : α → QueueTransaction β} {as : List α}
    (h : ∀ a ∈ as, Leaves Good s (f a) fun _ => True) :
    Leaves Good s (Effect.gather f as) fun _ => True := by
  refine Effect.Answers.mono (Effect.answers_gather fun a ha => ?_) (fun _ h => h)
    fun _ _ h => ⟨h, trivial⟩
  exact Effect.Answers.mono (h a ha) (fun _ h => h) fun _ _ h => h.1

/-! ## Statements -/

/-- What leaves the rows leaves them good. -/
theorem leaves_of_rows (h : ∀ db a db', m db = (.ok a, db') → db'.rows s = db.rows s) :
    Leaves Good s m fun _ => True := by
  intro db a db' hdb hm
  rw [h db a db' hm]
  exact ⟨hdb, trivial⟩

theorem leaves_setPause (pause : Option QueuePause) :
    Leaves Good s (setPause t pause) fun _ => True :=
  leaves_of_rows fun db _ db' h => by
    cases h
    rfl

theorem leaves_deleteRows (p : QueueRow → Bool) :
    Leaves Good s (deleteRows t p) fun _ => True := by
  intro db a db' hdb hm
  rw [deleteRows_ok hm, rows_deleteRows]
  split_ifs
  · exact ⟨fun row hrow => hdb row (List.mem_filter.1 hrow).1, trivial⟩
  · exact ⟨hdb, trivial⟩

theorem leaves_select (p : QueueRow → Bool) :
    Leaves Good s (select t p) fun items => ∀ item ∈ items, item.Sound := by
  intro db items db' hdb hm
  obtain ⟨hitems, rfl⟩ := select_ok hm
  refine ⟨hdb, fun item hitem => ?_⟩
  obtain ⟨row, -, hdecodes⟩ := exists_row_of_mem hitems hitem
  exact hdecodes.sound

theorem leaves_selectFirst (p : QueueRow → Bool) :
    Leaves Good s (selectFirst t p) fun item => ∀ i ∈ item, i.Sound := by
  intro db item db' hdb hm
  obtain ⟨rfl, hitem⟩ := selectFirst_ok hm
  refine ⟨hdb, fun i hi => ?_⟩
  rcases item with _ | item
  · cases hi
  · obtain ⟨row, -, -, hdecodes⟩ := hitem
    obtain rfl := Option.some.inj hi
    exact hdecodes.sound

/-- The rows are those there were, or the item's. -/
def Adds (s : String) (item : QueueItem) (db db' : QueueDb) : Prop :=
  ∀ row ∈ db'.rows s, row ∈ db.rows s ∨ row = item.storage

theorem adds_insert {item : QueueItem} {db db' : QueueDb}
    (h : QueueRepository.insert item db = (.ok (), db')) : Adds s item db db' := by
  intro row hrow
  obtain ⟨hwrote, -⟩ := insert_ok h
  by_cases hs : s = item.sessionId
  · subst hs
    rw [hwrote.rows, List.mem_append, List.mem_singleton] at hrow
    exact hrow
  · rw [hwrote.others s hs] at hrow
    exact .inl hrow

theorem adds_replaceItem {previous item : QueueItem} {db db' : QueueDb}
    (h : replaceItem previous item db = (.ok (), db')) : Adds s item db db' := by
  intro row hrow
  unfold replaceItem at h
  split at h <;> cases h
  rename_i items hitems
  rw [mem_rows, Table.rewrite_eq_some hitems] at hrow
  obtain ⟨hmem, hsession⟩ := hrow
  obtain ⟨old, hold, rfl⟩ := List.mem_map.1 hmem
  split_ifs at hsession ⊢
  · exact .inr rfl
  · exact .inl (mem_rows.2 ⟨hold, hsession⟩)

theorem adds_write {item : QueueItem} {db db' : QueueDb} (h : write item db = (.ok (), db')) :
    Adds s item db db' := by
  unfold write at h
  split_ifs at h
  · exact adds_replaceItem h
  · exact adds_insert h

theorem leaves_of_adds {w : QueueTransaction Unit} {item : QueueItem} (hitem : Good item.storage)
    (h : ∀ db db', w db = (.ok (), db') → Adds s item db db') :
    Leaves Good s w fun _ => True := by
  intro db a db' hdb hm
  refine ⟨fun row hrow => ?_, trivial⟩
  rcases h db db' hm row hrow with hrow | rfl
  · exact hdb row hrow
  · exact hitem

theorem leaves_insert {item : QueueItem} (hitem : Good item.storage) :
    Leaves Good s (QueueRepository.insert item) fun _ => True :=
  leaves_of_adds hitem fun _ _ => adds_insert

theorem leaves_replaceItem {previous item : QueueItem} (hitem : Good item.storage) :
    Leaves Good s (replaceItem previous item) fun _ => True :=
  leaves_of_adds hitem fun _ _ => adds_replaceItem

theorem leaves_write {item : QueueItem} (hitem : Good item.storage) :
    Leaves Good s (write item) fun _ => True :=
  leaves_of_adds hitem fun _ _ => adds_write

/-! ## Transactions -/

theorem leaves_expire (nowMs : JsNumber) : Leaves Good s (expire t nowMs) fun _ => True :=
  Leaves.bind (Q := fun _ => True)
    ((leaves_select _).bind fun _ _ => (leaves_deleteRows _).bind fun _ _ => leaves_pure trivial)
    fun _ _ => leaves_pure trivial

theorem leaves_reconcilePause : Leaves Good s (reconcilePause t) fun _ => True :=
  (leaves_read _).bind fun _ _ => by
    split_ifs
    · exact leaves_pure trivial
    · exact leaves_setPause _

theorem leaves_transaction {operation : QueueTransaction (CommittedQueueResult α)}
    (h : Leaves Good s operation fun _ => True) :
    Leaves Good s (transaction t operation) fun _ => True :=
  Effect.answers_atomically <| (leaves_read _).bind fun _ _ => h.bind fun _ _ =>
    leaves_reconcilePause.bind fun _ _ => (leaves_read _).bind fun _ _ => leaves_pure trivial

theorem leaves_mutationTransaction (env : QueueEnvironment)
    {operation : QueueTransaction (CommittedQueueResult α)}
    (h : Leaves Good s operation fun _ => True) :
    Leaves Good s (mutationTransaction env t operation) fun _ => True := by
  rcases hadmission : env.enqueueAdmission with _ | rejection <;>
    simp only [mutationTransaction, hadmission]
  · exact leaves_transaction h
  · exact leaves_raise _

theorem leaves_executionSnapshot : Leaves Good s (executionSnapshot t) fun _ => True :=
  (leaves_read _).bind fun _ _ => (leaves_read _).bind fun _ _ => leaves_pure trivial

end Leaves

/-! ## Sound items that operations make -/

namespace QueueItem.Sound

variable {item : QueueItem}

theorem withRequestedTurnId (h : item.Sound) (turnId : Option String) :
    Sound { item with requestedTurnId := turnId } :=
  ⟨{ h.readable with }, h.message, h.channelContext, h.model, h.immediateSendBatch⟩

theorem withSource (h : item.Sound) (source : QueueMessageSource) : Sound { item with source } :=
  ⟨{ h.readable with }, h.message, h.channelContext, h.model, h.immediateSendBatch⟩

theorem withoutClaim (h : item.Sound) : (withoutClaim item).Sound :=
  ⟨{ h.readable with claim := ⟨rfl, rfl, rfl, rfl⟩ }, h.message, h.channelContext, h.model,
    h.immediateSendBatch⟩

end QueueItem.Sound

section Operations

variable {Good : QueueRow → Prop} {s : String} (env : QueueEnvironment)

theorem leaves_moveQueuedToFront (hGood : ∀ item : QueueItem, item.Sound → Good item.storage)
    {item : QueueItem} (hitem : item.Sound) :
    Leaves Good s (moveQueuedToFront item) fun _ => True := by
  refine (leaves_select _).bind fun queued hqueued => (leaves_deleteRows _).bind fun _ _ =>
    leaves_forEach fun other hother => ?_
  rcases List.mem_cons.1 hother with rfl | hother
  · exact leaves_insert (hGood _ hitem)
  · exact leaves_insert (hGood _ (hqueued other (List.mem_filter.1 hother).1))

theorem leaves_deleteItems (items : List QueueItem) {t : String} :
    Leaves Good s (deleteItems t items) fun _ => True :=
  leaves_forEach fun _ _ => leaves_deleteRows _

theorem leaves_releaseItem (hGood : ∀ item : QueueItem, item.Sound → Good item.storage)
    {t : String} (reason : Option String) {item : QueueItem} (hitem : item.Sound) :
    Leaves Good s (releaseItem env t reason item) fun _ => True := by
  unfold releaseItem
  split_ifs
  · exact (leaves_deleteRows _).bind fun _ _ => leaves_pure trivial
  · exact (leaves_write (hGood _ hitem.withoutClaim)).bind fun _ _ => leaves_pure trivial

/-! ## Operations without an input to write -/

theorem leaves_facts {m : QueueTransaction (CommittedQueueResult α)}
    (h : Leaves Good s m fun _ => True) : Leaves Good s (QueueOperation.facts m) fun _ => True :=
  h.bind fun _ _ => leaves_pure trivial

theorem leaves_snapshot (t : String) : Leaves Good s (snapshot env t) fun _ => True :=
  leaves_transaction <| (leaves_expire _).bind fun _ _ => leaves_reconcilePause.bind fun _ _ =>
    leaves_executionSnapshot.bind fun _ _ => leaves_pure trivial

theorem leaves_pauseIfPending (input : QueuePauseInput) :
    Leaves Good s (pauseIfPending env input) fun _ => True := by
  refine leaves_transaction <| (leaves_expire _).bind fun _ _ => leaves_reconcilePause.bind
    fun _ _ => Leaves.bind (Q := fun _ => True) ?_ fun _ _ => leaves_executionSnapshot.bind
      fun _ _ => leaves_pure trivial
  refine (leaves_read _).bind fun _ _ => (leaves_read _).bind fun _ _ => ?_
  split_ifs
  · exact (leaves_setPause _).bind fun _ _ => leaves_pure trivial
  · exact leaves_pure trivial

theorem leaves_continueQueue (t : String) (expectedPause : Option QueuePause) :
    Leaves Good s (continueQueue env t expectedPause) fun _ => True := by
  refine leaves_transaction <| (leaves_expire _).bind fun _ _ => leaves_reconcilePause.bind
    fun _ _ => Leaves.bind (Q := fun _ => True) ?_ fun _ _ => leaves_executionSnapshot.bind
      fun _ _ => leaves_pure trivial
  refine (leaves_read _).bind fun _ _ => ?_
  split_ifs
  · exact (leaves_setPause _).bind fun _ _ => leaves_pure trivial
  · exact leaves_pure trivial

theorem leaves_list (t : String) : Leaves Good s (QueueRepository.list env t) fun _ => True :=
  leaves_transaction <| (leaves_expire _).bind fun _ _ => (leaves_select _).bind fun _ _ =>
    leaves_pure trivial

theorem leaves_findByClientRequestId (t request : String) :
    Leaves Good s (findByClientRequestId env t request) fun _ => True :=
  leaves_transaction <| (leaves_expire _).bind fun _ _ => (leaves_selectFirst _).bind fun _ _ =>
    leaves_pure trivial

theorem leaves_get (t itemId : String) : Leaves Good s (QueueRepository.get env t itemId) fun _ => True :=
  leaves_transaction <| (leaves_expire _).bind fun _ _ => (leaves_selectFirst _).bind fun _ _ =>
    leaves_pure trivial

theorem leaves_cancel (t itemId : String) : Leaves Good s (cancel env t itemId) fun _ => True := by
  refine leaves_mutationTransaction env <| (leaves_expire _).bind fun _ _ =>
    (leaves_selectFirst _).bind fun item _ => ?_
  rcases item with _ | item
  · exact leaves_pure trivial
  dsimp only
  split_ifs
  · exact leaves_pure trivial
  · exact (leaves_deleteRows _).bind fun _ _ => leaves_pure trivial

theorem leaves_clearUserManageable (t : String) :
    Leaves Good s (clearUserManageable env t) fun _ => True := by
  refine leaves_mutationTransaction env <| (leaves_expire _).bind fun _ _ =>
    Leaves.bind (Q := fun _ => True) ?_ fun _ _ => Leaves.bind (Q := fun _ => True) ?_
      fun _ _ => leaves_pure trivial
  · exact (leaves_select _).bind fun _ _ => (leaves_deleteRows _).bind fun _ _ =>
      leaves_pure trivial
  · refine (leaves_read _).bind fun _ _ => (leaves_read _).bind fun _ _ => ?_
    split_ifs
    · exact (leaves_setPause _).bind fun _ _ => leaves_pure trivial
    · exact leaves_pure trivial

theorem leaves_promoteQueuedSource (hGood : ∀ item : QueueItem, item.Sound → Good item.storage)
    (t itemId : String) (source : QueueMessageSource) :
    Leaves Good s (promoteQueuedSource env t itemId source) fun _ => True := by
  refine leaves_mutationTransaction env <| (leaves_expire _).bind fun _ _ =>
    (leaves_selectFirst _).bind fun item hitem => ?_
  rcases item with _ | item
  · exact leaves_pure trivial
  dsimp only
  split_ifs
  · exact leaves_pure trivial
  · exact (leaves_write (hGood _ ((hitem item rfl).withSource source))).bind fun _ _ =>
      leaves_pure trivial

theorem mem_of_mem_reordered {items : List QueueItem} {itemIds : List String} {item : QueueItem}
    (h : item ∈ reordered items itemIds) : item ∈ items := by
  obtain ⟨id, -, hfind⟩ := List.mem_filterMap.1 h
  exact List.mem_of_find?_eq_some hfind

theorem leaves_reorder (hGood : ∀ item : QueueItem, item.Sound → Good item.storage) (t : String)
    (itemIds : List String) : Leaves Good s (reorder env t itemIds) fun _ => True := by
  refine leaves_mutationTransaction env <| (leaves_expire _).bind fun _ _ =>
    (leaves_read _).bind fun _ _ => ?_
  split_ifs
  · exact leaves_pure trivial
  refine (leaves_select _).bind fun items hitems => ?_
  split_ifs
  · exact leaves_pure trivial
  refine Leaves.bind (Q := fun _ => True) ?_ fun _ _ => leaves_pure trivial
  exact (leaves_deleteRows _).bind fun _ _ => leaves_forEach fun item hitem =>
    leaves_insert (hGood _ (hitems item (mem_of_mem_reordered hitem)))

theorem leaves_drainComposerInjectable (t : String) :
    Leaves Good s (drainComposerInjectable env t) fun _ => True :=
  leaves_transaction <| (leaves_expire _).bind fun _ _ => (leaves_select _).bind fun _ _ =>
    (leaves_forEach fun _ _ => leaves_deleteRows _).bind fun _ _ => leaves_pure trivial

theorem leaves_deleteSession (t : String) : Leaves Good s (deleteSession env t) fun _ => True :=
  leaves_transaction <| (leaves_expire _).bind fun _ _ => (leaves_select _).bind fun _ _ =>
    (leaves_deleteRows _).bind fun _ _ => leaves_pure trivial

/-! ## Claims that end -/

theorem leaves_heldRows (t claimId : String) :
    Leaves Good s (heldRows t claimId) fun items => ∀ item ∈ items, item.Sound := by
  refine (leaves_select _).bind fun items hitems => ?_
  split_ifs
  · exact leaves_raise _
  · exact leaves_pure hitems

theorem leaves_claimQuery (items : List QueueItem) (claimId : String) (turnId : Option String) :
    Leaves Good s (claimQuery items claimId turnId) fun _ => True := by
  rcases items with _ | ⟨item, items⟩
  · exact leaves_raise _
  · exact leaves_pure trivial

theorem leaves_acknowledgeClaim (t claimId : String) (turnId : Option String)
    (isAccepted : Option (QueueClaimAcceptanceQuery → Bool)) :
    Leaves Good s (acknowledgeClaim env t claimId turnId isAccepted) fun _ => True := by
  unfold acknowledgeClaim
  split_ifs
  · exact leaves_raise _
  refine leaves_transaction <| (leaves_expire _).bind fun _ _ => (leaves_heldRows _ _).bind
    fun _ _ => (leaves_claimQuery _ _ _).bind fun _ _ => ?_
  split_ifs
  · exact leaves_raise _
  · exact (leaves_deleteItems _).bind fun _ _ => leaves_pure trivial

theorem leaves_releaseClaim (hGood : ∀ item : QueueItem, item.Sound → Good item.storage)
    (t claimId : String) (reason : Option String) :
    Leaves Good s (releaseClaim env t claimId reason) fun _ => True := by
  unfold releaseClaim
  split_ifs
  · exact leaves_pure trivial
  exact leaves_transaction <| (leaves_expire _).bind fun _ _ => (leaves_select _).bind
    fun items hitems => (leaves_gather fun item hitem =>
      leaves_releaseItem env hGood _ (hitems item hitem)).bind fun _ _ => leaves_pure trivial

theorem leaves_settleClaim (t claimId : String) (reason : QueueRemovalReason)
    (admissionReason : Option String) :
    Leaves Good s (settleClaim env t claimId reason admissionReason) fun _ => True := by
  unfold settleClaim
  split_ifs
  · exact leaves_raise _
  exact leaves_transaction <| (leaves_expire _).bind fun _ _ => (leaves_heldRows _ _).bind
    fun _ _ => (leaves_deleteItems _).bind fun _ _ => leaves_pure trivial

theorem leaves_recoverClaim (hGood : ∀ item : QueueItem, item.Sound → Good item.storage)
    (t : String) (isAccepted : QueueClaimAcceptanceQuery → Bool)
    {group : String × List QueueItem} (hgroup : ∀ item ∈ group.2, item.Sound) :
    Leaves Good s (recoverClaim env t isAccepted group) fun _ => True := by
  refine (leaves_claimQuery _ _ _).bind fun query _ => ?_
  split_ifs
  · exact (leaves_deleteItems _).bind fun _ _ => leaves_pure trivial
  · exact (leaves_gather fun item hitem =>
      leaves_releaseItem env hGood _ (hgroup item hitem)).bind fun _ _ => leaves_pure trivial

theorem leaves_recoverClaims (hGood : ∀ item : QueueItem, item.Sound → Good item.storage)
    (t : String) (isAccepted : QueueClaimAcceptanceQuery → Bool) (scope : QueueClaimRecoveryScope) :
    Leaves Good s (recoverClaims env t isAccepted scope) fun _ => True := by
  refine leaves_transaction <| (leaves_expire _).bind fun _ _ => (leaves_select _).bind
    fun claimed hclaimed => (leaves_gather fun group hgroup =>
      leaves_recoverClaim env hGood t isAccepted fun item hitem => ?_).bind fun _ _ =>
        leaves_pure trivial
  rw [mem_groupRecoverable hgroup] at hitem
  exact hclaimed item (List.mem_filter.1 hitem).1

end Operations

end Kinetick
