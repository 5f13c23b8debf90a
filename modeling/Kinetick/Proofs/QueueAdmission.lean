import Kinetick.Proofs.QueueInvariant
import Kinetick.Proofs.QueueTaken
import Kinetick.Queue.PriorityFence

/-!
# A claim and its admission

A claim is the first of the rows that it does not skip. What may come before the admission deletes
other rows, writes rows in their place or adds them last, and what is before the claim in the queue
is skipped all along.
-/

namespace Kinetick

open QueueRepository Effect

variable {s itemId claimId : String} {skipped : String → Prop} {db db' : QueueDb}

/-- The item is claimed by the claim, and what is before it in the queue is skipped. -/
def Heads (s itemId claimId : String) (skipped : String → Prop) (db : QueueDb) : Prop :=
  ∃ before row after, db.rows s = before ++ row :: after ∧ (∀ r ∈ before, skipped r.itemId) ∧
    row.itemId = itemId ∧ row.status = .claimed ∧
    ∃ item : QueueItem, row = item.storage ∧ item.claimId = some claimId

/-- The item is not the claimed one, or is as it was claimed. -/
def Fits (s itemId claimId : String) (item : QueueItem) : Prop :=
  item.sessionId = s → item.itemId = itemId →
    item.status = .claimed ∧ item.claimId = some claimId

theorem Heads.of_rows (h : Heads s itemId claimId skipped db) (hrows : db'.rows s = db.rows s) :
    Heads s itemId claimId skipped db' := by
  obtain ⟨before, row, after, heq, hrest⟩ := h
  exact ⟨before, row, after, hrows.trans heq, hrest⟩

theorem Heads.mem (h : Heads s itemId claimId skipped db) :
    ∃ row ∈ db.rows s, row.itemId = itemId ∧ row.status = .claimed ∧
      ∃ item : QueueItem, row = item.storage ∧ item.claimId = some claimId := by
  obtain ⟨before, row, after, heq, -, hrow⟩ := h
  exact ⟨row, by simp [heq], hrow⟩

/-! ### The fence -/

theorem findIdx?_append_of_not {α : Type} {p : α → Bool} {a : α} (before after : List α)
    (ha : p a = true) : ∃ i ≤ before.length, (before ++ a :: after).findIdx? p = some i := by
  induction before with
  | nil => exact ⟨0, le_rfl, by simp [List.findIdx?_cons, ha]⟩
  | cons b before ih =>
    rcases hb : p b with _ | _
    · obtain ⟨i, hi, hfind⟩ := ih
      exact ⟨i + 1, by simpa using hi, by simp [List.findIdx?_cons, hb, hfind]⟩
    · exact ⟨0, Nat.zero_le _, by simp [List.findIdx?_cons, hb]⟩

/-- Nothing blocks a claim that everything before it yields to. -/
theorem claimedQueueItemBlocks_heads {priority : TurnAdmissionPriority}
    (h : Heads s itemId claimId skipped db)
    (hskipped : priority.isSelectedQueueItem = false →
      ∀ id, skipped id → priority.yieldedItemIds.contains id = true) :
    claimedQueueItemBlocks db s priority claimId = false := by
  obtain ⟨before, row, after, heq, hbefore, -, hstatus, item, rfl, hclaim⟩ := h
  have hclaimed : isClaimedBy claimId item.storage = true := by
    have hcolumn : item.storage.claimId = item.claimId := rfl
    simp [isClaimedBy, hstatus, hcolumn, hclaim]
  obtain ⟨i, hi, hfind⟩ := findIdx?_append_of_not before after hclaimed
  unfold claimedQueueItemBlocks
  simp only [heq, hfind]
  split_ifs with hselected
  · rfl
  · rw [List.any_eq_false]
    intro r hr
    rw [List.take_append_of_le_length hi] at hr
    have hid := hskipped (by simpa using hselected) _ (hbefore r (List.mem_of_mem_take hr))
    simpa using hid

/-! ### What keeps the claim -/

theorem heads_deleteRows {t : String} {p : QueueRow → Bool}
    (hp : ∀ row, t = s → row.itemId = itemId → row.status = .claimed → p row = false) :
    Answers (Heads s itemId claimId skipped) (deleteRows t p)
      fun _ => Heads s itemId claimId skipped := by
  intro db a db' h hdelete
  rw [deleteRows_ok hdelete]
  by_cases ht : t = s
  · subst ht
    obtain ⟨before, row, after, heq, hbefore, hid, hstatus, hitem⟩ := h
    refine ⟨before.filter fun r => !p r, row, after.filter fun r => !p r, ?_, fun r hr => ?_, hid,
      hstatus, hitem⟩
    · rw [rows_deleteRows, if_pos rfl, heq]
      simp [List.filter_append, hp row rfl hid hstatus]
    · exact hbefore r (List.mem_filter.1 hr).1
  · refine h.of_rows ?_
    rw [rows_deleteRows, if_neg (Ne.symm ht)]

theorem heads_write {item : QueueItem} (hitem : Fits s itemId claimId item) :
    Answers (Heads s itemId claimId skipped) (write item)
      fun _ => Heads s itemId claimId skipped := by
  intro db a db' h hwrite
  have hwrote := write_ok hwrite
  by_cases hs : s = item.sessionId
  swap
  · exact h.of_rows (hwrote.others s hs)
  subst hs
  obtain ⟨before, row, after, heq, hbefore, hid, hstatus, hclaim⟩ := h
  have hrows := hwrote.rows
  split_ifs at hrows with hhas
  · rw [heq, putRow, List.map_append, List.map_cons] at hrows
    refine ⟨_, _, _, hrows, fun r hr => ?_, ?_, ?_, ?_⟩
    · obtain ⟨old, hold, rfl⟩ := List.mem_map.1 hr
      split_ifs with hsame
      · have := hbefore old hold
        rwa [hsame] at this
      · exact hbefore old hold
    · split_ifs with hsame
      · exact hsame.symm.trans hid
      · exact hid
    · split_ifs with hsame
      · exact (hitem rfl (hsame.symm.trans hid)).1
      · exact hstatus
    · split_ifs with hsame
      · exact ⟨item, rfl, (hitem rfl (hsame.symm.trans hid)).2⟩
      · exact hclaim
  · rw [heq] at hrows
    exact ⟨before, row, after ++ [item.storage], by simpa using hrows, hbefore, hid, hstatus, hclaim⟩

/-- What is read is not the claimed item, or is as it was claimed. -/
theorem Heads.fits (h : Heads s itemId claimId skipped db) {t : String} {row : QueueRow}
    {item : QueueItem} (hrow : row ∈ db.rows t) (hdecodes : Decodes row item) :
    Fits s itemId claimId item := by
  intro hs hid
  obtain ⟨claimed, hclaimed, hclaimedId, hstatus, stored, rfl, hclaim⟩ := h.mem
  obtain rfl : t = s := by rw [← hs, hdecodes.sessionId, (mem_rows.1 hrow).2]
  obtain rfl := row_unique hrow hclaimed (hdecodes.itemId.symm.trans (hid.trans hclaimedId.symm))
  obtain ⟨-, rfl⟩ := QueueItem.eq_json_of_decode hdecodes.decoded
  exact ⟨hdecodes.status.trans hstatus, hclaim⟩

theorem heads_selectFirst {t : String} {p : QueueRow → Bool} :
    Answers (Heads s itemId claimId skipped) (selectFirst t p) fun item db =>
      Heads s itemId claimId skipped db ∧ ∀ i ∈ item, Fits s itemId claimId i ∧
        i.sessionId = t ∧ ∃ row ∈ db.rows t, p row = true ∧ row.itemId = i.itemId := by
  intro db item db' h hselect
  obtain ⟨rfl, hitem⟩ := selectFirst_ok hselect
  refine ⟨h, fun i hi => ?_⟩
  obtain rfl := Option.mem_def.1 hi
  obtain ⟨row, hrow, hp, hdecodes⟩ := hitem
  exact ⟨h.fits hrow hdecodes, hdecodes.sessionId.trans (mem_rows.1 hrow).2, row, hrow, hp,
    hdecodes.itemId.symm⟩

theorem heads_read {α : Type} (f : QueueDb → α) :
    Answers (Heads s itemId claimId skipped) (Effect.read f : QueueTransaction α)
      fun _ => Heads s itemId claimId skipped :=
  answers_read fun _ h => h

theorem heads_select {t : String} {p : QueueRow → Bool} :
    Answers (Heads s itemId claimId skipped) (select t p)
      fun _ => Heads s itemId claimId skipped := by
  intro db items db' h hselect
  obtain ⟨-, rfl⟩ := select_ok hselect
  exact h

theorem heads_expire {t : String} (nowMs : JsNumber) :
    Answers (Heads s itemId claimId skipped) (expire t nowMs)
      fun _ => Heads s itemId claimId skipped := by
  refine Answers.bind ?_ fun _ => answers_pure fun _ h => h
  refine heads_select.bind fun _ => Answers.bind ?_ fun _ => answers_pure fun _ h => h
  exact heads_deleteRows fun row _ _ hstatus => not_expired_of_claimed hstatus

/-! ### The operations -/

variable {α : Type} {env : QueueEnvironment} {t : String}

theorem heads_transaction {operation : QueueTransaction (CommittedQueueResult α)}
    (h : Answers (Heads s itemId claimId skipped) operation fun _ =>
      Heads s itemId claimId skipped) :
    Answers (Heads s itemId claimId skipped) (transaction t operation) fun _ =>
      Heads s itemId claimId skipped := by
  intro db result db' hdb htransaction
  obtain ⟨inner, db₁, rest, hinner, -, -, hrows⟩ := transaction_ok htransaction
  exact (h db inner db₁ hdb hinner).of_rows (hrows s)

theorem heads_mutationTransaction {operation : QueueTransaction (CommittedQueueResult α)}
    (h : Answers (Heads s itemId claimId skipped) operation fun _ =>
      Heads s itemId claimId skipped) :
    Answers (Heads s itemId claimId skipped) (mutationTransaction env t operation) fun _ =>
      Heads s itemId claimId skipped :=
  fun db result db' hdb hm => heads_transaction h db result db' hdb (mutationTransaction_ok hm)

theorem heads_cancel (id : String) :
    Answers (Heads s itemId claimId skipped) (cancel env t id) fun _ =>
      Heads s itemId claimId skipped := by
  refine heads_mutationTransaction ((heads_expire _).bind fun _ => heads_selectFirst.bind
    fun found => ?_)
  rcases found with _ | item
  · exact answers_pure fun _ h => h.1
  dsimp only
  by_cases hqueued : item.status ≠ .queued
  · rw [if_pos hqueued]
    exact answers_pure fun _ h => h.1
  rw [if_neg hqueued]
  intro db result db' ⟨h, hfits⟩ hcancel
  obtain ⟨hfits, hsession, row, hrow, hp, hid⟩ := hfits item rfl
  have hsame : item.itemId = id := hid.symm.trans (by simpa using hp)
  have hother : ∀ row : QueueRow, t = s → row.itemId = itemId → row.status = .claimed →
      decide (row.itemId = id) = false := by
    intro row ht hrowId _
    rw [decide_eq_false_iff_not]
    intro hrow
    rw [(hfits (hsession.trans ht) (hsame.trans (hrow.symm.trans hrowId))).1] at hqueued
    simp at hqueued
  obtain ⟨⟨⟩, db₁, hdelete, hpure⟩ := Effect.bind_ok hcancel
  obtain ⟨rfl, rfl⟩ := Effect.pure_ok hpure
  exact heads_deleteRows hother db () db' h hdelete

theorem heads_updateQueued (input : QueueUpdateInput) :
    Answers (Heads s itemId claimId skipped) (updateQueued env input) fun _ =>
      Heads s itemId claimId skipped := by
  unfold updateQueued
  split_ifs
  · exact answers_pure fun _ h => h
  · exact heads_mutationTransaction ((heads_expire _).bind fun _ => answers_pure fun _ h => h)
  refine heads_mutationTransaction ((heads_expire _).bind fun _ => heads_selectFirst.bind
    fun found => ?_)
  rcases found with _ | item
  · exact answers_pure fun _ h => h.1
  dsimp only
  by_cases heditable : item.status ≠ .queued ∨ item.source ≠ .api
  · rw [if_pos heditable]
    exact answers_pure fun _ h => h.1
  rw [if_neg heditable]
  push Not at heditable
  intro db result db' ⟨h, hfits⟩ hupdate
  obtain ⟨hfits, -⟩ := hfits item rfl
  obtain ⟨hentry, hsession⟩ := updatedItem_entry input item
  have hid : (updatedItem input item).itemId = item.itemId := congrArg QueueEntry.itemId hentry
  have hwrite : Fits s itemId claimId (updatedItem input item) := by
    intro hs hsame
    have := (hfits (hsession.symm.trans hs) (hid.symm.trans hsame)).1
    simp [heditable.1] at this
  obtain ⟨⟨⟩, db₁, hwritten, hpure⟩ := Effect.bind_ok hupdate
  obtain ⟨rfl, rfl⟩ := Effect.pure_ok hpure
  exact heads_write hwrite db () db' h hwritten

theorem heads_reconcilePause :
    Answers (Heads s itemId claimId skipped) (reconcilePause t)
      fun _ => Heads s itemId claimId skipped := by
  intro db a db' h hreconcile
  exact h.of_rows (by rw [QueueDb.rows, (reconcilePause_ok hreconcile).1, QueueDb.rows])

theorem heads_executionSnapshot :
    Answers (Heads s itemId claimId skipped) (executionSnapshot t)
      fun _ => Heads s itemId claimId skipped := by
  intro db value db' h hsnapshot
  rwa [executionSnapshot_ok hsnapshot]

theorem heads_snapshot :
    Answers (Heads s itemId claimId skipped) (snapshot env t) fun _ =>
      Heads s itemId claimId skipped :=
  heads_transaction <| (heads_expire _).bind fun _ => heads_reconcilePause.bind fun _ =>
    heads_executionSnapshot.bind fun _ => answers_pure fun _ h => h

theorem heads_list :
    Answers (Heads s itemId claimId skipped) (QueueRepository.list env t) fun _ =>
      Heads s itemId claimId skipped :=
  heads_transaction <| (heads_expire _).bind fun _ => heads_select.bind fun _ =>
    answers_pure fun _ h => h

theorem heads_get (id : String) :
    Answers (Heads s itemId claimId skipped) (QueueRepository.get env t id) fun _ =>
      Heads s itemId claimId skipped :=
  heads_transaction <| (heads_expire _).bind fun _ => heads_selectFirst.bind fun _ =>
    answers_pure fun _ h => h.1

theorem heads_findByClientRequestId (request : String) :
    Answers (Heads s itemId claimId skipped) (findByClientRequestId env t request)
      fun _ =>
      Heads s itemId claimId skipped :=
  heads_transaction <| (heads_expire _).bind fun _ => heads_selectFirst.bind fun _ =>
    answers_pure fun _ h => h.1

/-! ### An enqueue -/

/-- The facts do not tell that the item was removed. -/
def Unremoved (s itemId : String) (facts : List QueueCommittedFact) : Prop :=
  .closed itemId ∉ facts.flatMap (QueueCommittedFact.ledger s)

theorem unremoved_append {f g : List QueueCommittedFact} :
    Unremoved s itemId (f ++ g) ↔ Unremoved s itemId f ∧ Unremoved s itemId g := by
  simp [Unremoved]

theorem heads_transaction_unremoved {operation : QueueTransaction (CommittedQueueResult α)}
    (h : Answers (Heads s itemId claimId skipped) operation fun result db =>
      Unremoved s itemId result.facts → Heads s itemId claimId skipped db) :
    Answers (Heads s itemId claimId skipped) (transaction t operation) fun result db =>
      Unremoved s itemId result.facts → Heads s itemId claimId skipped db := by
  intro db result db' hdb htransaction hunremoved
  obtain ⟨inner, db₁, rest, hinner, -, hfacts, hrows⟩ := transaction_ok htransaction
  rw [hfacts, unremoved_append] at hunremoved
  exact (h db inner db₁ hdb hinner hunremoved.1).of_rows (hrows s)

theorem heads_mutationTransaction_unremoved {operation : QueueTransaction (CommittedQueueResult α)}
    (h : Answers (Heads s itemId claimId skipped) operation fun result db =>
      Unremoved s itemId result.facts → Heads s itemId claimId skipped db) :
    Answers (Heads s itemId claimId skipped) (mutationTransaction env t operation) fun result db =>
      Unremoved s itemId result.facts → Heads s itemId claimId skipped db :=
  fun db result db' hdb hm => heads_transaction_unremoved h db result db' hdb (mutationTransaction_ok hm)

/-- Where the facts do not matter. -/
theorem answers_pure_unremoved {r : CommittedQueueResult α} :
    Answers (Heads s itemId claimId skipped) (pure r : QueueTransaction (CommittedQueueResult α))
      fun result db => Unremoved s itemId result.facts → Heads s itemId claimId skipped db :=
  answers_pure fun _ h _ => h

theorem unremoved_removal {reason : QueueRemovalReason} {nowMs : JsNumber}
    {admissionReason : Option String} {item : QueueItem}
    (h : Unremoved s itemId [removalFact reason nowMs admissionReason item])
    (hs : item.sessionId = s) : item.itemId ≠ itemId := by
  rintro rfl
  simp [Unremoved, removalFact, QueueCommittedFact.ledger, hs] at h

/-- An item whose removal does not tell of the claimed one is another. -/
theorem heads_deleteItem {reason : QueueRemovalReason} {nowMs : JsNumber}
    {admissionReason : Option String} {item : QueueItem}
    (h : Unremoved s itemId [removalFact reason nowMs admissionReason item])
    (ht : item.sessionId = t) :
    Answers (Heads s itemId claimId skipped) (deleteItem t item.itemId)
      fun _ => Heads s itemId claimId skipped := by
  refine heads_deleteRows fun row hs hid _ => ?_
  have := unremoved_removal h (ht.trans hs)
  simpa [hid] using this.symm

theorem heads_settleBatchMemberClaim {nowMs : JsNumber} (member : JsValue) :
    Answers (Heads s itemId claimId skipped) (settleBatchMemberClaim t nowMs member)
      fun facts db => Unremoved s itemId facts → Heads s itemId claimId skipped db := by
  rcases hid : memberItemId member with _ | id <;> simp only [settleBatchMemberClaim, hid]
  · exact answers_pure fun _ h _ => h
  refine heads_selectFirst.bind fun found => ?_
  rcases found with _ | existing
  · exact answers_pure fun _ h _ => h.1
  dsimp only
  split_ifs
  · exact answers_pure fun _ h _ => h.1
  · exact answers_pure fun _ h _ => h.1
  · exact answers_raise _
  · intro db facts db' hfound hsettle hunremoved
    obtain ⟨⟨⟩, db₁, hdelete, hpure⟩ := Effect.bind_ok hsettle
    obtain ⟨rfl, rfl⟩ := Effect.pure_ok hpure
    exact heads_deleteItem hunremoved rfl db () db' hfound.1 hdelete

theorem heads_settleBatchMemberClaims {nowMs : JsNumber} (members : List JsValue) :
    Answers (Heads s itemId claimId skipped) (gather (settleBatchMemberClaim t nowMs) members)
      fun facts db => Unremoved s itemId facts.flatten → Heads s itemId claimId skipped db := by
  induction members with
  | nil => exact answers_pure fun _ h _ => h
  | cons member members ih =>
    intro db all db' h hgather hunremoved
    obtain ⟨facts, db₁, hsettle, hrest⟩ := Effect.bind_ok hgather
    obtain ⟨rest, db₂, hrest, hpure⟩ := Effect.bind_ok hrest
    obtain ⟨rfl, rfl⟩ := Effect.pure_ok hpure
    rw [List.flatten_cons, unremoved_append] at hunremoved
    exact ih db₁ rest db' (heads_settleBatchMemberClaim member db facts db₁ h hsettle hunremoved.1)
      hrest hunremoved.2

variable {input : QueueEnqueueInput}

/-- An identity that is restored is not the claimed item's. -/
theorem heads_restorableIdentity {nowMs : JsNumber} :
    Answers (Heads s itemId claimId skipped) (restorableIdentity input) fun restored db =>
      Unremoved s itemId ((restored.bind Prod.snd).toList.map (removalFact .cancelled nowMs none)) →
        Heads s itemId claimId skipped db ∧
          (input.sessionId = s → ∀ r ∈ restored, r.1 ≠ itemId) := by
  rcases hid : nonEmptyText input.itemId with _ | id <;> simp only [restorableIdentity, hid]
  · exact answers_pure fun _ h _ => ⟨h, by simp⟩
  intro db restored db' h hrestore hunremoved
  obtain ⟨found, db₁, hfind, hrest⟩ := Effect.bind_ok hrestore
  obtain ⟨hheads, hfound⟩ := heads_selectFirst db found db₁ h hfind
  rcases found with _ | existing
  · obtain ⟨rfl, rfl⟩ := Effect.pure_ok hrest
    refine ⟨hheads, fun hs r hr => ?_⟩
    obtain rfl : r = (id, none) := by simpa using hr.symm
    rintro rfl
    obtain ⟨row, hrow, hrowId, -⟩ := hheads.mem
    subst hs
    obtain ⟨rfl, hnone⟩ := selectFirst_ok hfind
    simpa [hrowId] using hnone row hrow
  · obtain ⟨hfits, hsession, row, hrow, hp, hrowId⟩ := hfound existing rfl
    have hsame : existing.itemId = id := hrowId.symm.trans (by simpa using hp)
    dsimp only at hrest
    split_ifs at hrest
    · obtain ⟨rfl, rfl⟩ := Effect.pure_ok hrest
      exact ⟨hheads, by simp⟩
    · obtain ⟨⟨⟩, db₂, hdelete, hpure⟩ := Effect.bind_ok hrest
      obtain ⟨rfl, rfl⟩ := Effect.pure_ok hpure
      have hremoved : Unremoved s itemId [removalFact .cancelled nowMs none existing] := hunremoved
      refine ⟨heads_deleteItem hremoved hsession db₁ () db' hheads hdelete, fun hs r hr => ?_⟩
      obtain rfl : r = (id, some existing) := by simpa using hr.symm
      rw [← hsame]
      exact unremoved_removal hremoved (hsession.trans hs)

theorem heads_replayEnqueue {found : QueueItem} {facts : List QueueCommittedFact}
    (hfits : Fits s itemId claimId found) (hfront : input.front = false) :
    Answers (Heads s itemId claimId skipped) (replayEnqueue input found facts)
      fun _ => Heads s itemId claimId skipped := by
  refine Answers.bind (Q := fun _ => Heads s itemId claimId skipped) ?_ fun existing => ?_
  · rcases hturn : nonEmptyText input.requestedTurnId with _ | turnId <;>
      simp only [attachRequestedTurnId, hturn]
    · exact answers_pure fun _ h => h
    · split_ifs
      · exact answers_pure fun _ h => h
      · have hwritten : Fits s itemId claimId { found with requestedTurnId := some turnId } := hfits
        exact (heads_write hwritten).bind fun _ => answers_pure fun _ h => h
  · rw [if_neg (by simp [hfront])]
    exact (heads_read _).bind fun _ => answers_pure fun _ h => h

theorem heads_findReplayed :
    Answers (Heads s itemId claimId skipped) (findReplayed input) fun found db =>
      Heads s itemId claimId skipped db ∧ ∀ i ∈ found, Fits s itemId claimId i := by
  rcases hrequest : nonEmptyText input.clientRequestId with _ | request <;>
    simp only [findReplayed, hrequest]
  · exact answers_pure fun _ h => ⟨h, by simp⟩
  · exact heads_selectFirst.mono (fun _ h => h) fun _ _ h => ⟨h.1, fun i hi => (h.2 i hi).1⟩

/-- An insert that removes no claimed item and is of a new id. -/
theorem heads_insertEnqueue {nowMs : JsNumber} {expiredFacts : List QueueCommittedFact}
    (hkey : nonEmptyText input.dedupeKey = none) (hfront : input.front = false)
    (hnew : input.sessionId = s → env.newItemId ≠ itemId) :
    Answers (Heads s itemId claimId skipped) (insertEnqueue env input nowMs expiredFacts)
      fun result db => Unremoved s itemId result.facts → Heads s itemId claimId skipped db := by
  intro db result db' h hinsert hunremoved
  obtain ⟨batchClaims, db₁, hsettle, h₁⟩ := Effect.bind_ok hinsert
  obtain ⟨restored, db₂, hrestore, h₂⟩ := Effect.bind_ok h₁
  obtain ⟨replaced, db₃, hreplaced, h₃⟩ := Effect.bind_ok h₂
  simp only [findReplaced, hkey] at hreplaced
  obtain ⟨rfl, rfl⟩ := Effect.pure_ok hreplaced
  obtain ⟨⟨⟩, db₄, hwrite, h₄⟩ := Effect.bind_ok h₃
  rw [if_neg (by simp [hfront])] at h₄
  obtain ⟨placed, db₅, hread, h₅⟩ := Effect.bind_ok h₄
  obtain ⟨rfl, rfl⟩ := Effect.read_ok hread
  obtain ⟨rfl, rfl⟩ := Effect.pure_ok h₅
  simp only [unremoved_append] at hunremoved
  obtain ⟨⟨⟨⟨-, hbatch⟩, hdisplaced⟩, -⟩, -⟩ := hunremoved
  obtain ⟨facts, db₅, hgather, hflatten⟩ := Effect.bind_ok hsettle
  obtain ⟨rfl, rfl⟩ := Effect.pure_ok hflatten
  have hsettled := heads_settleBatchMemberClaims _ db facts db₁ h hgather hbatch
  obtain ⟨hheads, hother⟩ := heads_restorableIdentity db₁ restored db₃ hsettled hrestore hdisplaced
  refine heads_write (fun hs hid => ?_) db₃ () db' hheads hwrite
  exfalso
  rcases restored with _ | r
  · exact hnew hs hid
  · exact hother hs r rfl hid

theorem heads_enqueue (hkey : nonEmptyText input.dedupeKey = none) (hfront : input.front = false)
    (hnew : input.sessionId = s → env.newItemId ≠ itemId) :
    Answers (Heads s itemId claimId skipped) (enqueue env input) fun result db =>
      Unremoved s itemId result.facts → Heads s itemId claimId skipped db := by
  unfold enqueue
  split_ifs
  swap
  · exact answers_pure_unremoved
  refine heads_mutationTransaction_unremoved ((heads_expire _).bind fun expiredFacts => ?_)
  split_ifs
  · exact answers_pure_unremoved
  refine (heads_read _).bind fun claimed => ?_
  rw [if_neg (by simp [hfront])]
  refine heads_findReplayed.bind fun found => ?_
  rcases found with _ | found
  · exact (heads_insertEnqueue hkey hfront hnew).mono (fun _ h => h.1) fun _ _ h => h
  · intro db result db' ⟨h, hfits⟩ hreplay _
    exact heads_replayEnqueue (hfits found rfl) hfront db result db' h hreplay

/-! ### The run up to the admission -/

theorem heads_facts {m : QueueTransaction (CommittedQueueResult α)}
    (h : Answers (Heads s itemId claimId skipped) m fun _ => Heads s itemId claimId skipped) :
    Answers (Heads s itemId claimId skipped) (QueueOperation.facts m)
      fun _ => Heads s itemId claimId skipped :=
  Answers.bind h fun _ => answers_pure fun _ h => h

/-- What may come before the admission keeps the claim at the head. -/
theorem heads_step {e : QueueEnvironment × QueueOperation} (h : Heads s itemId claimId skipped db)
    (he : BeforeAdmission s itemId db e) :
    Heads s itemId claimId skipped (queueSystem.step db e).1 := by
  obtain ⟨env, op⟩ := e
  rcases hperform : op.perform env db with ⟨error | facts, db'⟩
  · have hsame := perform_restores env op db error db' hperform
    change Heads s itemId claimId skipped (op.perform env db).2
    rwa [hperform, hsame]
  have hkept : Heads s itemId claimId skipped db' := by
    cases op with
    | enqueue input =>
      obtain ⟨hkey, hfront, hnew, hremoves⟩ := he
      obtain ⟨result, db₁, henqueue, hpure⟩ := Effect.bind_ok hperform
      obtain ⟨rfl, rfl⟩ := Effect.pure_ok hpure
      refine heads_enqueue hkey hfront (fun hs hid => ?_) db result db' h henqueue ?_
      · obtain ⟨row, hrow, hrowId, -⟩ := h.mem
        subst hs
        exact hnew ⟨row, hrow, hrowId.trans hid.symm⟩
      · intro hclosed
        refine hremoves ?_
        change LedgerEntry.closed itemId ∈
          (answeredFacts (QueueOperation.perform env (.enqueue input) db).1).flatMap _
        rwa [hperform]
    | cancel t id => exact heads_facts (heads_cancel id) db facts db' h hperform
    | updateQueued input => exact heads_facts (heads_updateQueued input) db facts db' h hperform
    | snapshot t => exact heads_facts heads_snapshot db facts db' h hperform
    | list t => exact heads_facts heads_list db facts db' h hperform
    | findByClientRequestId t request =>
      exact heads_facts (heads_findByClientRequestId request) db facts db' h hperform
    | get t id => exact heads_facts (heads_get id) db facts db' h hperform
    | _ => exact he.elim
  change Heads s itemId claimId skipped (op.perform env db).2
  rwa [hperform]

theorem heads_after {es : List (QueueEnvironment × QueueOperation)}
    (h : Heads s itemId claimId skipped db)
    (hes : queueSystem.Along (BeforeAdmission s itemId) db es) :
    Heads s itemId claimId skipped (queueSystem.after db es) :=
  queueSystem.after_invariant (fun _ _ h he => heads_step h he) h hes

/-! ### The claim -/

/-- The first row of a property, written as claimed, heads what has the property. -/
theorem heads_claimed {p : QueueRow → Bool} {item : QueueItem} {row : QueueRow}
    (hfind : (db.rows item.sessionId).find? p = some row) (hid : row.itemId = item.itemId)
    (hstatus : item.status = .claimed) (hclaim : item.claimId = some claimId)
    (hskipped : ∀ r, p r = false → skipped r.itemId) (hwrite : write item db = (.ok (), db')) :
    Heads item.sessionId item.itemId claimId skipped db' := by
  have hrows := (write_ok hwrite).rows
  rw [if_pos ⟨row, List.mem_of_find?_eq_some hfind, hid⟩] at hrows
  obtain ⟨-, before, after, heq, hbefore⟩ := List.find?_eq_some_iff_append.1 hfind
  rw [heq, putRow, List.map_append, List.map_cons, if_pos hid] at hrows
  refine ⟨_, item.storage, _, hrows, fun r hr => ?_, rfl, hstatus, item, rfl, hclaim⟩
  obtain ⟨old, hold, rfl⟩ := List.mem_map.1 hr
  have hnot := hskipped old (by simpa using hbefore old hold)
  split_ifs with hsame
  · rwa [hsame] at hnot
  · exact hnot

theorem claimNext_heads {env : QueueEnvironment} {input : QueueClaimInput}
    {result : CommittedQueueResult (Option QueueDispatchItem)} {claim : QueueDispatchItem}
    (h : claimNext env input db = (.ok result, db')) (hvalue : result.value = some claim) :
    claim.claimId ≠ "" ∧ claim.selection = claimSelection input ∧
      Heads input.sessionId claim.item.itemId claim.claimId
        (fun id => nonEmptyText input.itemId = none → input.excludeItemIds.contains id = true) db' := by
  rcases claimNext_claims h with
    ⟨-, item, db₁, db₂, -, hsession, hne, -, hwrite, hrows, ⟨row, hfind, hdecodes⟩, taken, htaken,
      hid, hselection, -, hitem⟩ | ⟨-, -, hnone⟩
  · obtain rfl : taken = claim := Option.some.inj (htaken.symm.trans hvalue)
    refine ⟨by rwa [hid], hselection, ?_⟩
    have hheads : Heads (claimedItem env (input.claimedAt env) item).sessionId
        (claimedItem env (input.claimedAt env) item).itemId env.newClaimId
        (fun id => nonEmptyText input.itemId = none → input.excludeItemIds.contains id = true)
        db₂ := by
      refine heads_claimed (p := input.takes) ?_ hdecodes.itemId.symm rfl rfl
        (fun r hr hitemId => ?_) hwrite
      · change (db₁.rows item.sessionId).find? input.takes = some row
        rwa [hsession]
      · simpa [QueueClaimInput.takes, hitemId] using hr
    rw [hitem, hid, ← hsession]
    exact hheads.of_rows (hrows _)
  · rw [hnone] at hvalue
    cases hvalue

/-- A claim that is not exact goes by the items it excludes. -/
theorem nonEmptyText_of_selection {input : QueueClaimInput}
    (h : (queueAdmissionPriority (claimSelection input) claimId createdAt
      yielded).isSelectedQueueItem = false) : nonEmptyText input.itemId = none := by
  by_contra hsome
  have hexact : claimSelection input = .exact := by
    simp [claimSelection, Option.isSome_iff_ne_none, hsome]
  simp [hexact, queueAdmissionPriority, TurnAdmissionPriority.isSelectedQueueItem] at h

/-- A claim in order is blocked by a row before it that has not yielded. -/
theorem claimedQueueItemBlocks_preceded {createdAt : JsNumber} {queueClaimId : Option String}
    {yielded : List String} {before after : List QueueRow} {row blocker : QueueRow}
    (hrows : db.rows s = before ++ row :: after)
    (hone : ∀ r ∈ db.rows s, r.status = .claimed → r = row) (hblocker : blocker ∈ before)
    (hyielded : blocker.itemId ∉ yielded) :
    claimedQueueItemBlocks db s (.fifo createdAt queueClaimId yielded) claimId = true := by
  have hnodup : (before ++ row :: after).Nodup := hrows ▸ (nodup_rows db s).of_map _
  have hnone : before.findIdx? (isClaimedBy claimId) = none := by
    rw [List.findIdx?_eq_none_iff]
    intro r hr
    by_contra hclaimed
    have hstatus : r.status = .claimed := by
      simp [isClaimedBy] at hclaimed
      exact hclaimed.2
    obtain rfl := hone r (by simp [hrows, hr]) hstatus
    exact (List.nodup_append.1 hnodup).2.2 r hr r (.head _) rfl
  unfold claimedQueueItemBlocks
  rcases hfind : (db.rows s).findIdx? (isClaimedBy claimId) with _ | i
  · rfl
  · rw [hrows, List.findIdx?_append, hnone] at hfind
    obtain ⟨j, -, hj⟩ := Option.map_eq_some_iff.1 (by simpa using hfind)
    have hi : before.length ≤ i := by omega
    change List.any _ _ = true
    rw [List.any_eq_true]
    refine ⟨blocker, ?_, by simpa [TurnAdmissionPriority.yieldedItemIds] using hyielded⟩
    rw [hrows, List.take_append, List.take_of_length_le hi]
    exact List.mem_append_left _ hblocker

/-- A claim that the pause does not block is blocked by the order alone. -/
theorem blocksQueueCandidate_claim {priority : TurnAdmissionPriority}
    (hid : priority.queueClaimId = some claimId) (horder : priority.bypassesQueueOrder = false)
    (hpause : db.pauses s = none ∨ priority.bypassesQueuePause = true) :
    blocksQueueCandidate db s priority = claimedQueueItemBlocks db s priority claimId := by
  have hrunning : ¬ ((db.pauses s).isSome && !priority.bypassesQueuePause) = true := by
    rcases hpause with hpause | hpause <;> simp [hpause]
  simp only [blocksQueueCandidate, if_neg hrunning, horder, hid]
  rfl

/-- What a claim takes is admitted, unless the Session is paused and its priority does not bypass
that, until an enqueue removes it; and a claim in order is blocked by every row before it that has
not yielded. -/
theorem claim_admitted :
    (∀ (env : QueueEnvironment) (db : QueueDb) (input : QueueClaimInput)
      (result : CommittedQueueResult (Option QueueDispatchItem)) (db' : QueueDb)
      (claim : QueueDispatchItem) (es : List (QueueEnvironment × QueueOperation))
      (createdAt : JsNumber), claimNext env input db = (.ok result, db') →
      result.value = some claim →
      queueSystem.Along (BeforeAdmission input.sessionId claim.item.itemId) db' es →
      ((queueSystem.after db' es).pauses input.sessionId = none ∨
        (queueAdmissionPriority claim.selection claim.claimId createdAt
          input.excludeItemIds).bypassesQueuePause = true) →
      blocksQueueCandidate (queueSystem.after db' es) input.sessionId
        (queueAdmissionPriority claim.selection claim.claimId createdAt input.excludeItemIds) =
          false) ∧
    ∀ (db : QueueDb) (s claimId : String) (createdAt : JsNumber) (yielded : List String)
      (before : List QueueRow) (row : QueueRow) (after : List QueueRow), claimId ≠ "" →
      db.rows s = before ++ row :: after → row.status = .claimed →
      (∀ r ∈ db.rows s, r.status = .claimed → r = row) →
      (∃ r ∈ before, r.itemId ∉ yielded) →
      blocksQueueCandidate db s (.fifo createdAt (some claimId) yielded) = true := by
  constructor
  · intro env db input result db' claim es createdAt hclaim hvalue hes hpause
    obtain ⟨hne, hselection, hheads⟩ := claimNext_heads hclaim hvalue
    have hheads := heads_after hheads hes
    have hid : nonEmptyText (some claim.claimId) = some claim.claimId := by
      simp [nonEmptyText, hne]
    rw [hselection] at hpause ⊢
    rw [blocksQueueCandidate_claim ?_ ?_ hpause]
    · refine claimedQueueItemBlocks_heads hheads fun hselected id hskipped => ?_
      have hcontains := hskipped (nonEmptyText_of_selection hselected)
      unfold queueAdmissionPriority at hselected ⊢
      cases hsel : claimSelection input
      · exact hcontains
      · simp [hsel, TurnAdmissionPriority.isSelectedQueueItem] at hselected
      · exact hcontains
    · cases claimSelection input <;> exact hid
    · cases claimSelection input <;> rfl
  · intro db s claimId createdAt yielded before row after hne hrows hstatus hone hblocker
    obtain ⟨blocker, hmem, hyielded⟩ := hblocker
    have hid : (TurnAdmissionPriority.fifo createdAt (some claimId) yielded).queueClaimId =
        some claimId := by
      simp [TurnAdmissionPriority.queueClaimId, nonEmptyText, hne]
    by_cases hpaused : db.pauses s = none
    · rw [blocksQueueCandidate_claim hid rfl (.inl hpaused)]
      exact claimedQueueItemBlocks_preceded hrows hone hmem hyielded
    · simp [blocksQueueCandidate, TurnAdmissionPriority.bypassesQueuePause,
        Option.isSome_iff_ne_none, hpaused]

/-- The first item is claimed over a third one that is enqueued in between. -/
theorem claim_admitted_enqueued :
    let db := queueSystem.after queueSystem.initial twoItems
    let env := sampleEnvironment 3 "d" "c3"
    ∃ claim : QueueDispatchItem, claim.item.itemId = "a" ∧
      blocksQueueCandidate (queueSystem.after (claimNext env sampleClaim db).2
        [(sampleEnvironment 4 "e" "c4", .enqueue (sampleInput none none))]) "s"
        (queueAdmissionPriority claim.selection claim.claimId (.finite 1) []) = false := by
  intro db env
  obtain ⟨result, claim, hresult, hvalue, hid⟩ : ∃ result claim,
      (claimNext env sampleClaim db).1 = .ok result ∧ result.value = some claim ∧
        claim.item.itemId = "a" := ⟨_, _, rfl, rfl, rfl⟩
  refine ⟨claim, hid, claim_admitted.1 env db sampleClaim result _ claim _ (.finite 1)
    (Prod.ext hresult rfl) hvalue ?_ (.inl rfl)⟩
  rw [hid]
  refine ⟨⟨rfl, rfl, ?_, ?_⟩, trivial⟩
  · change ¬ ∃ row ∈ (claimNext env sampleClaim db).2.rows "s", row.itemId = "e"
    decide
  · unfold Removes
    decide

/-- An enqueue that restores the claimed item's identity takes the claim from it. -/
theorem claim_displaced : ¬ ∀ (env : QueueEnvironment) (db : QueueDb) (input : QueueClaimInput)
    (result : CommittedQueueResult (Option QueueDispatchItem)) (db' : QueueDb)
    (claim : QueueDispatchItem) (env' : QueueEnvironment) (later : QueueEnqueueInput)
    (createdAt : JsNumber), claimNext env input db = (.ok result, db') →
    result.value = some claim → nonEmptyText later.dedupeKey = none → later.front = false →
    NewIds db' (env', .enqueue later) →
    (queueSystem.step db' (env', .enqueue later)).1.pauses input.sessionId = none →
    blocksQueueCandidate (queueSystem.step db' (env', .enqueue later)).1 input.sessionId
      (queueAdmissionPriority claim.selection claim.claimId createdAt input.excludeItemIds) =
        false := by
  intro h
  let db := queueSystem.after queueSystem.initial twoItems
  let env := sampleEnvironment 3 "d" "c3"
  let later := { sampleInput none none with itemId := some "a" }
  let e := (sampleEnvironment 4 "e" "c4", QueueOperation.enqueue later)
  have hclaimed : ((claimNext env sampleClaim db).1.toOption.bind fun r =>
      r.value.map fun claim => (claim.claimId, claim.selection)) = some ("c3", .fifo) := by
    decide +kernel
  have hnew : ¬ ∃ row ∈ (claimNext env sampleClaim db).2.rows "s", row.itemId = "e" := by
    decide +kernel
  have hpause : (queueSystem.step (claimNext env sampleClaim db).2 e).1.pauses "s" = none := by
    decide +kernel
  have hblocked : blocksQueueCandidate (queueSystem.step (claimNext env sampleClaim db).2 e).1 "s"
      (queueAdmissionPriority .fifo "c3" (.finite 1) []) = true := by
    decide +kernel
  rcases hrun : claimNext env sampleClaim db with ⟨error | result, db'⟩ <;>
    rw [hrun] at hclaimed hnew hpause hblocked
  · cases hclaimed
  obtain ⟨claim, hvalue, hclaim⟩ := Option.map_eq_some_iff.1 hclaimed
  have hadmitted := h env db sampleClaim result db' claim e.1 later (.finite 1) hrun hvalue rfl rfl
    hnew hpause
  rw [(Prod.mk.inj hclaim).1, (Prod.mk.inj hclaim).2] at hadmitted
  exact absurd (hblocked.symm.trans hadmitted) (by decide)

end Kinetick
