import Kinetick.Proofs.QueueEntries
import Kinetick.Proofs.QueueOperations
import Kinetick.Queue.Guarantees

/-!
# What an enqueue commits

An enqueue first deletes what expired, the claims its batch settles and the claimed item whose id it
restores; then it writes its item, in the place of the queued one of its key; and last it puts the
item first where it is to be.
-/

namespace Kinetick

open QueueEntry QueueChange QueueRepository

variable {scope : QueueScope} {s : String} {db db' db'' : QueueDb} {env : QueueEnvironment}

theorem enqueueResult_ok {item : QueueItem} {result : QueueEnqueueResult}
    (h : enqueueResult item db = (.ok result, db')) : db' = db ∧ result.item = item := by
  obtain ⟨rfl, rfl⟩ := Effect.read_ok h
  refine ⟨rfl, ?_⟩
  dsimp only
  split
  · split_ifs <;> rfl
  · rfl

/-- Facts of no item. -/
theorem does_of_becomes {changes : List QueueChange} (h : Becomes scope s changes db db')
    (hledger : changes.flatMap QueueChange.ledger = []) : Does scope s [] db db' :=
  ⟨changes, h, fun t => by simp [hledger], fun t p => by simp⟩

/-- What was written is among the entries. -/
theorem mem_entries_write {item : QueueItem} (h : write item db = (.ok (), db')) :
    item.entry ∈ db'.entries item.sessionId := by
  rw [entries_write h, QueueChange.apply]
  split_ifs with hid
  · obtain ⟨e, he, hid⟩ := hid
    exact List.mem_map.2 ⟨e, he, if_pos hid⟩
  · simp

theorem attachRequestedTurnId_does {item existing : QueueItem} {turnId : Option String}
    (hitem : Present s db item)
    (h : attachRequestedTurnId item turnId db = (.ok existing, db')) :
    Does scope s [] db db' ∧ existing.sessionId = s ∧ (db'.Stored → existing.entry ∈ db'.entries s) := by
  rcases hturn : nonEmptyText turnId with _ | requested <;>
    simp only [attachRequestedTurnId, hturn] at h
  · obtain ⟨rfl, rfl⟩ := Effect.pure_ok h
    exact ⟨.refl _ _ _, hitem.sessionId, hitem.entry⟩
  split_ifs at h
  · obtain ⟨rfl, rfl⟩ := Effect.pure_ok h
    exact ⟨.refl _ _ _, hitem.sessionId, hitem.entry⟩
  obtain ⟨⟨⟩, db₁, hwrite, h₁⟩ := Effect.bind_ok h
  obtain ⟨rfl, rfl⟩ := Effect.pure_ok h₁
  refine ⟨(becomes_edit ?_ hwrite ?_).does, hitem.sessionId, fun _ => ?_⟩
  · exact hitem.sessionId
  · exact hitem.entry
  · have hmem := mem_entries_write hwrite
    rwa [hitem.sessionId] at hmem

/-- What an enqueue that puts the item first may do at its end. -/
def frontScope (itemId : String) : QueueScope where
  clashes := False
  duplicates := False
  fronts id := id = itemId
  reorders := False

/-- The end of an enqueue: the item goes first where it is to be. -/
def Placed (front : Bool) (s itemId : String) (db db' : QueueDb) : Prop :=
  if front = true then Becomes (frontScope itemId) s [fronted itemId] db db' else db' = db

theorem placed_ok {front : Bool} {item : QueueItem} {facts : List QueueCommittedFact}
    {result : CommittedQueueResult (Option QueueEnqueueResult)} (hs : item.sessionId = s)
    (hmem : db.Stored → item.entry ∈ db.entries s)
    (h : (if front = true then
        moveQueuedToFront item >>= fun _ => enqueueResult item >>= fun r =>
          pure { value := some r, facts }
      else enqueueResult item >>= fun r => pure { value := some r, facts }) db =
        (.ok result, db')) :
    result.facts = facts ∧ ∃ r, result.value = some r ∧ r.item = item ∧
      Placed front s item.itemId db db' := by
  unfold Placed
  by_cases hfront : front = true
  · rw [if_pos hfront] at h ⊢
    obtain ⟨⟨⟩, db₁, hmove, h₁⟩ := Effect.bind_ok h
    obtain ⟨r, db₂, hr, h₂⟩ := Effect.bind_ok h₁
    obtain ⟨rfl, rfl⟩ := Effect.pure_ok h₂
    obtain ⟨rfl, hitem⟩ := enqueueResult_ok hr
    exact ⟨rfl, r, rfl, hitem, becomes_front hs (by exact rfl) hmem hmove⟩
  · rw [if_neg hfront] at h ⊢
    obtain ⟨r, db₁, hr, h₁⟩ := Effect.bind_ok h
    obtain ⟨rfl, rfl⟩ := Effect.pure_ok h₁
    obtain ⟨rfl, hitem⟩ := enqueueResult_ok hr
    exact ⟨rfl, r, rfl, hitem, rfl⟩

theorem replayEnqueue_ok {input : QueueEnqueueInput} {found : QueueItem}
    {expiredFacts : List QueueCommittedFact}
    {result : CommittedQueueResult (Option QueueEnqueueResult)} (hfound : Present s db found)
    (h : replayEnqueue input found expiredFacts db = (.ok result, db')) :
    result.facts = expiredFacts ∧ ∃ r db₁, result.value = some r ∧ Does scope s [] db db₁ ∧
      Placed input.front s r.item.itemId db₁ db' := by
  obtain ⟨existing, db₁, hattach, h₁⟩ := Effect.bind_ok h
  obtain ⟨hdoes, hs, hentry⟩ := attachRequestedTurnId_does hfound hattach
  obtain ⟨hfacts, r, hr, rfl, hplaced⟩ := placed_ok hs hentry h₁
  exact ⟨hfacts, r, db₁, hr, hdoes, hplaced⟩

/-- Rows were deleted, but no queued one. -/
def Spares (s : String) (db db' : QueueDb) : Prop :=
  ∃ p : QueueRow → Bool, Filtered s p db db' ∧
    ∀ row ∈ db.rows s, row.status = .queued → p row = true

theorem spares_refl (s : String) (db : QueueDb) : Spares s db db :=
  ⟨fun _ => true, by simp [Filtered], fun _ _ _ => rfl⟩

theorem Spares.trans (h : Spares s db db') (h' : Spares s db' db'') : Spares s db db'' := by
  obtain ⟨p, hp, hqueued⟩ := h
  obtain ⟨q, hq, hqueued'⟩ := h'
  refine ⟨fun row => q row && p row, ?_, fun row hrow hstatus => ?_⟩
  · rw [Filtered, hq, hp, List.filter_filter]
  · have hmem : row ∈ db'.rows s := by
      rw [hp]
      exact List.mem_filter.2 ⟨hrow, hqueued row hrow hstatus⟩
    simp [hqueued row hrow hstatus, hqueued' row hmem hstatus]

theorem Spares.shrinks (h : Spares s db db') : Shrinks s db db' := by
  obtain ⟨p, hp, -⟩ := h
  exact hp.shrinks

/-- Deleting a claimed item. -/
theorem spares_deleteItem {item : QueueItem} (hitem : Present s db item)
    (hclaimed : item.status = .claimed)
    (h : deleteItem s item.itemId db = (.ok (), db')) : Spares s db db' := by
  rw [deleteRows_ok h]
  refine ⟨_, filtered_deleteRows, fun row hrow hstatus => ?_⟩
  obtain ⟨claimed, hmem, hdecodes⟩ := hitem
  simp only [Bool.not_eq_true', decide_eq_false_iff_not]
  intro hid
  rw [row_unique hrow hmem (hid.trans hdecodes.itemId), ← hdecodes.status, hclaimed] at hstatus
  cases hstatus

theorem settleBatchMemberClaim_does {nowMs : JsNumber} {member : JsValue}
    {facts : List QueueCommittedFact}
    (h : settleBatchMemberClaim s nowMs member db = (.ok facts, db')) :
    Does scope s facts db db' ∧ Spares s db db' := by
  rcases hid : memberItemId member with _ | itemId <;>
    simp only [settleBatchMemberClaim, hid] at h
  · obtain ⟨rfl, rfl⟩ := Effect.pure_ok h
    exact ⟨.refl _ _ _, spares_refl _ _⟩
  obtain ⟨item, db₁, hfind, h₁⟩ := Effect.bind_ok h
  obtain ⟨rfl, hitem⟩ := find_ok hfind
  rcases item with _ | item
  · obtain ⟨rfl, rfl⟩ := Effect.pure_ok h₁
    exact ⟨.refl _ _ _, spares_refl _ _⟩
  dsimp only at h₁
  split_ifs at h₁ with hclaim hstatus
  · obtain ⟨rfl, rfl⟩ := Effect.pure_ok h₁
    exact ⟨.refl _ _ _, spares_refl _ _⟩
  · obtain ⟨rfl, rfl⟩ := Effect.pure_ok h₁
    exact ⟨.refl _ _ _, spares_refl _ _⟩
  · cases h₁
  obtain ⟨⟨⟩, db₂, hdelete, h₂⟩ := Effect.bind_ok h₁
  obtain ⟨rfl, rfl⟩ := Effect.pure_ok h₂
  have hs := hitem.1.sessionId
  rw [hs] at hdelete
  exact ⟨does_deleteItem _ _ _ hitem.1 hdelete,
    spares_deleteItem hitem.1 (not_not.1 hstatus) hdelete⟩

theorem settleBatchMemberClaims_does {nowMs : JsNumber} :
    ∀ {members : List JsValue} {db : QueueDb} {facts : List (List QueueCommittedFact)},
      Effect.gather (settleBatchMemberClaim s nowMs) members db = (.ok facts, db') →
      Does scope s facts.flatten db db' ∧ Spares s db db'
  | [], db, facts, h => by
    obtain ⟨rfl, rfl⟩ := Effect.pure_ok h
    exact ⟨.refl _ _ _, spares_refl _ _⟩
  | member :: members, db, facts, h => by
    obtain ⟨settled, db₁, hsettle, h₁⟩ := Effect.bind_ok h
    obtain ⟨rest, db₂, hrest, h₂⟩ := Effect.bind_ok h₁
    obtain ⟨rfl, rfl⟩ := Effect.pure_ok h₂
    obtain ⟨hdoes, hspares⟩ := settleBatchMemberClaim_does hsettle
    obtain ⟨hdoes', hspares'⟩ := settleBatchMemberClaims_does hrest
    exact ⟨hdoes.trans hdoes', hspares.trans hspares'⟩

theorem restorableIdentity_does {input : QueueEnqueueInput} (nowMs : JsNumber)
    {restored : Option (String × Option QueueItem)}
    (h : restorableIdentity input db = (.ok restored, db')) :
    Does scope input.sessionId
        ((restored.bind Prod.snd).toList.map (removalFact .cancelled nowMs none)) db db' ∧
      Spares input.sessionId db db' ∧
      ∀ itemId ∈ restored.map Prod.fst, ∀ row ∈ db'.rows input.sessionId, row.itemId ≠ itemId := by
  rcases hid : nonEmptyText input.itemId with _ | itemId <;>
    simp only [restorableIdentity, hid] at h
  · obtain ⟨rfl, rfl⟩ := Effect.pure_ok h
    exact ⟨.refl _ _ _, spares_refl _ _, by simp⟩
  obtain ⟨item, db₁, hfind, h₁⟩ := Effect.bind_ok h
  obtain ⟨rfl, hitem⟩ := find_ok hfind
  rcases item with _ | item
  · obtain ⟨rfl, rfl⟩ := Effect.pure_ok h₁
    exact ⟨.refl _ _ _, spares_refl _ _, by simpa using hitem⟩
  dsimp only at h₁
  split_ifs at h₁ with hstatus
  · obtain ⟨rfl, rfl⟩ := Effect.pure_ok h₁
    exact ⟨.refl _ _ _, spares_refl _ _, by simp⟩
  obtain ⟨⟨⟩, db₂, hdelete, h₂⟩ := Effect.bind_ok h₁
  obtain ⟨rfl, rfl⟩ := Effect.pure_ok h₂
  refine ⟨does_deleteItem _ _ _ hitem.1 hdelete,
    spares_deleteItem hitem.1 (not_not.1 hstatus) hdelete, fun id hid row hrow => ?_⟩
  obtain rfl : item.itemId = id := by simpa [hitem.2] using hid
  rw [deleteRows_ok hdelete] at hrow
  simpa using (mem_deleteRows.1 hrow).2

theorem findReplaced_ok {input : QueueEnqueueInput} {replaced : Option QueueItem}
    (h : findReplaced input db = (.ok replaced, db')) :
    db' = db ∧ match replaced with
      | none => ∀ key, nonEmptyText input.dedupeKey = some key →
          ∀ row ∈ db.rows input.sessionId, row.status = .queued → row.dedupeKey ≠ some key
      | some replaced => ∃ row ∈ db.rows input.sessionId, Decodes row replaced ∧
          row.status = .queued ∧ row.dedupeKey = nonEmptyText input.dedupeKey := by
  rcases hkey : nonEmptyText input.dedupeKey with _ | key <;>
    simp only [findReplaced, hkey] at h
  · obtain ⟨rfl, rfl⟩ := Effect.pure_ok h
    exact ⟨rfl, by simp⟩
  obtain ⟨rfl, hitem⟩ := selectFirst_ok h
  refine ⟨rfl, ?_⟩
  rcases replaced with _ | replaced
  · rintro _ ⟨rfl⟩ row hrow hstatus hdedupe
    have hmatch := hitem row hrow
    simp [hstatus, hdedupe] at hmatch
  · obtain ⟨row, hrow, hmatch, hdecodes⟩ := hitem
    simp only [Bool.and_eq_true, decide_eq_true_eq] at hmatch
    exact ⟨row, hrow, hdecodes, hmatch⟩

theorem logs_enqueue {item : QueueItem} (hs : item.sessionId = s) {change : QueueChange}
    {closed : List QueueCommittedFact} {removals : List QueueChange}
    (hclosed : Logs s closed removals)
    (hledger : change.ledger = removals.flatMap QueueChange.ledger ++ [.opened item.itemId]) :
    Logs s (closed ++ [enqueueFact item]) [change] where
  ledger t := by
    rw [List.flatMap_append, hclosed.ledger]
    by_cases ht : t = s
    · simp [ht, hledger, enqueueFact, QueueCommittedFact.ledger, hs]
    · simp [ht, enqueueFact, QueueCommittedFact.ledger, hs, Ne.symm ht]
  noState t p hmem := by
    rcases List.mem_append.1 hmem with hmem | hmem
    · exact hclosed.noState t p hmem
    · simp [enqueueFact] at hmem

/-- Writing the new item, in the place of the one it replaces. -/
theorem writeEnqueued_does {input : QueueEnqueueInput} {itemId : String} {nowMs : JsNumber}
    {replaced : Option QueueItem}
    (hrequest : NewRequest (db.entries input.sessionId) (input.makeQueued itemId nowMs).entry)
    (hclash : db.Clashes input.sessionId itemId → scope.clashes)
    (hfind : findReplaced input db = (.ok replaced, db))
    (h : writeEnqueued (input.makeQueued itemId nowMs) replaced db = (.ok (), db')) :
    Does scope input.sessionId (replaced.toList.map (removalFact .cancelled nowMs none) ++
        [enqueueFact (input.makeQueued itemId nowMs)]) db db' ∧
      (input.makeQueued itemId nowMs).entry ∈ db'.entries input.sessionId := by
  obtain ⟨-, hreplaced⟩ := findReplaced_ok hfind
  rcases replaced with _ | replaced
  · have hbecomes : Becomes scope input.sessionId
        [enqueued (input.makeQueued itemId nowMs).entry] db db' := by
      refine becomes_enqueue rfl h fun _ => ⟨rfl, hrequest, fun key hkey e he hstatus => ?_,
        fun ⟨e, he, hid⟩ => hclash ?_⟩ <;> obtain ⟨row, hrow, rfl⟩ := List.mem_map.1 he
      · exact hreplaced key hkey row hrow hstatus
      · exact ⟨row, hrow, hid⟩
    refine ⟨⟨_, hbecomes, ?_⟩, mem_entries_write h⟩
    refine logs_enqueue ?_ (logs_nil _) ?_ <;> rfl
  · obtain ⟨row, hrow, hdecodes, hstatus, hkey⟩ := hreplaced
    have hsession : replaced.sessionId = input.sessionId := by
      rw [hdecodes.sessionId, (mem_rows.1 hrow).2]
    have hentry : row.entry ∈ db.entries input.sessionId := List.mem_map.2 ⟨row, hrow, rfl⟩
    have hbecomes : Becomes scope input.sessionId
        [.replaced replaced.itemId (input.makeQueued itemId nowMs).entry] db db' :=
      becomes_replace rfl hsession.symm h fun _ =>
        ⟨rfl, hrequest, row.entry, hentry, hdecodes.itemId.symm, hstatus, hkey⟩
    refine ⟨⟨_, hbecomes, ?_⟩, ?_⟩
    · refine logs_enqueue ?_ (logs_removal _ _ _ hsession) ?_ <;> rfl
    show _ ∈ (db'.rows (input.makeQueued itemId nowMs).sessionId).map QueueRow.entry
    rw [(replaceItem_ok hsession.symm h).rows]
    refine List.mem_map.2 ⟨QueueItem.storage _, List.mem_map.2 ⟨row, hrow, ?_⟩, rfl⟩
    exact if_pos hdecodes.itemId.symm

theorem insertEnqueue_ok {input : QueueEnqueueInput} {nowMs : JsNumber}
    {expiredFacts : List QueueCommittedFact}
    {result : CommittedQueueResult (Option QueueEnqueueResult)}
    (hrequest : ∀ request, nonEmptyText input.clientRequestId = some request →
      ∀ row ∈ db.rows input.sessionId, row.clientRequestId ≠ some request)
    (hclash : db.Clashes input.sessionId env.newItemId → scope.clashes)
    (h : insertEnqueue env input nowMs expiredFacts db = (.ok result, db')) :
    ∃ facts r db₁ db₂ replaced, result.facts = expiredFacts ++ facts ∧ result.value = some r ∧
      Spares input.sessionId db db₁ ∧ findReplaced input db₁ = (.ok replaced, db₁) ∧
      r.item.sessionId = input.sessionId ∧ writeEnqueued r.item replaced db₁ = (.ok (), db₂) ∧
      Does scope input.sessionId facts db db₂ ∧
      Placed input.front input.sessionId r.item.itemId db₂ db' := by
  obtain ⟨batchClaims, db₁, hsettle, h₁⟩ := Effect.bind_ok h
  obtain ⟨settled, db₀, hgather, hflatten⟩ := Effect.bind_ok hsettle
  obtain ⟨rfl, rfl⟩ := Effect.pure_ok hflatten
  obtain ⟨restored, db₂, hrestored, h₂⟩ := Effect.bind_ok h₁
  obtain ⟨hsettled, hspares⟩ := settleBatchMemberClaims_does hgather
  obtain ⟨hdisplaced, hspares', hfree⟩ := restorableIdentity_does nowMs hrestored
  dsimp only at h₂
  obtain ⟨replaced, db₃, hreplaced, h₃⟩ := Effect.bind_ok h₂
  obtain ⟨rfl, -⟩ := findReplaced_ok hreplaced
  obtain ⟨⟨⟩, db₄, hwrite, h₄⟩ := Effect.bind_ok h₃
  have hshrinks := (hspares.trans hspares').shrinks
  have hnew : NewRequest (db₃.entries input.sessionId)
      (input.makeQueued ((restored.map Prod.fst).getD env.newItemId) nowMs).entry := by
    intro request hmatch e he
    obtain ⟨row, hrow, rfl⟩ := List.mem_map.1 he
    exact hrequest request hmatch row (hshrinks row hrow)
  have hnewId : db₃.Clashes input.sessionId ((restored.map Prod.fst).getD env.newItemId) →
      scope.clashes := by
    rintro ⟨row, hrow, hid⟩
    rcases restored with _ | restored
    · exact hclash ⟨row, hshrinks row hrow, hid⟩
    · exact absurd hid (hfree restored.1 rfl row hrow)
  obtain ⟨hwritten, hmem⟩ := writeEnqueued_does hnew hnewId hreplaced hwrite
  obtain ⟨hfacts, r, hr, hitem, hplaced⟩ := placed_ok rfl (fun _ => hmem) h₄
  have hsession : r.item.sessionId = input.sessionId := by
    rw [hitem]
    rfl
  rw [← hitem] at hwrite hplaced
  rw [hsession] at hplaced
  refine ⟨_, r, db₃, db₄, replaced, hfacts.trans ?_, hr, hspares.trans hspares', hreplaced,
    hsession, hwrite, (hsettled.trans hdisplaced).trans hwritten, hplaced⟩
  simp only [List.append_assoc]

theorem findReplayed_ok {input : QueueEnqueueInput} {found : Option QueueItem}
    (h : findReplayed input db = (.ok found, db')) :
    db' = db ∧ match found with
      | none => ∀ request, nonEmptyText input.clientRequestId = some request →
          ∀ row ∈ db.rows input.sessionId, row.clientRequestId ≠ some request
      | some found => Present input.sessionId db found := by
  rcases hrequest : nonEmptyText input.clientRequestId with _ | request <;>
    simp only [findReplayed, hrequest] at h
  · obtain ⟨rfl, rfl⟩ := Effect.pure_ok h
    exact ⟨rfl, by simp⟩
  obtain ⟨rfl, hitem⟩ := selectFirst_ok h
  refine ⟨rfl, ?_⟩
  rcases found with _ | found
  · rintro _ ⟨rfl⟩ row hrow hmatch
    simpa [hmatch] using hitem row hrow
  · obtain ⟨row, hrow, -, hdecodes⟩ := hitem
    exact ⟨row, hrow, hdecodes⟩

/-- What an enqueue may do before its end. -/
def insertScope (env : QueueEnvironment) (input : QueueEnqueueInput) (db : QueueDb) :
    QueueScope where
  clashes := db.Clashes input.sessionId env.newItemId
  duplicates := False
  fronts _ := False
  reorders := False

/-- How an enqueue comes to its item: it finds the item of its request, or writes a new one where
rows were deleted, but no queued one that is not expired. -/
inductive EnqueueWrites (env : QueueEnvironment) (input : QueueEnqueueInput) (item : QueueItem)
    (db db' : QueueDb) : Prop
  | replayed (db₁ : QueueDb)
      (expired : Filtered input.sessionId (fun row => !isExpiredRow env.nowMs row) db db₁)
      (edited : Does (insertScope env input db) input.sessionId [] db₁ db')
      (stored : db.Stored → db₁.Stored)
  | inserted (db₁ db₂ : QueueDb) (replaced : Option QueueItem)
      (session : item.sessionId = input.sessionId)
      (expired : Filtered input.sessionId (fun row => !isExpiredRow env.nowMs row) db db₁)
      (spares : Spares input.sessionId db₁ db₂)
      (finds : findReplaced input db₂ = (.ok replaced, db₂))
      (writes : writeEnqueued item replaced db₂ = (.ok (), db'))

/-- The body of an enqueue: what it does, and last where the item goes. -/
theorem enqueueInTransaction_ok {input : QueueEnqueueInput}
    {result : CommittedQueueResult (Option QueueEnqueueResult)}
    (h : enqueueInTransaction env input db = (.ok result, db')) :
    ∃ db₁, Does (insertScope env input db) input.sessionId result.facts db db₁ ∧
      ((result.value = none ∧ db' = db₁) ∨ ∃ r, result.value = some r ∧
        EnqueueWrites env input r.item db db₁ ∧
        Placed input.front input.sessionId r.item.itemId db₁ db') := by
  obtain ⟨expiredFacts, db₁, hexpire, h₁⟩ := Effect.bind_ok h
  split_ifs at h₁
  · obtain ⟨rfl, rfl⟩ := Effect.pure_ok h₁
    exact ⟨db', expire_does hexpire, .inl ⟨rfl, rfl⟩⟩
  obtain ⟨claimed, db₂, hclaimed, h₂⟩ := Effect.bind_ok h₁
  obtain ⟨rfl, rfl⟩ := Effect.read_ok hclaimed
  split_ifs at h₂
  · obtain ⟨rfl, rfl⟩ := Effect.pure_ok h₂
    exact ⟨db', expire_does hexpire, .inl ⟨rfl, rfl⟩⟩
  obtain ⟨found, db₃, hfound, h₃⟩ := Effect.bind_ok h₂
  obtain ⟨rfl, hcases⟩ := findReplayed_ok hfound
  have hexpired : Does (insertScope env input db) input.sessionId expiredFacts db db₃ :=
    expire_does hexpire
  rcases found with _ | found
  · have hclash : db₃.Clashes input.sessionId env.newItemId →
        (insertScope env input db).clashes := fun ⟨row, hrow, hid⟩ =>
      ⟨row, (expire_filtered hexpire).shrinks row hrow, hid⟩
    obtain ⟨facts, r, db₄, db₅, replaced, hfacts, hr, hspares, hfind, hsession, hwrite, hdoes,
      hplaced⟩ := insertEnqueue_ok hcases hclash h₃
    rw [hfacts]
    exact ⟨db₅, hexpired.trans hdoes, .inr ⟨r, hr, .inserted db₃ db₄ replaced hsession
      (expire_filtered hexpire) hspares hfind hwrite, hplaced⟩⟩
  · obtain ⟨hfacts, r, db₄, hr, hdoes, hplaced⟩ := replayEnqueue_ok hcases h₃
    have hall := hexpired.trans hdoes
    rw [List.append_nil, ← hfacts] at hall
    exact ⟨db₄, hall, .inr ⟨r, hr, .replayed db₃ (expire_filtered hexpire) hdoes hexpired.stored,
      hplaced⟩⟩

/-- A wider scope does what a narrower one does. -/
theorem Does.mono {scope' : QueueScope} {facts : List QueueCommittedFact}
    (hle : QueueScope.Le scope scope') (h : Does scope s facts db db') :
    Does scope' s facts db db' := by
  obtain ⟨changes, hbecomes, hlogs⟩ := h
  exact ⟨changes, ⟨fun hdb => (hbecomes.steps hdb).mono hle, hbecomes.stored, hbecomes.others,
    hbecomes.pauses⟩, hlogs⟩

theorem Placed.does {front : Bool} {itemId : String} (h : Placed front s itemId db db')
    (hfronts : front = true → scope.fronts itemId) : Does scope s [] db db' := by
  unfold Placed at h
  split_ifs at h with hfront
  · refine (does_of_becomes h rfl).mono ⟨False.elim, False.elim, ?_, False.elim⟩
    rintro _ rfl
    exact hfronts hfront
  · rw [h]
    exact .refl _ _ _

/-- What an enqueue with the answer may do. -/
def enqueueScope (env : QueueEnvironment) (input : QueueEnqueueInput) (db : QueueDb)
    (value : Option QueueEnqueueResult) : QueueScope where
  clashes := db.Clashes input.sessionId env.newItemId
  duplicates := False
  fronts itemId := input.front = true ∧ ∃ r, value = some r ∧ r.item.itemId = itemId
  reorders := False

theorem enqueue_committed {input : QueueEnqueueInput}
    {result : CommittedQueueResult (Option QueueEnqueueResult)}
    (h : enqueue env input db = (.ok result, db')) :
    Committed (enqueueScope env input db result.value) input.sessionId result.facts db db' := by
  unfold enqueue at h
  by_cases hvalid : input.valid = true
  swap
  · rw [if_neg hvalid] at h
    obtain ⟨rfl, rfl⟩ := Effect.pure_ok h
    exact .refl _ _ _
  rw [if_pos hvalid] at h
  refine transaction_committed_value (fun {result db'} h => ?_) (mutationTransaction_ok h)
  obtain ⟨db₁, hdoes, hcases⟩ := enqueueInTransaction_ok h
  have hle : QueueScope.Le (insertScope env input db) (enqueueScope env input db result.value) :=
    ⟨fun h => h, fun h => h, fun _ => False.elim, fun h => h⟩
  have hinsert := hdoes.mono hle
  rcases hcases with ⟨-, rfl⟩ | ⟨r, hr, -, hplaced⟩
  · exact hinsert.commits
  · have hall := hinsert.trans (hplaced.does fun hfront => ⟨hfront, r, hr, rfl⟩)
    rw [List.append_nil] at hall
    exact hall.commits

/-- An enqueue that answers an item: what it did before the item went to its place. -/
theorem enqueue_answered {input : QueueEnqueueInput} {r : QueueEnqueueResult}
    {result : CommittedQueueResult (Option QueueEnqueueResult)}
    (h : enqueue env input db = (.ok result, db')) (hr : result.value = some r) :
    ∃ db₁ facts rest, result.facts = facts ++ rest ∧
      Does (insertScope env input db) input.sessionId facts db db₁ ∧
      EnqueueWrites env input r.item db db₁ ∧
      ∃ db₂, Placed input.front input.sessionId r.item.itemId db₁ db₂ ∧
        ∀ t, db'.rows t = db₂.rows t := by
  unfold enqueue at h
  by_cases hvalid : input.valid = true
  swap
  · rw [if_neg hvalid] at h
    obtain ⟨rfl, rfl⟩ := Effect.pure_ok h
    cases hr
  rw [if_pos hvalid] at h
  obtain ⟨inner, db₂, rest, hinner, hvalue, hfacts, hrows⟩ := transaction_ok (mutationTransaction_ok h)
  obtain ⟨db₁, hdoes, hcases⟩ := enqueueInTransaction_ok hinner
  rw [hvalue] at hr
  rcases hcases with ⟨hnone, -⟩ | ⟨r', hr', hwrites, hplaced⟩
  · rw [hnone] at hr
    cases hr
  · obtain rfl := Option.some.inj (hr'.symm.trans hr)
    exact ⟨db₁, inner.facts, rest, hfacts, hdoes, hwrites, db₂, hplaced, hrows⟩

end Kinetick
