import Kinetick.Proofs.QueueKeptInputs
import Kinetick.Proofs.QueueLedger

/-!
# Enqueues that go through

Over rows that decode, the statements of an enqueue answer: what it reads decodes, and what it
writes has an id no other row has.
-/

namespace Kinetick

open QueueCodec JsValue QueueRepository

variable {env : QueueEnvironment} {db db' : QueueDb} {s : String}

/-! ## Statements that answer -/

/-- The rows of the Session decode. -/
def AllDecode (db : QueueDb) (s : String) : Prop :=
  ∀ row ∈ db.rows s, ∃ item, decodeQueueRow row = .ok item

theorem Shrinks.allDecode (h : Shrinks s db db') (hdb : AllDecode db s) : AllDecode db' s :=
  fun row hrow => hdb row (h row hrow)

theorem decodeRows_total : ∀ {rows : List QueueRow},
    (∀ row ∈ rows, ∃ item, decodeQueueRow row = .ok item) → ∃ items, decodeRows rows = .ok items
  | [], _ => ⟨[], rfl⟩
  | row :: rows, h => by
    obtain ⟨item, hitem⟩ := h row (.head _)
    obtain ⟨items, hitems⟩ := decodeRows_total fun r hr => h r (.tail _ hr)
    exact ⟨item :: items, by simp [decodeRows, hitem, hitems]⟩

theorem select_total {p : QueueRow → Bool} (hdb : AllDecode db s) :
    ∃ items, select s p db = (.ok items, db) := by
  obtain ⟨items, hitems⟩ := decodeRows_total fun row hrow => hdb row (List.mem_filter.1 hrow).1
  exact ⟨items, by rw [select, hitems]⟩

theorem selectFirst_total {p : QueueRow → Bool} (hdb : AllDecode db s) :
    ∃ item, selectFirst s p db = (.ok item, db) := by
  unfold selectFirst
  rcases hfind : (db.rows s).find? p with _ | row
  · exact ⟨none, rfl⟩
  · obtain ⟨item, hitem⟩ := hdb row (List.mem_of_find?_eq_some hfind)
    exact ⟨some item, by simp only [hitem]; rfl⟩

theorem insert_total {item : QueueItem}
    (hnew : ∀ row ∈ db.rows item.sessionId, row.itemId ≠ item.itemId) :
    ∃ db', QueueRepository.insert item db = (.ok (), db') ∧
      db'.rows item.sessionId = db.rows item.sessionId ++ [item.storage] := by
  have hholds : queueItemsConstraint.Holds (db.items.rows ++ [item.storage]) := by
    refine Constraint.unique_append.2 ⟨db.items.holds, fun key hkey row hrow hrowKey => ?_⟩
    obtain rfl := Option.some.inj hkey
    obtain ⟨hsession, hid⟩ := Prod.mk.inj (Option.some.inj hrowKey)
    exact hnew row (mem_rows.2 ⟨hrow, hsession⟩) hid
  obtain ⟨items, hitems, -⟩ := Table.insert_of_holds hholds
  have hinsert : QueueRepository.insert item db = (.ok (), { db with items }) := by
    rw [QueueRepository.insert, hitems]
  exact ⟨_, hinsert, (insert_ok hinsert).1.rows⟩

/-- Inserting items of distinct new ids adds their rows. -/
theorem inserts_total : ∀ {items : List QueueItem} {db : QueueDb},
    (∀ item ∈ items, item.sessionId = s) → (items.map QueueItem.itemId).Nodup →
      (∀ row ∈ db.rows s, row.itemId ∉ items.map QueueItem.itemId) →
      ∃ db', Effect.forEach QueueRepository.insert items db = (.ok (), db') ∧
        db'.rows s = db.rows s ++ items.map QueueItem.storage
  | [], db, _, _, _ => ⟨db, rfl, by simp⟩
  | item :: items, db, hs, hnodup, hnew => by
    rw [List.map_cons, List.nodup_cons] at hnodup
    have hsession := hs item (.head _)
    have hfirst : ∀ row ∈ db.rows item.sessionId, row.itemId ≠ item.itemId := fun row hrow hid =>
      hnew row (hsession ▸ hrow) (by simp [hid])
    obtain ⟨db₁, hinsert, hrows⟩ := insert_total hfirst
    rw [hsession] at hrows
    have hlater : ∀ row ∈ db₁.rows s, row.itemId ∉ items.map QueueItem.itemId := by
      intro row hrow
      rw [hrows, List.mem_append, List.mem_singleton] at hrow
      rcases hrow with hrow | rfl
      · exact fun hmem => hnew row hrow (.tail _ hmem)
      · exact hnodup.1
    obtain ⟨db₂, hrest, hrows₂⟩ := inserts_total (fun item hitem => hs item (.tail _ hitem))
      hnodup.2 hlater
    refine ⟨db₂, (Effect.bind_of_ok hinsert).trans hrest, ?_⟩
    rw [hrows₂, hrows, List.map_cons, List.append_assoc, List.singleton_append]

theorem holds_iff (rows : List QueueRow) : queueItemsConstraint.Holds rows ↔
    (rows.map fun row => (row.sessionId, row.itemId)).Nodup := by
  simp [queueItemsConstraint, Constraint.unique]

/-- An update of a row to an id no other row has. -/
theorem replaceItem_total {previous item : QueueItem} (hsession : item.sessionId = previous.sessionId)
    (hnew : ∀ row ∈ db.rows item.sessionId, row.itemId = item.itemId →
      row.itemId = previous.itemId) :
    ∃ db', replaceItem previous item db = (.ok (), db') := by
  have hkeys := (holds_iff _).1 db.items.holds
  have hinj := List.inj_on_of_nodup_map hkeys
  have hown : ∀ row ∈ db.items.rows, row.sessionId = item.sessionId → row.itemId = item.itemId →
      isRow previous.sessionId previous.itemId row = true := by
    intro row hrow hs hid
    simp [isRow, hs, hsession, hnew row (mem_rows.2 ⟨hrow, hs⟩) hid]
  have hholds : queueItemsConstraint.Holds (db.items.rows.map fun r =>
      if isRow previous.sessionId previous.itemId r then item.storage else r) := by
    rw [holds_iff, List.map_map]
    refine List.Nodup.map_on (fun x hx y hy hxy => ?_) hkeys.of_map
    simp only [Function.comp_apply] at hxy
    split_ifs at hxy with hxRow hyRow hyRow
    · simp only [isRow, Bool.and_eq_true, decide_eq_true_eq] at hxRow hyRow
      exact hinj hx hy (by rw [hxRow.1, hxRow.2, hyRow.1, hyRow.2])
    · obtain ⟨hs, hid⟩ := Prod.mk.inj hxy
      exact absurd (hown y hy hs.symm hid.symm) hyRow
    · obtain ⟨hs, hid⟩ := Prod.mk.inj hxy
      exact absurd (hown x hx hs hid) hxRow
    · exact hinj hx hy hxy
  unfold replaceItem Table.rewrite
  rw [dif_pos hholds]
  exact ⟨_, rfl⟩

/-- An upsert answers. -/
theorem write_total (item : QueueItem) (db : QueueDb) : ∃ db', write item db = (.ok (), db') := by
  unfold write
  split_ifs with hrow
  · exact replaceItem_total rfl fun _ _ h => h
  · have hnew : ∀ row ∈ db.rows item.sessionId, row.itemId ≠ item.itemId := fun row hmem hid =>
      hrow (List.any_eq_true.2 ⟨row, (mem_rows.1 hmem).1, by simp [isRow, (mem_rows.1 hmem).2, hid]⟩)
    obtain ⟨db', hinsert, -⟩ := insert_total hnew
    exact ⟨db', hinsert⟩

theorem reconcilePause_total (s : String) (db : QueueDb) :
    ∃ db', reconcilePause s db = (.ok (), db') := by
  have hread : pendingCount s db = (.ok (db.rows s).length, db) := rfl
  unfold reconcilePause
  rw [Effect.bind_of_ok hread]
  split_ifs
  · exact ⟨db, rfl⟩
  · exact ⟨_, rfl⟩

/-- A transaction answers what its body does. -/
theorem transaction_total {α : Type} {operation : QueueTransaction (CommittedQueueResult α)}
    {inner : CommittedQueueResult α} (h : operation db = (.ok inner, db')) :
    ∃ result db'', transaction s operation db = (.ok result, db'') ∧ result.value = inner.value ∧
      ∀ t, db''.rows t = db'.rows t := by
  obtain ⟨db₁, hreconcile⟩ := reconcilePause_total s db'
  have hbefore : pause s db = (.ok (db.pauses s), db) := rfl
  have hafter : pause s db₁ = (.ok (db₁.pauses s), db₁) := rfl
  have hvalue : (withPauseRemovalFact inner s ((db.pauses s).isSome &&
      !(db₁.pauses s).isSome)).value = inner.value := withPauseRemovalFact_value _ _
  refine ⟨_, db₁, ?_, hvalue, fun t => ?_⟩
  · unfold transaction Effect.atomically
    rw [Effect.bind_of_ok hbefore, Effect.bind_of_ok h, Effect.bind_of_ok hreconcile,
      Effect.bind_of_ok hafter]
    rfl
  · rw [QueueDb.rows, (reconcilePause_ok hreconcile).1]
    rfl

theorem transaction_throws {α : Type} {operation : QueueTransaction (CommittedQueueResult α)}
    {e : QueueError} (h : operation db = (.error e, db')) :
    transaction s operation db = (.error e, db) := by
  have hbefore : pause s db = (.ok (db.pauses s), db) := rfl
  unfold transaction Effect.atomically
  rw [Effect.bind_of_ok hbefore, Effect.bind_of_error h]

/-! ## The ids of the rows -/

/-- The id is a row's. -/
def HasRow (db : QueueDb) (s itemId : String) : Prop := ∃ row ∈ db.rows s, row.itemId = itemId

theorem QueueDb.Holds.hasRow {item : QueueItem} (h : db.Holds s item) : HasRow db s item.itemId := by
  obtain ⟨row, hrow, rfl | hdecoded⟩ := h
  · exact ⟨_, hrow, rfl⟩
  · exact ⟨row, hrow, (decodes_of_ok hdecoded).itemId.symm⟩

/-- The row of an item has its status. -/
theorem QueueDb.Holds.status {item : QueueItem} (h : db.Holds s item) {row : QueueRow}
    (hrow : row ∈ db.rows s) (hid : row.itemId = item.itemId) : row.status = item.status := by
  obtain ⟨other, hother, rfl | hdecoded⟩ := h
  · rw [row_unique hrow hother hid]
    rfl
  · rw [row_unique hrow hother (hid.trans (decodes_of_ok hdecoded).itemId)]
    exact (decodes_of_ok hdecoded).status.symm

/-- An item that no claimed row has the id of goes first. -/
theorem moveQueuedToFront_total {item : QueueItem} (hs : item.sessionId = s)
    (hdb : AllDecode db s)
    (hid : ∀ row ∈ db.rows s, row.itemId = item.itemId → row.status = .queued) :
    ∃ db', moveQueuedToFront item db = (.ok (), db') ∧ item.storage ∈ db'.rows s ∧
      ∀ id, HasRow db' s id ↔ id = item.itemId ∨ HasRow db s id := by
  subst hs
  obtain ⟨queued, hselect⟩ : ∃ queued, select item.sessionId (fun row => row.status = .queued) db =
    (.ok queued, db) := select_total hdb
  obtain ⟨hqueued, -⟩ := select_ok hselect
  have hids := forall₂_itemIds hqueued
  have hdelete : deleteRows item.sessionId (fun row => row.status = .queued) db =
    (.ok (), (deleteRows item.sessionId (fun row => row.status = .queued) db).2) := rfl
  have hmem : ∀ row, row ∈ (deleteRows item.sessionId (fun row => row.status = .queued) db).2.rows
      item.sessionId ↔ row ∈ db.rows item.sessionId ∧ row.status ≠ .queued := by
    intro row
    rw [mem_deleteRows, decide_eq_false_iff_not]
  have hqueuedId : ∀ id, id ∈ queued.map QueueItem.itemId ↔
      ∃ row ∈ db.rows item.sessionId, row.status = .queued ∧ row.itemId = id := by
    intro id
    simp only [hids, List.mem_map, List.mem_filter, decide_eq_true_eq, and_assoc]
  have hsessions : ∀ other ∈ item :: queued.filter (fun other => other.itemId ≠ item.itemId),
      other.sessionId = item.sessionId := by
    intro other hother
    rcases List.mem_cons.1 hother with rfl | hother
    · rfl
    · exact (present_of_forall₂ hqueued (List.mem_filter.1 hother).1).1.sessionId
  have hfirst : item.itemId ∉
      (queued.filter fun other => other.itemId ≠ item.itemId).map QueueItem.itemId := by
    simp only [List.mem_map, List.mem_filter, decide_eq_true_eq, not_exists, not_and]
    exact fun other hother hother' => hother.2 hother'
  have hnodup : ((item :: queued.filter fun other => other.itemId ≠ item.itemId).map
      QueueItem.itemId).Nodup := by
    rw [List.map_cons, List.nodup_cons]
    exact ⟨hfirst, (nodup_of_forall₂ hqueued).sublist (List.filter_sublist.map _)⟩
  have hnew : ∀ row ∈ (deleteRows item.sessionId (fun row => row.status = .queued) db).2.rows
      item.sessionId, row.itemId ∉
        (item :: queued.filter fun other => other.itemId ≠ item.itemId).map QueueItem.itemId := by
    intro row hrow hmemId
    obtain ⟨hold, hstatus⟩ := (hmem row).1 hrow
    rw [List.map_cons, List.mem_cons] at hmemId
    rcases hmemId with hrowId | hrowId
    · exact hstatus (hid row hold hrowId)
    · have hall := (List.filter_sublist.map QueueItem.itemId).subset hrowId
      obtain ⟨other, hother, hotherStatus, hotherId⟩ := (hqueuedId _).1 hall
      rw [row_unique hold hother hotherId.symm] at hstatus
      exact hstatus hotherStatus
  obtain ⟨db', hinserts, hrows⟩ := inserts_total hsessions hnodup hnew
  refine ⟨db', ?_, ?_, fun id => ?_⟩
  · have hselect' : rowsByStatus item.sessionId .queued db = (.ok queued, db) := hselect
    unfold moveQueuedToFront
    rw [Effect.bind_of_ok hselect', Effect.bind_of_ok hdelete]
    exact hinserts
  · rw [hrows]
    simp
  · have hstorage : ∀ other : QueueItem, other.storage.itemId = other.itemId := fun _ => rfl
    simp only [HasRow, hrows, List.mem_append, or_and_right, exists_or, hmem, List.map_cons,
      List.mem_cons, exists_eq_left, hstorage, List.mem_map, List.mem_filter]
    constructor
    · rintro (⟨row, ⟨hrow, -⟩, rfl⟩ | rfl | ⟨_, ⟨other, ⟨hother, -⟩, rfl⟩, rfl⟩)
      · exact .inr ⟨row, hrow, rfl⟩
      · exact .inl rfl
      · obtain ⟨row, hrow, -, hrowId⟩ := (hqueuedId _).1 (List.mem_map.2 ⟨other, hother, rfl⟩)
        exact .inr ⟨row, hrow, hrowId⟩
    · rintro (rfl | ⟨row, hrow, rfl⟩)
      · exact .inr (.inl rfl)
      · by_cases hstatus : row.status = .queued
        · obtain ⟨other, hother, hotherId⟩ :=
            List.mem_map.1 ((hqueuedId _).2 ⟨row, hrow, hstatus, rfl⟩)
          by_cases hsame : other.itemId = item.itemId
          · exact .inr (.inl (hsame.symm.trans hotherId))
          · exact .inr (.inr ⟨_, ⟨other, ⟨hother, by simpa using hsame⟩, rfl⟩, hotherId⟩)
        · exact .inl ⟨row, ⟨hrow, hstatus⟩, rfl⟩

/-! ## The parts of an enqueue -/

theorem hasRow_putRow {itemId : String} {item : QueueItem} {rows : List QueueRow}
    (hid : item.itemId = itemId) (id : String) :
    (∃ row ∈ putRow itemId item.storage rows, row.itemId = id) ↔ ∃ row ∈ rows, row.itemId = id := by
  have hstorage : item.storage.itemId = itemId := hid
  simp only [putRow, List.mem_map, exists_exists_and_eq_and]
  refine exists_congr fun row => and_congr_right fun _ => ?_
  split_ifs with hrow
  · rw [hstorage, hrow]
  · rfl

/-- An item that was found, with the Turn asked for. -/
theorem attachRequestedTurnId_total {found : QueueItem} {row : QueueRow} (turnId : Option String)
    (hdb : AllDecode db s) (hrow : row ∈ db.rows s) (hdecodes : Decodes row found) :
    ∃ existing db', attachRequestedTurnId found turnId db = (.ok existing, db') ∧
      existing.itemId = found.itemId ∧ existing.sessionId = s ∧ existing.status = found.status ∧
      db'.Holds s existing ∧ AllDecode db' s ∧ ∀ id, HasRow db' s id ↔ HasRow db s id := by
  obtain rfl : found.sessionId = s := hdecodes.sessionId.trans (mem_rows.1 hrow).2
  have hsame : ∃ existing db', (pure found : QueueTransaction QueueItem) db = (.ok existing, db') ∧
      existing.itemId = found.itemId ∧ existing.sessionId = found.sessionId ∧
      existing.status = found.status ∧ db'.Holds found.sessionId existing ∧
      AllDecode db' found.sessionId ∧
      ∀ id, HasRow db' found.sessionId id ↔ HasRow db found.sessionId id :=
    ⟨found, db, rfl, rfl, rfl, rfl, ⟨row, hrow, .inr hdecodes.decoded⟩, hdb, fun _ => Iff.rfl⟩
  rcases hturn : nonEmptyText turnId with _ | turn <;> simp only [attachRequestedTurnId, hturn]
  · exact hsame
  split_ifs
  · exact hsame
  have hsound := hdecodes.sound.withRequestedTurnId (some turn)
  obtain ⟨db', hwrite⟩ := write_total { found with requestedTurnId := some turn } db
  have hmem : QueueItem.storage { found with requestedTurnId := some turn } ∈
      db'.rows found.sessionId := mem_write hwrite
  have hrows : db'.rows found.sessionId = putRow found.itemId
      (QueueItem.storage { found with requestedTurnId := some turn }) (db.rows found.sessionId) := by
    have hwrote := (write_ok hwrite).rows
    rwa [if_pos (by exact ⟨row, hrow, hdecodes.itemId.symm⟩)] at hwrote
  refine ⟨{ found with requestedTurnId := some turn }, db',
    (Effect.bind_of_ok hwrite).trans rfl, rfl, rfl, rfl, ⟨_, hmem, .inl rfl⟩,
    fun row hrow => ?_, fun id => ?_⟩
  · rcases adds_write hwrite row hrow with hrow | rfl
    · exact hdb row hrow
    · exact ⟨_, (QueueItem.decode_storage _).2 hsound.readable⟩
  · rw [HasRow, hrows]
    exact hasRow_putRow (by rfl) id

/-- The end of an enqueue answers the item, which is a row. -/
theorem place_total {front : Bool} {item : QueueItem} {facts : List QueueCommittedFact}
    (hs : item.sessionId = s) (hitem : db.Holds s item)
    (hfront : front = true → AllDecode db s ∧ item.status = .queued) :
    ∃ result r db', (if front = true then
        moveQueuedToFront item >>= fun _ => enqueueResult item >>= fun r =>
          pure { value := some r, facts }
      else enqueueResult item >>= fun r => pure { value := some r, facts } :
        QueueTransaction (CommittedQueueResult (Option QueueEnqueueResult))) db = (.ok result, db') ∧
      result.value = some r ∧ r.item = item ∧ db'.Holds s item ∧
      ∀ id, HasRow db' s id ↔ HasRow db s id := by
  have hresult : ∀ db : QueueDb, ∃ r, enqueueResult item db = (.ok r, db) ∧ r.item = item :=
    fun db => ⟨_, rfl, (enqueueResult_ok rfl).2⟩
  split_ifs with hplaced
  · obtain ⟨hdb, hstatus⟩ := hfront hplaced
    obtain ⟨db', hmove, hmem, hids⟩ := moveQueuedToFront_total hs hdb fun row hrow hid =>
      (hitem.status hrow hid).trans hstatus
    obtain ⟨r, hr, hritem⟩ := hresult db'
    refine ⟨{ value := some r, facts }, r, db', ?_, rfl, hritem, ⟨_, hmem, .inl rfl⟩, fun id => ?_⟩
    · rw [Effect.bind_of_ok hmove, Effect.bind_of_ok hr]
      rfl
    · rw [hids]
      exact ⟨fun h => h.elim (fun h => h ▸ hitem.hasRow) fun h => h, .inr⟩
  · obtain ⟨r, hr, hritem⟩ := hresult db
    refine ⟨{ value := some r, facts }, r, db, ?_, rfl, hritem, hitem, fun _ => Iff.rfl⟩
    rw [Effect.bind_of_ok hr]
    rfl

section Enqueue

variable {input : QueueEnqueueInput}

/-- An enqueue that finds the item of its request answers it, and keeps the rows' ids. -/
theorem replayEnqueue_total {found : QueueItem} {row : QueueRow} (facts : List QueueCommittedFact)
    (hdb : AllDecode db input.sessionId) (hrow : row ∈ db.rows input.sessionId)
    (hdecodes : Decodes row found) (hfront : input.front = true → row.status = .queued) :
    ∃ result r db', replayEnqueue input found facts db = (.ok result, db') ∧ result.value = some r ∧
      db'.Holds input.sessionId r.item ∧
      ∀ id, HasRow db' input.sessionId id ↔ HasRow db input.sessionId id := by
  obtain ⟨existing, db₁, hattach, -, hsession, hstatus, hholds, hdb₁, hids⟩ :=
    attachRequestedTurnId_total input.requestedTurnId hdb hrow hdecodes
  obtain ⟨result, r, db', hplace, hr, hitem, hholds', hids'⟩ := place_total hsession
    hholds fun h => ⟨hdb₁, (hstatus.trans hdecodes.status).trans (hfront h)⟩
  refine ⟨result, r, db', (Effect.bind_of_ok hattach).trans hplace, hr, hitem ▸ hholds', fun id => ?_⟩
  rw [hids', hids]

/-- What a batch throws whose member names the claimed item of another message. -/
def identityChanged : QueueError := .typeError "Immediate-send member claim identity changed"

theorem settleBatchMemberClaim_total {nowMs : JsNumber} {member : JsValue}
    (hdb : AllDecode db s) :
    (∃ facts db', settleBatchMemberClaim s nowMs member db = (.ok facts, db')) ∨
    (db.ClaimIdentityChanged s member ∧
      ∃ db', settleBatchMemberClaim s nowMs member db = (.error identityChanged, db')) := by
  rcases hid : memberItemId member with _ | itemId <;> simp only [settleBatchMemberClaim, hid]
  · exact .inl ⟨[], db, rfl⟩
  obtain ⟨found, hfind⟩ : ∃ found, find s itemId db = (.ok found, db) := selectFirst_total hdb
  rw [Effect.bind_of_ok hfind]
  rcases found with _ | existing
  · exact .inl ⟨[], db, rfl⟩
  obtain ⟨-, row, hrow, hrowId, hdecodes⟩ := selectFirst_ok hfind
  rw [decide_eq_true_eq] at hrowId
  dsimp only
  split_ifs with hclaim hstatus hidentity
  · exact .inl ⟨[], db, rfl⟩
  · exact .inl ⟨[], db, rfl⟩
  · rcases huser : nonEmptyText existing.userMessageId with _ | id <;> rw [huser] at hidentity
    · cases hidentity
    refine .inr ⟨⟨row, hrow, existing, hdecodes.decoded, ?_, by simpa using hstatus, ?_, id, huser,
      by simpa using hidentity⟩, db, rfl⟩
    · rw [hid, hdecodes.itemId, hrowId]
    · simp only [Bool.and_eq_true, Bool.not_eq_true', ne_eq, decide_eq_true_eq, not_and,
        not_not] at hclaim
      by_cases hundefined : (member.get "queueClaim").isUndefined = true
      · exact .inl hundefined
      · exact .inr (hclaim (by simpa using hundefined))
  · exact .inl ⟨_, _, rfl⟩

theorem QueueDb.ClaimIdentityChanged.of_shrinks {member : JsValue} (h : Shrinks s db db')
    (hchanged : db'.ClaimIdentityChanged s member) : db.ClaimIdentityChanged s member := by
  obtain ⟨row, hrow, hrest⟩ := hchanged
  exact ⟨row, h row hrow, hrest⟩

theorem settleBatchMemberClaims_total {nowMs : JsNumber} :
    ∀ {members : List JsValue} {db : QueueDb}, AllDecode db s →
      (∃ facts db', Effect.gather (settleBatchMemberClaim s nowMs) members db = (.ok facts, db')) ∨
      ∃ member ∈ members, db.ClaimIdentityChanged s member ∧ ∃ db',
        Effect.gather (settleBatchMemberClaim s nowMs) members db = (.error identityChanged, db')
  | [], db, _ => .inl ⟨[], db, rfl⟩
  | member :: members, db, hdb => by
    have hfirst : (∃ facts db', settleBatchMemberClaim s nowMs member db = (.ok facts, db')) ∨ _ :=
      settleBatchMemberClaim_total hdb
    rcases hfirst with ⟨facts, db₁, hsettle⟩ | ⟨hchanged, db₁, hthrows⟩
    swap
    · exact .inr ⟨member, .head _, hchanged, db₁, Effect.bind_of_error hthrows⟩
    obtain ⟨-, hspares⟩ : Does (frontScope "") s _ db db₁ ∧ _ := settleBatchMemberClaim_does hsettle
    have hlater : (∃ facts db', Effect.gather (settleBatchMemberClaim s nowMs) members db₁ =
        (.ok facts, db')) ∨ _ :=
      settleBatchMemberClaims_total (hspares.shrinks.allDecode hdb)
    rcases hlater with ⟨rest, db₂, hrest⟩ | ⟨other, hother, hchanged, db₂, hthrows⟩
    · exact .inl ⟨facts :: rest, db₂,
        (Effect.bind_of_ok hsettle).trans ((Effect.bind_of_ok hrest).trans rfl)⟩
    · exact .inr ⟨other, .tail _ hother, hchanged.of_shrinks hspares.shrinks, db₂,
        (Effect.bind_of_ok hsettle).trans (Effect.bind_of_error hthrows)⟩

theorem restorableIdentity_total (hdb : AllDecode db input.sessionId) :
    ∃ restored db', restorableIdentity input db = (.ok restored, db') := by
  rcases hid : nonEmptyText input.itemId with _ | itemId <;> simp only [restorableIdentity, hid]
  · exact ⟨none, db, rfl⟩
  obtain ⟨found, hfind⟩ : ∃ found, find input.sessionId itemId db = (.ok found, db) :=
    selectFirst_total hdb
  rw [Effect.bind_of_ok hfind]
  rcases found with _ | existing
  · exact ⟨_, db, rfl⟩
  dsimp only
  split_ifs
  · exact ⟨_, db, rfl⟩
  · exact ⟨_, _, rfl⟩

theorem findReplaced_total (hdb : AllDecode db input.sessionId) :
    ∃ replaced, findReplaced input db = (.ok replaced, db) := by
  rcases hkey : nonEmptyText input.dedupeKey with _ | key <;> simp only [findReplaced, hkey]
  · exact ⟨none, rfl⟩
  · exact selectFirst_total hdb

/-- A new item is written, over the one it replaces or beside the others. -/
theorem writeEnqueued_total {item : QueueItem} {replaced : Option QueueItem}
    (hs : item.sessionId = input.sessionId) (hnew : ¬ HasRow db input.sessionId item.itemId)
    (hfind : findReplaced input db = (.ok replaced, db)) :
    ∃ db', writeEnqueued item replaced db = (.ok (), db') ∧
      item.storage ∈ db'.rows input.sessionId := by
  obtain ⟨-, hfound⟩ := findReplaced_ok hfind
  rcases replaced with _ | replaced
  · obtain ⟨db', hwrite⟩ := write_total item db
    exact ⟨db', hwrite, hs ▸ mem_write hwrite⟩
  · obtain ⟨row, hrow, hdecodes, -⟩ := hfound
    have hsession : item.sessionId = replaced.sessionId :=
      hs.trans (hdecodes.sessionId.trans (mem_rows.1 hrow).2).symm
    obtain ⟨db', hreplace⟩ := replaceItem_total hsession fun other hother hid =>
      absurd ⟨other, hs ▸ hother, hid⟩ hnew
    exact ⟨db', hreplace, hs ▸ mem_replaceItem hsession ⟨row, hs ▸ hrow, hdecodes.itemId.symm⟩ hreplace⟩

/-- An enqueue of a new item answers it, unless the batch names another message's claim. -/
theorem insertEnqueue_total {facts : List QueueCommittedFact}
    (hdb : AllDecode db input.sessionId) (hnew : ¬ HasRow db input.sessionId env.newItemId)
    (hread : input.front = true → ∀ itemId, itemId ≠ "" →
      (input.makeQueued itemId env.nowMs).Readable) (hid : env.newItemId ≠ "") :
    (∃ result r db', insertEnqueue env input env.nowMs facts db = (.ok result, db') ∧
      result.value = some r ∧ db'.Holds input.sessionId r.item) ∨
    (∃ member ∈ batchMembers input, db.ClaimIdentityChanged input.sessionId member ∧
      ∃ db', insertEnqueue env input env.nowMs facts db = (.error identityChanged, db')) := by
  have hsettle : ∀ {settled : List (List QueueCommittedFact)} {db' : QueueDb},
      Effect.gather (settleBatchMemberClaim input.sessionId env.nowMs) (batchMembers input) db =
        (.ok settled, db') →
      settleBatchMemberClaims input env.nowMs db = (.ok settled.flatten, db') :=
    fun h => (Effect.bind_of_ok h).trans rfl
  have hclaims : (∃ facts db', Effect.gather (settleBatchMemberClaim input.sessionId env.nowMs)
      (batchMembers input) db = (.ok facts, db')) ∨ _ := settleBatchMemberClaims_total hdb
  rcases hclaims with ⟨settled, db₁, hsettled⟩ | ⟨member, hmember, hchanged, db₁, hthrows⟩
  swap
  · exact .inr ⟨member, hmember, hchanged, db₁,
      Effect.bind_of_error (Effect.bind_of_error hthrows)⟩
  refine .inl ?_
  obtain ⟨-, hspares⟩ : Does (frontScope "") input.sessionId _ db db₁ ∧ _ :=
    settleBatchMemberClaims_does hsettled
  have hdb₁ := hspares.shrinks.allDecode hdb
  obtain ⟨restored, db₂, hrestored⟩ := restorableIdentity_total hdb₁
  obtain ⟨-, hspares', hrestoredId⟩ : Does (frontScope "") input.sessionId _ db₁ db₂ ∧ _ :=
    restorableIdentity_does env.nowMs hrestored
  have hdb₂ := hspares'.shrinks.allDecode hdb₁
  obtain ⟨replaced, hfind⟩ := findReplaced_total hdb₂
  have hitemId : ¬ HasRow db₂ input.sessionId ((restored.map Prod.fst).getD env.newItemId) ∧
      (restored.map Prod.fst).getD env.newItemId ≠ "" := by
    rcases restored with _ | r
    · exact ⟨fun ⟨row, hrow, hrowId⟩ => hnew ⟨row, hspares.shrinks row (hspares'.shrinks row hrow),
        hrowId⟩, hid⟩
    · exact ⟨fun ⟨row, hrow, hrowId⟩ => hrestoredId r.1 (by simp) row hrow hrowId,
        restorableIdentity_named hrestored r rfl⟩
  obtain ⟨item, hitem⟩ : ∃ item, item = input.makeQueued
    ((restored.map Prod.fst).getD env.newItemId) env.nowMs := ⟨_, rfl⟩
  have hsession : item.sessionId = input.sessionId := hitem ▸ rfl
  obtain ⟨db₃, hwrite, hmem⟩ := writeEnqueued_total hsession (hitem ▸ hitemId.1) hfind
  have hfront : input.front = true → AllDecode db₃ input.sessionId ∧ item.status = .queued := by
    refine fun hfront => ⟨fun row hrow => ?_, hitem ▸ rfl⟩
    have hreadable : item.Readable := hitem ▸ hread hfront _ hitemId.2
    have hleaves : Leaves (fun row => ∃ item, decodeQueueRow row = .ok item) input.sessionId
        (writeEnqueued item replaced) fun _ => True :=
      leaves_writeEnqueued ⟨_, item.decode_storage.2 hreadable⟩ replaced
    exact (hleaves _ _ _ hdb₂ hwrite).1 row hrow
  obtain ⟨result, r, db', hplace, hr, hritem, hholds, -⟩ :=
    place_total hsession ⟨_, hmem, .inl rfl⟩ hfront
  subst hitem
  exact ⟨result, r, db', (Effect.bind_of_ok (hsettle hsettled)).trans
    ((Effect.bind_of_ok hrestored).trans ((Effect.bind_of_ok hfind).trans
      ((Effect.bind_of_ok hwrite).trans hplace))), hr, hritem ▸ hholds⟩

theorem mem_itemIds_iff {itemId : String} : itemId ∈ db.itemIds s ↔ HasRow db s itemId := by
  rw [QueueDb.itemIds, QueueChange.mem_ids, QueueDb.entries]
  simp only [List.mem_map, exists_exists_and_eq_and]
  rfl

/-- The body of an enqueue that is to be taken: a replay keeps the ids of the rows that are not
expired, and a new item is a row. -/
theorem enqueueInTransaction_total (hdb : AllDecode db input.sessionId)
    (hinput : input.Admissible env db) (hid : env.newItemId ≠ "")
    (hnew : ¬ db.Clashes input.sessionId env.newItemId)
    (hread : input.front = true → ∀ itemId, itemId ≠ "" →
      (input.makeQueued itemId env.nowMs).Readable)
    (hslip : input.front = true → ∀ row ∈ db.rows input.sessionId, input.Repeats row →
      row.status = .queued) :
    (∃ result r db', enqueueInTransaction env input db = (.ok result, db') ∧
      result.value = some r ∧ db'.Holds input.sessionId r.item ∧
      ((∃ row ∈ db.rows input.sessionId, input.Repeats row ∧
        isExpiredRow env.nowMs row = false) → ∀ itemId, HasRow db' input.sessionId itemId ↔
        ∃ row ∈ db.rows input.sessionId, row.itemId = itemId ∧
          isExpiredRow env.nowMs row = false)) ∨
    ((∃ member ∈ batchMembers input, db.ClaimIdentityChanged input.sessionId member) ∧
      (¬ ∃ row ∈ db.rows input.sessionId, input.Repeats row ∧ isExpiredRow env.nowMs row = false) ∧
      ∃ db', enqueueInTransaction env input db = (.error identityChanged, db')) := by
  obtain ⟨expiredItems, hselect⟩ : ∃ items, select input.sessionId (isExpiredRow env.nowMs) db =
    (.ok items, db) := select_total hdb
  obtain ⟨db₁, facts, hexpire⟩ : ∃ db₁ facts, expire input.sessionId env.nowMs db =
      (.ok facts, db₁) :=
    ⟨_, _, (Effect.bind_of_ok ((Effect.bind_of_ok hselect).trans rfl)).trans rfl⟩
  have hfiltered := expire_filtered hexpire
  have hmem : ∀ row, row ∈ db₁.rows input.sessionId ↔
      row ∈ db.rows input.sessionId ∧ isExpiredRow env.nowMs row = false := by
    intro row
    rw [hfiltered, List.mem_filter, Bool.not_eq_true']
  have hrows : ∀ itemId, HasRow db₁ input.sessionId itemId ↔
      ∃ row ∈ db.rows input.sessionId, row.itemId = itemId ∧
        isExpiredRow env.nowMs row = false := by
    intro itemId
    simp only [HasRow, hmem, and_assoc, and_comm (a := isExpiredRow env.nowMs _ = false)]
  have hdb₁ := hfiltered.shrinks.allDecode hdb
  have hfront : ¬ (input.front && (nonEmptyText input.itemId).isNone &&
      (db₁.rows input.sessionId).any fun row => row.status = .claimed) = true := by
    simp only [Bool.and_eq_true, Option.isNone_iff_eq_none, List.any_eq_true, decide_eq_true_eq]
    rintro ⟨⟨hfront, hnone⟩, row, hrow, hclaimed⟩
    exact hinput.placed ⟨hfront, hnone, row, ((hmem row).1 hrow).1, hclaimed⟩
  have hclaimed : hasClaimed input.sessionId db₁ =
    (.ok ((db₁.rows input.sessionId).any fun row => row.status = .claimed), db₁) := rfl
  obtain ⟨found, hfind⟩ : ∃ found, findReplayed input db₁ = (.ok found, db₁) := by
    rcases hrequest : nonEmptyText input.clientRequestId with _ | request <;>
      simp only [findReplayed, hrequest]
    · exact ⟨none, rfl⟩
    · exact selectFirst_total hdb₁
  rcases found with _ | found
  · have hstart : enqueueInTransaction env input db =
        insertEnqueue env input env.nowMs facts db₁ := by
      unfold enqueueInTransaction
      rw [Effect.bind_of_ok hexpire, if_neg (by simp [hinput.live]), Effect.bind_of_ok hclaimed,
        if_neg hfront]
      exact Effect.bind_of_ok hfind
    rw [hstart]
    have hnone := (findReplayed_ok hfind).2
    have hrepeats : ¬ ∃ row ∈ db.rows input.sessionId, input.Repeats row ∧
        isExpiredRow env.nowMs row = false := by
      rintro ⟨row, hrow, ⟨request, hrequest, hrowRequest⟩, hexpired⟩
      exact hnone request hrequest row ((hmem row).2 ⟨hrow, hexpired⟩) hrowRequest
    have hnew₁ : ¬ HasRow db₁ input.sessionId env.newItemId := by
      rintro ⟨row, hrow, hrowId⟩
      exact hnew ⟨row, ((hmem row).1 hrow).1, hrowId⟩
    rcases insertEnqueue_total hdb₁ hnew₁ hread hid with
      ⟨result, r, db', hinsert, hr, hholds⟩ | ⟨member, hmember, hchanged, hthrows⟩
    · exact .inl ⟨result, r, db', hinsert, hr, hholds, fun h => absurd h hrepeats⟩
    · exact .inr ⟨⟨member, hmember, hchanged.of_shrinks hfiltered.shrinks⟩, hrepeats, hthrows⟩
  · have hstart : enqueueInTransaction env input db = replayEnqueue input found facts db₁ := by
      unfold enqueueInTransaction
      rw [Effect.bind_of_ok hexpire, if_neg (by simp [hinput.live]), Effect.bind_of_ok hclaimed,
        if_neg hfront]
      exact Effect.bind_of_ok hfind
    rw [hstart]
    obtain ⟨-, request, hrequest, row, hrow, hrowRequest, hdecodes⟩ := findReplayed_request hfind
    obtain ⟨result, r, db', hreplay, hr, hholds, hids⟩ := replayEnqueue_total facts hdb₁ hrow hdecodes
      fun h => hslip h row ((hmem row).1 hrow).1 ⟨request, hrequest, hrowRequest⟩
    exact .inl ⟨result, r, db', hreplay, hr, hholds, fun _ itemId => (hids itemId).trans (hrows itemId)⟩

/-- Over rows that decode an admissible enqueue answers an item that is a row, unless a member of its
batch names another message's claimed item; and one that repeats the request of a pending item leaves
the rows, less those that expired. Front placement is left out where the item made would not be read
back, or the one repeated is claimed. -/
theorem enqueue_taken {env : QueueEnvironment} {db : QueueDb} {input : QueueEnqueueInput}
    (hdb : ∀ row ∈ db.rows input.sessionId, ∃ item, decodeQueueRow row = .ok item)
    (hinput : input.Admissible env db) (hid : env.newItemId ≠ "")
    (hnew : ¬ db.Clashes input.sessionId env.newItemId)
    (hfront : input.front = true → (∀ itemId, itemId ≠ "" →
        ∃ item, decodeQueueRow (input.makeQueued itemId env.nowMs).storage = .ok item) ∧
      ∀ row ∈ db.rows input.sessionId, input.Repeats row → row.status = .queued) :
    ((∃ result r db', enqueue env input db = (.ok result, db') ∧ result.value = some r ∧
        db'.Holds input.sessionId r.item) ∨
      (∃ member ∈ batchMembers input, db.ClaimIdentityChanged input.sessionId member) ∧
        enqueue env input db =
          (.error (.typeError "Immediate-send member claim identity changed"), db)) ∧
    ((∃ row ∈ db.rows input.sessionId, input.Repeats row ∧ isExpiredRow env.nowMs row = false) →
      ∃ result db', enqueue env input db = (.ok result, db') ∧
        ∀ itemId, itemId ∈ db'.itemIds input.sessionId ↔
          ∃ row ∈ db.rows input.sessionId, row.itemId = itemId ∧
            isExpiredRow env.nowMs row = false) := by
  have hread : input.front = true → ∀ itemId, itemId ≠ "" →
      (input.makeQueued itemId env.nowMs).Readable := fun h itemId hne => by
    obtain ⟨item, hitem⟩ := (hfront h).1 itemId hne
    exact (QueueItem.eq_json_of_decode hitem).1
  have henqueue : enqueue env input = transaction input.sessionId (enqueueInTransaction env input) := by
    unfold enqueue mutationTransaction
    rw [if_pos hinput.valid, hinput.admitted]
  rw [henqueue]
  rcases enqueueInTransaction_total hdb hinput hid hnew hread fun h => (hfront h).2 with
    ⟨result, r, db₁, hbody, hr, hholds, hids⟩ | ⟨hchanged, hrepeats, db₁, hthrows⟩
  · obtain ⟨outer, db', htransaction, hvalue, hrows⟩ := transaction_total hbody
    refine ⟨.inl ⟨outer, r, db', htransaction, hvalue.trans hr, ?_⟩, fun h =>
      ⟨outer, db', htransaction, fun itemId => ?_⟩⟩
    · rw [QueueDb.Holds, hrows]
      exact hholds
    · rw [mem_itemIds_iff, ← hids h, HasRow, hrows]
      rfl
  · exact ⟨.inr ⟨hchanged, transaction_throws hthrows⟩, fun h => absurd h hrepeats⟩

end Enqueue

/-- A claim of the first item. -/
def sampleClaim : QueueClaimInput where
  sessionId := "s"
  itemId := none
  continuePaused := false
  excludeItemIds := []
  allowedSources := none
  nowMs := none

/-- A batch whose one member names the item with the id `a`, as the message `b`. -/
def renamingBatch : JsValue := .object [("id", .string "batch"), ("members", .array [.object [
  ("message", .object [("content", .string "hi"), ("attachments", .array [])]),
  ("userMessageId", .string "msg-user-v1-b"), ("sourceMessageId", .string "a"),
  ("messageKey", .string "key"), ("createdAt", .number (.finite 1)),
  ("provenance", .object [("source", .string "api"), ("routingFingerprint", .string "route")])]])]

/-- An admissible enqueue need not commit: a batch may name the claimed item of another message. -/
theorem enqueue_not_taken : ¬ ∀ es env input,
    QueueEnqueueInput.Admissible env (queueSystem.after queueSystem.initial es) input →
    ∃ result db', enqueue env input (queueSystem.after queueSystem.initial es) =
      (.ok result, db') := by
  intro h
  obtain ⟨result, db', hresult⟩ := h
    [(sampleEnvironment 1 "a" "c", .enqueue { sampleInput none none with
        userMessageId := some "msg-user-v1-a" }),
      (sampleEnvironment 2 "b" "d", .claimNext sampleClaim)]
    (sampleEnvironment 3 "b" "d") { sampleInput none none with immediateSendBatch := renamingBatch }
    ⟨by decide, by decide, rfl, fun hplaced => absurd hplaced.1 (by decide)⟩
  have hok : (enqueue _ _ _).1.isOk = true := congrArg (fun r => r.1.isOk) hresult
  revert hok
  decide

/-- A request repeated while its item is claimed. -/
theorem enqueue_taken_replayed :
    let env := sampleEnvironment 3 "b" "d"
    let db := queueSystem.after queueSystem.initial [(sampleEnvironment 1 "a" "c",
      .enqueue (sampleInput none (some "r"))), (sampleEnvironment 2 "b" "d", .claimNext sampleClaim)]
    ∃ result db', enqueue env (sampleInput none (some "r")) db = (.ok result, db') ∧
      ∀ itemId, itemId ∈ db'.itemIds "s" ↔ itemId = "a" := by
  intro env db
  obtain ⟨row, hrows, hdecodes, hid, hrequest⟩ : ∃ row, db.rows "s" = [row] ∧
      (∃ item, decodeQueueRow row = .ok item) ∧ row.itemId = "a" ∧
      (row.clientRequestId = some "r" ∧ isExpiredRow env.nowMs row = false) :=
    ⟨_, rfl, ⟨_, rfl⟩, rfl, rfl, rfl⟩
  have hall : ∀ p : QueueRow → Prop, p row → ∀ r ∈ db.rows "s", p r := by
    intro p hp r hr
    rw [hrows, List.mem_singleton] at hr
    exact hr ▸ hp
  have hmem : row ∈ db.rows "s" := by
    rw [hrows]
    exact .head _
  have hinput : (sampleInput none (some "r")).Admissible env db :=
    ⟨by decide, by decide, rfl, fun hplaced => absurd hplaced.1 (by decide)⟩
  have hnew : ¬ db.Clashes "s" env.newItemId := fun ⟨r, hr, hclash⟩ =>
    hall (fun r => r.itemId ≠ "b") (by rw [hid]; decide) r hr hclash
  obtain ⟨result, db', henqueue, hids⟩ := (enqueue_taken (hall _ hdecodes) hinput (by decide) hnew
    fun hfront => absurd hfront (by decide)).2 ⟨row, hmem, ⟨"r", rfl, hrequest.1⟩, hrequest.2⟩
  refine ⟨result, db', henqueue, fun itemId => (hids itemId).trans ?_⟩
  constructor
  · rintro ⟨r, hr, rfl, -⟩
    exact hall (fun r => r.itemId = "a") hid r hr
  · rintro rfl
    exact ⟨row, hmem, hid, hrequest.2⟩

end Kinetick
