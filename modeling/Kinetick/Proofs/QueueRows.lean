import Kinetick.Proofs.QueueCodec
import Kinetick.Queue.Entries

/-!
# What the statements of the Queue repository do to the rows

Each query answers decoded rows and each statement rewrites the rows of its Session alone, here as
changes of the Session's entries.
-/

namespace Kinetick

open QueueEntry QueueChange QueueRepository

/-! ## Decoded rows -/

/-- A row that decodes agrees with its columns. -/
structure Decodes (row : QueueRow) (item : QueueItem) : Prop where
  decoded : decodeQueueRow row = .ok item
  sessionId : item.sessionId = row.sessionId
  itemId : item.itemId = row.itemId
  status : item.status = row.status

theorem decodes_of_ok {row : QueueRow} {item : QueueItem} (h : decodeQueueRow row = .ok item) :
    Decodes row item := by
  have hd := h
  unfold decodeQueueRow at h
  split at h
  · split_ifs at h with hcolumns
    cases h
    exact ⟨hd, hcolumns.1, hcolumns.2.1, hcolumns.2.2.1⟩
  · cases h

/-- Stored rows decode to items of their entry. -/
theorem Decodes.entry {row : QueueRow} {item : QueueItem} (h : Decodes row item)
    (hstored : ∃ item, row = QueueItem.storage item) : item.entry = row.entry := by
  obtain ⟨item₀, rfl⟩ := hstored
  obtain ⟨-, rfl⟩ := QueueItem.eq_json_of_decode h.decoded
  rfl

theorem decodeRows_ok : ∀ {rows : List QueueRow} {items : List QueueItem},
    decodeRows rows = .ok items → List.Forall₂ Decodes rows items
  | [], items, h => by
    cases h
    exact .nil
  | row :: rows, items, h => by
    unfold decodeRows at h
    split at h <;> cases h
    rename_i item items hitem hitems
    exact .cons (decodes_of_ok hitem) (decodeRows_ok hitems)

theorem forall₂_itemIds {rows : List QueueRow} {items : List QueueItem}
    (h : List.Forall₂ Decodes rows items) :
    items.map QueueItem.itemId = rows.map QueueRow.itemId := by
  induction h with
  | nil => rfl
  | cons hd _ ih => simp [hd.itemId, ih]

theorem forall₂_entries {rows : List QueueRow} {items : List QueueItem}
    (h : List.Forall₂ Decodes rows items)
    (hstored : ∀ row ∈ rows, ∃ item, row = QueueItem.storage item) :
    items.map QueueItem.entry = rows.map QueueRow.entry := by
  induction h with
  | nil => rfl
  | cons hd _ ih =>
    have hrest := ih fun row h => hstored row (.tail _ h)
    simp [hd.entry (hstored _ (.head _)), hrest]

/-- Each decoded item is of one of the rows. -/
theorem exists_row_of_mem {rows : List QueueRow} {items : List QueueItem}
    (h : List.Forall₂ Decodes rows items) {item : QueueItem} (hitem : item ∈ items) :
    ∃ row ∈ rows, Decodes row item := by
  induction h with
  | nil => cases hitem
  | cons hd _ ih =>
    rcases List.mem_cons.1 hitem with rfl | hitem
    · exact ⟨_, .head _, hd⟩
    · obtain ⟨row, hrow, hdecodes⟩ := ih hitem
      exact ⟨row, .tail _ hrow, hdecodes⟩

/-! ## Queries -/

section Queries

variable {s : String} {p : QueueRow → Bool} {db db' : QueueDb}

theorem select_ok {items : List QueueItem} (h : select s p db = (.ok items, db')) :
    List.Forall₂ Decodes ((db.rows s).filter p) items ∧ db' = db := by
  obtain ⟨hitems, rfl⟩ := Prod.mk.inj h
  exact ⟨decodeRows_ok hitems, rfl⟩

theorem selectFirst_ok {item : Option QueueItem} (h : selectFirst s p db = (.ok item, db')) :
    db' = db ∧ match item with
      | none => ∀ row ∈ db.rows s, p row = false
      | some item => ∃ row ∈ db.rows s, p row = true ∧ Decodes row item := by
  unfold selectFirst at h
  split at h
  · rename_i hnone
    cases h
    exact ⟨rfl, by simpa using hnone⟩
  · rename_i row hrow
    obtain ⟨hitem, rfl⟩ := Prod.mk.inj h
    refine ⟨rfl, ?_⟩
    rcases hdecoded : decodeQueueRow row with e | decoded <;> rw [hdecoded] at hitem <;> cases hitem
    exact ⟨row, List.mem_of_find?_eq_some hrow, List.find?_some hrow, decodes_of_ok hdecoded⟩

end Queries

theorem mem_rows {db : QueueDb} {s : String} {row : QueueRow} :
    row ∈ db.rows s ↔ row ∈ db.items.rows ∧ row.sessionId = s := by
  simp [QueueDb.rows]

theorem QueueDb.Stored.rows {db : QueueDb} (h : db.Stored) {s : String} :
    ∀ row ∈ db.rows s, ∃ item, row = QueueItem.storage item :=
  fun row hrow => h row (mem_rows.1 hrow).1

/-- The ids of a Session's rows are distinct. -/
theorem nodup_rows (db : QueueDb) (s : String) : ((db.rows s).map QueueRow.itemId).Nodup := by
  have hsub : queueItemsConstraint.Holds (db.rows s) :=
    queueItemsConstraint.sublist List.filter_sublist db.items.holds
  have hkeys : ((db.rows s).map fun row => (row.sessionId, row.itemId)).Nodup := by
    simpa [queueItemsConstraint, Constraint.unique] using hsub
  have hpairs : ((db.rows s).map fun row => (row.sessionId, row.itemId)) =
      ((db.rows s).map QueueRow.itemId).map fun id => (s, id) := by
    rw [List.map_map]
    exact List.map_congr_left fun row hrow => by simp [(mem_rows.1 hrow).2]
  rw [hpairs] at hkeys
  exact hkeys.of_map _

theorem map_itemId_entries (db : QueueDb) (s : String) :
    (db.entries s).map QueueEntry.itemId = (db.rows s).map QueueRow.itemId := by
  simp [QueueDb.entries, QueueRow.entry, Function.comp_def]

/-- A row of the Session is known by its id. -/
theorem row_unique {db : QueueDb} {s : String} {a b : QueueRow} (ha : a ∈ db.rows s)
    (hb : b ∈ db.rows s) (h : a.itemId = b.itemId) : a = b :=
  List.inj_on_of_nodup_map (nodup_rows db s) ha hb h

/-! ## Statements -/

/-- The statements of a Session took one state to the other, by the changes of its entries. -/
structure Becomes (scope : QueueScope) (s : String) (changes : List QueueChange) (db db' : QueueDb) : Prop where
  steps : db.Stored → Steps scope (db.entries s) changes (db'.entries s)
  stored : db.Stored → db'.Stored
  others : ∀ t, t ≠ s → db'.rows t = db.rows t
  pauses : db'.pauses = db.pauses

section Statements

variable {scope : QueueScope} {s : String} {db db' db'' : QueueDb}

theorem Becomes.refl (scope : QueueScope) (s : String) (db : QueueDb) : Becomes scope s [] db db :=
  ⟨fun _ => rfl, fun h => h, fun _ _ => rfl, rfl⟩

theorem Becomes.trans {cs ds : List QueueChange} (h : Becomes scope s cs db db')
    (h' : Becomes scope s ds db' db'') : Becomes scope s (cs ++ ds) db db'' where
  steps hdb := (steps_append _ _ _ _ _).2 ⟨_, h.steps hdb, h'.steps (h.stored hdb)⟩
  stored hdb := h'.stored (h.stored hdb)
  others t ht := (h'.others t ht).trans (h.others t ht)
  pauses := h'.pauses.trans h.pauses

theorem rows_deleteRows (s : String) (p : QueueRow → Bool) (db : QueueDb) (t : String) :
    (deleteRows s p db).2.rows t =
      if t = s then (db.rows t).filter fun row => !p row else db.rows t := by
  simp only [deleteRows, Effect.change_apply, QueueDb.rows, Table.rows_delete, List.filter_filter]
  split_ifs with hts
  · subst hts
    refine List.filter_congr fun row _ => ?_
    by_cases hrow : row.sessionId = t <;> simp [hrow]
  · refine List.filter_congr fun row _ => ?_
    by_cases hrow : row.sessionId = t
    · simp [hrow, hts]
    · simp [hrow]

theorem stored_deleteRows (s : String) (p : QueueRow → Bool) {db : QueueDb} (h : db.Stored) :
    (deleteRows s p db).2.Stored := by
  intro row hrow
  simp only [deleteRows, Effect.change_apply, Table.rows_delete, List.mem_filter] at hrow
  exact h row hrow.1

/-- Removing entries one after the other leaves those of other ids. -/
theorem steps_removed (scope : QueueScope) (l : List QueueEntry) {ids : List String} (hnodup : ids.Nodup)
    (hids : ∀ id ∈ ids, ∃ e ∈ l, e.itemId = id) :
    Steps scope l (ids.map removed) (l.filter fun e => e.itemId ∉ ids) := by
  induction ids generalizing l with
  | nil => simp [Steps]
  | cons id ids ih =>
    rw [List.nodup_cons] at hnodup
    refine ⟨hids id (.head _), ?_⟩
    have hrest := ih ((removed id).apply l) hnodup.2 fun id' hid' => by
      obtain ⟨e, he, rfl⟩ := hids id' (.tail _ hid')
      refine ⟨e, List.mem_filter.2 ⟨he, ?_⟩, rfl⟩
      have hne : e.itemId ≠ id := fun h => hnodup.1 (h ▸ hid')
      simpa using hne
    have heq : ((removed id).apply l).filter (fun e => e.itemId ∉ ids) =
        l.filter fun e => e.itemId ∉ id :: ids := by
      rw [QueueChange.apply, List.filter_filter]
      refine List.filter_congr fun e _ => ?_
      simp [not_or, Bool.and_comm]
    rwa [heq] at hrest

/-- Deleting some rows removes their entries. -/
theorem becomes_deleteRows (p : QueueRow → Bool) :
    Becomes scope s (((db.rows s).filter p).map fun row => removed row.itemId) db
      (deleteRows s p db).2 where
  steps _ := by
    have hnodup : (((db.rows s).filter p).map QueueRow.itemId).Nodup :=
      (nodup_rows db s).sublist (List.filter_sublist.map _)
    have hsteps := steps_removed scope (db.entries s) hnodup fun id hid => by
      obtain ⟨row, hrow, rfl⟩ := List.mem_map.1 hid
      exact ⟨row.entry, List.mem_map.2 ⟨row, (List.mem_filter.1 hrow).1, rfl⟩, rfl⟩
    rw [List.map_map] at hsteps
    have heq : (db.entries s).filter
        (fun e => e.itemId ∉ ((db.rows s).filter p).map QueueRow.itemId) =
          (deleteRows s p db).2.entries s := by
      rw [QueueDb.entries, QueueDb.entries, rows_deleteRows, if_pos rfl, List.filter_map]
      refine congrArg _ (List.filter_congr fun row hrow => ?_)
      have hiff : row.itemId ∈ ((db.rows s).filter p).map QueueRow.itemId ↔ p row = true := by
        constructor
        · intro h
          obtain ⟨other, hother, hid⟩ := List.mem_map.1 h
          obtain ⟨hmem, hp⟩ := List.mem_filter.1 hother
          rwa [row_unique hrow hmem hid.symm]
        · exact fun h => List.mem_map.2 ⟨row, List.mem_filter.2 ⟨hrow, h⟩, rfl⟩
      have hentry : row.entry.itemId = row.itemId := rfl
      simp only [Function.comp_apply, hentry, hiff]
      cases p row <;> rfl
    rwa [heq] at hsteps
  stored := stored_deleteRows s p
  others t ht := by rw [rows_deleteRows, if_neg ht]
  pauses := rfl

/-- What a statement that writes a row leaves. -/
structure Wrote (s : String) (rows : List QueueRow) (db db' : QueueDb) : Prop where
  rows : db'.rows s = rows
  stored : db.Stored → db'.Stored
  others : ∀ t, t ≠ s → db'.rows t = db.rows t
  pauses : db'.pauses = db.pauses

theorem insert_ok {item : QueueItem} (h : QueueRepository.insert item db = (.ok (), db')) :
    Wrote item.sessionId (db.rows item.sessionId ++ [item.storage]) db db' ∧
      ∀ row ∈ db.rows item.sessionId, row.itemId ≠ item.itemId := by
  unfold QueueRepository.insert at h
  split at h <;> cases h
  rename_i items hitems
  have hrows := Table.insert_eq_some hitems
  have hsession : item.storage.sessionId = item.sessionId := rfl
  refine ⟨⟨?_, ?_, ?_, rfl⟩, ?_⟩
  · simp [QueueDb.rows, hrows, hsession]
  · intro hdb row hrow
    rw [hrows, List.mem_append, List.mem_singleton] at hrow
    exact hrow.elim (hdb row) fun h => ⟨item, h⟩
  · intro t ht
    simp [QueueDb.rows, hrows, hsession, Ne.symm ht]
  · intro row hrow hid
    have hholds := items.holds
    rw [hrows] at hholds
    have hnew := (Constraint.unique_append.1 hholds).2 (item.sessionId, item.itemId) rfl row
      (mem_rows.1 hrow).1
    exact hnew (by rw [(mem_rows.1 hrow).2, hid])

/-- Rewrites the rows of an id. -/
def putRow (itemId : String) (row : QueueRow) (rows : List QueueRow) : List QueueRow :=
  rows.map fun r => if r.itemId = itemId then row else r

theorem replaceItem_ok {previous item : QueueItem} (hsession : item.sessionId = previous.sessionId)
    (h : replaceItem previous item db = (.ok (), db')) :
    Wrote item.sessionId (putRow previous.itemId item.storage (db.rows item.sessionId)) db db' := by
  unfold replaceItem at h
  split at h <;> cases h
  rename_i items hitems
  have hrows := Table.rewrite_eq_some hitems
  have hstorage : item.storage.sessionId = item.sessionId := rfl
  have hfilter : ∀ t, (items.rows.filter fun row => row.sessionId = t) =
      (db.rows t).map fun r => if isRow previous.sessionId previous.itemId r then item.storage
        else r := by
    intro t
    rw [hrows, List.filter_map]
    refine congrArg _ (List.filter_congr fun row _ => ?_)
    simp only [Function.comp_apply]
    split_ifs with hrow
    · simp only [isRow, Bool.and_eq_true, decide_eq_true_eq] at hrow
      rw [hstorage, hsession, hrow.1]
    · rfl
  refine ⟨?_, ?_, ?_, rfl⟩
  · rw [QueueDb.rows, hfilter, putRow]
    refine List.map_congr_left fun row hrow => ?_
    simp [isRow, (mem_rows.1 hrow).2, hsession]
  · intro hdb row hrow
    rw [hrows] at hrow
    obtain ⟨old, hold, rfl⟩ := List.mem_map.1 hrow
    split_ifs
    · exact ⟨item, rfl⟩
    · exact hdb old hold
  · intro t ht
    rw [QueueDb.rows, hfilter]
    refine (List.map_congr_left fun row hrow => ?_).trans (List.map_id _)
    have hne : row.sessionId ≠ previous.sessionId := by
      rw [(mem_rows.1 hrow).2, ← hsession]
      exact ht
    simp [isRow, hne]

theorem write_ok {item : QueueItem} (h : write item db = (.ok (), db')) :
    Wrote item.sessionId
      (if ∃ row ∈ db.rows item.sessionId, row.itemId = item.itemId then
        putRow item.itemId item.storage (db.rows item.sessionId)
      else db.rows item.sessionId ++ [item.storage]) db db' := by
  have hany : db.items.rows.any (isRow item.sessionId item.itemId) = true ↔
      ∃ row ∈ db.rows item.sessionId, row.itemId = item.itemId := by
    simp [isRow, mem_rows, and_assoc]
  unfold write at h
  by_cases hrow : ∃ row ∈ db.rows item.sessionId, row.itemId = item.itemId
  · rw [if_pos (hany.2 hrow)] at h
    rw [if_pos hrow]
    exact replaceItem_ok rfl h
  · rw [if_neg (mt hany.1 hrow)] at h
    rw [if_neg hrow]
    exact (insert_ok h).1

theorem entries_putRow (itemId : String) (item : QueueItem) (rows : List QueueRow) :
    (putRow itemId item.storage rows).map QueueRow.entry =
      mapAt itemId (fun _ => item.entry) (rows.map QueueRow.entry) := by
  simp only [putRow, mapAt, List.map_map]
  refine List.map_congr_left fun row _ => ?_
  have hentry : row.entry.itemId = row.itemId := rfl
  by_cases hid : row.itemId = itemId
  · simp [hid, hentry, QueueItem.entry]
  · simp [hid, hentry]

/-- A write is the change of its entry. -/
theorem entries_write {item : QueueItem} (h : write item db = (.ok (), db')) :
    db'.entries item.sessionId = (enqueued item.entry).apply (db.entries item.sessionId) := by
  have hiff : (∃ e ∈ db.entries item.sessionId, e.itemId = item.entry.itemId) ↔
      ∃ row ∈ db.rows item.sessionId, row.itemId = item.itemId := by
    simp [QueueDb.entries, QueueRow.entry, QueueItem.entry, QueueItem.storage]
  rw [QueueDb.entries, (write_ok h).rows, QueueChange.apply]
  by_cases hrow : ∃ row ∈ db.rows item.sessionId, row.itemId = item.itemId
  · rw [if_pos hrow, if_pos (hiff.2 hrow)]
    exact entries_putRow _ _ _
  · rw [if_neg hrow, if_neg (mt hiff.1 hrow)]
    simp [QueueDb.entries, QueueItem.entry]

/-- Where the entry of the id is known, it is rewritten as it. -/
theorem mapAt_of_mem {l : List QueueEntry} (hnodup : (l.map QueueEntry.itemId).Nodup)
    {e : QueueEntry} (he : e ∈ l) (f : QueueEntry → QueueEntry) :
    mapAt e.itemId (fun _ => f e) l = mapAt e.itemId f l := by
  refine List.map_congr_left fun x hx => ?_
  split_ifs with hid
  · rw [List.inj_on_of_nodup_map hnodup hx he hid]
  · rfl

theorem mapAt_id (itemId : String) (l : List QueueEntry) : mapAt itemId id l = l := by
  refine (List.map_congr_left fun x _ => ?_).trans (List.map_id _)
  split_ifs <;> rfl

theorem nodup_entries (db : QueueDb) (s : String) :
    ((db.entries s).map QueueEntry.itemId).Nodup := by
  rw [map_itemId_entries]
  exact nodup_rows db s

/-- A write over an entry of its id rewrites it. -/
theorem entries_write_of_mem {item : QueueItem} (h : write item db = (.ok (), db'))
    {e : QueueEntry} (he : e ∈ db.entries item.sessionId) (f : QueueEntry → QueueEntry)
    (hf : item.entry = f e) (hid : (f e).itemId = e.itemId) :
    db'.entries item.sessionId = mapAt e.itemId f (db.entries item.sessionId) := by
  rw [entries_write h, hf, QueueChange.apply, if_pos ⟨e, he, hid.symm⟩, hid]
  exact mapAt_of_mem (nodup_entries db _) he f

/-- A write that keeps the entry changes nothing. -/
theorem becomes_edit {item : QueueItem} (hs : item.sessionId = s)
    (h : write item db = (.ok (), db')) (hmem : db.Stored → item.entry ∈ db.entries s) :
    Becomes scope s [] db db' where
  steps hdb := by
    subst hs
    exact (entries_write_of_mem h (hmem hdb) id rfl rfl).trans (mapAt_id _ _)
  stored := (write_ok h).stored
  others t ht := (write_ok h).others t (hs ▸ ht)
  pauses := (write_ok h).pauses

/-- A write that claims the entry. -/
theorem becomes_claim {item : QueueItem} (hs : item.sessionId = s)
    (h : write item db = (.ok (), db')) (hmem : db.Stored → ∃ e ∈ db.entries s,
      e.status = .queued ∧ item.entry = { e with status := .claimed })
    (hqueued : ∀ e ∈ db.entries s, e.status = .queued) :
    Becomes scope s [claimed item.itemId] db db' where
  steps hdb := by
    subst hs
    obtain ⟨e, he, hstatus, hentry⟩ := hmem hdb
    have hid : item.itemId = e.itemId := congrArg QueueEntry.itemId hentry
    refine ⟨⟨⟨e, he, hid.symm, hstatus⟩, hqueued⟩, ?_⟩
    rw [hid]
    exact entries_write_of_mem h he (fun e => { e with status := .claimed }) hentry rfl
  stored := (write_ok h).stored
  others t ht := (write_ok h).others t (hs ▸ ht)
  pauses := (write_ok h).pauses

/-- A write that releases the entry. -/
theorem becomes_release {item : QueueItem} (hs : item.sessionId = s)
    (h : write item db = (.ok (), db')) (hmem : db.Stored → ∃ e ∈ db.entries s,
      e.status = .claimed ∧ item.entry = { e with status := .queued } ∧
      ((∃ e' ∈ db.entries s, e'.itemId ≠ item.itemId ∧ e'.dedupeKey = e.dedupeKey ∧
        e.dedupeKey ≠ none) → scope.duplicates)) :
    Becomes scope s [released item.itemId] db db' where
  steps hdb := by
    subst hs
    obtain ⟨e, he, hstatus, hentry, hduplicates⟩ := hmem hdb
    have hid : item.itemId = e.itemId := congrArg QueueEntry.itemId hentry
    refine ⟨⟨e, he, hid.symm, hstatus, hduplicates⟩, ?_⟩
    rw [hid]
    exact entries_write_of_mem h he (fun e => { e with status := .queued }) hentry rfl
  stored := (write_ok h).stored
  others t ht := (write_ok h).others t (hs ▸ ht)
  pauses := (write_ok h).pauses

/-- A write of a new item. -/
theorem becomes_enqueue {item : QueueItem} (hs : item.sessionId = s)
    (h : write item db = (.ok (), db'))
    (hallowed : db.Stored → (enqueued item.entry).Allowed scope (db.entries s)) :
    Becomes scope s [enqueued item.entry] db db' where
  steps hdb := by
    subst hs
    exact ⟨hallowed hdb, entries_write h⟩
  stored := (write_ok h).stored
  others t ht := (write_ok h).others t (hs ▸ ht)
  pauses := (write_ok h).pauses

/-- An update of every column of a queued row. -/
theorem becomes_replace {previous item : QueueItem} (hs : item.sessionId = s)
    (hsession : item.sessionId = previous.sessionId)
    (h : replaceItem previous item db = (.ok (), db'))
    (hallowed : db.Stored → item.entry.status = .queued ∧ NewRequest (db.entries s) item.entry ∧
      ∃ e ∈ db.entries s, e.itemId = previous.itemId ∧ e.status = .queued ∧
        e.dedupeKey = item.entry.dedupeKey) :
    Becomes scope s [replaced previous.itemId item.entry] db db' where
  steps hdb := by
    subst hs
    obtain ⟨hqueued, hrequest, e, he, hid, hstatus, hkey⟩ := hallowed hdb
    have hentries : db'.entries item.sessionId =
        mapAt previous.itemId (fun _ => item.entry) (db.entries item.sessionId) := by
      rw [QueueDb.entries, (replaceItem_ok hsession h).rows]
      exact entries_putRow _ _ _
    refine ⟨⟨hqueued, hrequest, ⟨e, he, hid, hstatus, hkey⟩, ?_⟩, hentries⟩
    -- The unique index of the rows that are left refuses an id another row has.
    by_cases hsame : item.entry.itemId = previous.itemId
    · exact .inl hsame
    · refine .inr fun x hx hxid => ?_
      have hnodup := nodup_entries db' item.sessionId
      rw [hentries] at hnodup
      have hinj := List.inj_on_of_nodup_map (f := fun e : QueueEntry => if e.itemId = previous.itemId
        then item.entry.itemId else e.itemId) (l := db.entries item.sessionId) ?_ hx he ?_
      · rw [hinj, hid] at hxid
        exact hsame hxid.symm
      · have hmap : (mapAt previous.itemId (fun _ => item.entry)
            (db.entries item.sessionId)).map QueueEntry.itemId =
            (db.entries item.sessionId).map fun e => if e.itemId = previous.itemId
              then item.entry.itemId else e.itemId := by
          rw [mapAt, List.map_map]
          refine List.map_congr_left fun e _ => ?_
          simp only [Function.comp_apply]
          split_ifs <;> rfl
        rwa [hmap] at hnodup
      · simp [hid, hxid]
  stored := (replaceItem_ok hsession h).stored
  others t ht := (replaceItem_ok hsession h).others t (hs ▸ ht)
  pauses := (replaceItem_ok hsession h).pauses

end Statements

end Kinetick
