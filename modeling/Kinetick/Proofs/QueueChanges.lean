import Kinetick.Proofs.QueueRows

/-!
# The changes behind the facts

Every step of an operation does to the entries what its facts say: `Does` couples the facts of a
step with the changes of the entries they are the ledger of, and composes in sequence.
-/

namespace Kinetick

open QueueEntry QueueChange QueueRepository

/-- The facts are the ledger of the changes, for the Session alone, and none is of its pause. -/
structure Logs (s : String) (facts : List QueueCommittedFact) (changes : List QueueChange) :
    Prop where
  ledger : ∀ t, facts.flatMap (QueueCommittedFact.ledger t) =
    if t = s then changes.flatMap QueueChange.ledger else []
  noState : ∀ t p, .executionStateChanged t p ∉ facts

theorem Logs.append {s : String} {f g : List QueueCommittedFact} {cs ds : List QueueChange}
    (h : Logs s f cs) (h' : Logs s g ds) : Logs s (f ++ g) (cs ++ ds) where
  ledger t := by
    rw [List.flatMap_append, List.flatMap_append, h.ledger, h'.ledger]
    split_ifs <;> simp
  noState t p hmem := (List.mem_append.1 hmem).elim (h.noState t p) (h'.noState t p)

theorem logs_nil (s : String) : Logs s [] [] := ⟨fun t => by simp, fun t p => by simp⟩

theorem logs_removal {s : String} (reason : QueueRemovalReason) (nowMs : JsNumber)
    (admissionReason : Option String) {item : QueueItem} (h : item.sessionId = s) :
    Logs s [removalFact reason nowMs admissionReason item] [removed item.itemId] where
  ledger t := by
    by_cases ht : t = s
    · simp [removalFact, QueueCommittedFact.ledger, QueueChange.ledger, h, ht]
    · simp [removalFact, QueueCommittedFact.ledger, h, ht, Ne.symm ht]
  noState t p := by simp [removalFact]

theorem logs_removals {s : String} (reason : QueueRemovalReason) (nowMs : JsNumber)
    (admissionReason : Option String) :
    ∀ {items : List QueueItem}, (∀ item ∈ items, item.sessionId = s) →
      Logs s (items.map (removalFact reason nowMs admissionReason))
        (items.map fun item => removed item.itemId)
  | [], _ => logs_nil s
  | _ :: _, h => (logs_removal reason nowMs admissionReason (h _ (.head _))).append
      (logs_removals reason nowMs admissionReason fun item hitem => h item (.tail _ hitem))

/-- A step of an operation and its facts. -/
def Does (scope : QueueScope) (s : String) (facts : List QueueCommittedFact) (db db' : QueueDb) : Prop :=
  ∃ changes, Becomes scope s changes db db' ∧ Logs s facts changes

section Steps

variable {scope : QueueScope} {s : String} {db db' db'' : QueueDb}

theorem Does.refl (scope : QueueScope) (s : String) (db : QueueDb) : Does scope s [] db db :=
  ⟨[], .refl scope s db, logs_nil s⟩

theorem Does.trans {f g : List QueueCommittedFact} (h : Does scope s f db db') (h' : Does scope s g db' db'') :
    Does scope s (f ++ g) db db'' := by
  obtain ⟨cs, hcs, hf⟩ := h
  obtain ⟨ds, hds, hg⟩ := h'
  exact ⟨cs ++ ds, hcs.trans hds, hf.append hg⟩

theorem Does.stored {f : List QueueCommittedFact} (h : Does scope s f db db') (hdb : db.Stored) :
    db'.Stored := by
  obtain ⟨cs, hcs, -⟩ := h
  exact hcs.stored hdb

/-- A step that commits no fact. -/
theorem Becomes.does (h : Becomes scope s [] db db') : Does scope s [] db db' := ⟨[], h, logs_nil s⟩

/-! ## Deleting -/

/-- The decoded item is of a row of the Session. -/
def Present (s : String) (db : QueueDb) (item : QueueItem) : Prop :=
  ∃ row ∈ db.rows s, Decodes row item

theorem Present.sessionId {item : QueueItem} (h : Present s db item) : item.sessionId = s := by
  obtain ⟨row, hrow, hdecodes⟩ := h
  rw [hdecodes.sessionId, (mem_rows.1 hrow).2]

theorem Present.entry {item : QueueItem} (h : Present s db item) (hdb : db.Stored) :
    item.entry ∈ db.entries s := by
  obtain ⟨row, hrow, hdecodes⟩ := h
  rw [hdecodes.entry (hdb.rows row hrow)]
  exact List.mem_map.2 ⟨row, hrow, rfl⟩

theorem present_of_forall₂ {p : QueueRow → Bool} {items : List QueueItem}
    (h : List.Forall₂ Decodes ((db.rows s).filter p) items) {item : QueueItem} (hitem : item ∈ items) :
    Present s db item ∧ ∃ row ∈ db.rows s, p row = true ∧ Decodes row item := by
  obtain ⟨row, hrow, hdecodes⟩ := exists_row_of_mem h hitem
  obtain ⟨hmem, hp⟩ := List.mem_filter.1 hrow
  exact ⟨⟨row, hmem, hdecodes⟩, row, hmem, hp, hdecodes⟩

/-- Deleting the rows of decoded items removes them. -/
theorem becomes_delete_selected {p : QueueRow → Bool} {items : List QueueItem}
    (h : List.Forall₂ Decodes ((db.rows s).filter p) items) :
    Becomes scope s (items.map fun item => removed item.itemId) db (deleteRows s p db).2 := by
  have hrows : Becomes scope s _ db (deleteRows s p db).2 := becomes_deleteRows p
  have hids := congrArg (List.map removed) (forall₂_itemIds h)
  rw [List.map_map, List.map_map] at hids
  have heq : (items.map fun item => removed item.itemId) =
      ((db.rows s).filter p).map fun row => removed row.itemId := hids
  rwa [heq]

theorem does_delete_selected {p : QueueRow → Bool} {items : List QueueItem}
    (reason : QueueRemovalReason) (nowMs : JsNumber)
    (h : List.Forall₂ Decodes ((db.rows s).filter p) items) :
    Does scope s (items.map (removalFact reason nowMs none)) db (deleteRows s p db).2 :=
  ⟨_, becomes_delete_selected h,
    logs_removals _ _ _ fun _ hitem => (present_of_forall₂ h hitem).1.sessionId⟩

theorem deleteRows_ok {p : QueueRow → Bool} (h : deleteRows s p db = (.ok (), db')) :
    db' = (deleteRows s p db).2 := by
  rw [h]

theorem expire_does {nowMs : JsNumber} {facts : List QueueCommittedFact}
    (h : expire s nowMs db = (.ok facts, db')) : Does scope s facts db db' := by
  obtain ⟨items, db₁, hdeleted, hfacts⟩ := Effect.bind_ok h
  obtain ⟨rfl, rfl⟩ := Effect.pure_ok hfacts
  obtain ⟨selected, db₂, hselect, hdelete⟩ := Effect.bind_ok hdeleted
  obtain ⟨hitems, rfl⟩ := select_ok hselect
  obtain ⟨⟨⟩, db₃, hdelete', hpure⟩ := Effect.bind_ok hdelete
  obtain ⟨rfl, rfl⟩ := Effect.pure_ok hpure
  rw [deleteRows_ok hdelete']
  exact does_delete_selected _ _ hitems

/-- Deleting leaves the rows that are not matched. -/
theorem mem_deleteRows {p : QueueRow → Bool} {row : QueueRow} :
    row ∈ (deleteRows s p db).2.rows s ↔ row ∈ db.rows s ∧ p row = false := by
  rw [rows_deleteRows, if_pos rfl, List.mem_filter, Bool.not_eq_true']

/-- The rows of the Session are those it had in `p`. -/
def Filtered (s : String) (p : QueueRow → Bool) (db db' : QueueDb) : Prop :=
  db'.rows s = (db.rows s).filter p

/-- The rows of the Session are among those it had. -/
def Shrinks (s : String) (db db' : QueueDb) : Prop := ∀ row ∈ db'.rows s, row ∈ db.rows s

theorem Filtered.shrinks {p : QueueRow → Bool} (h : Filtered s p db db') : Shrinks s db db' := by
  intro row hrow
  rw [h] at hrow
  exact (List.mem_filter.1 hrow).1

theorem filtered_deleteRows {p : QueueRow → Bool} :
    Filtered s (fun row => !p row) db (deleteRows s p db).2 := by
  rw [Filtered, rows_deleteRows, if_pos rfl]

theorem expire_filtered {nowMs : JsNumber} {facts : List QueueCommittedFact}
    (h : expire s nowMs db = (.ok facts, db')) :
    Filtered s (fun row => !isExpiredRow nowMs row) db db' := by
  obtain ⟨items, db₁, hdeleted, hfacts⟩ := Effect.bind_ok h
  obtain ⟨rfl, rfl⟩ := Effect.pure_ok hfacts
  obtain ⟨selected, db₂, hselect, hdelete⟩ := Effect.bind_ok hdeleted
  obtain ⟨-, rfl⟩ := select_ok hselect
  obtain ⟨⟨⟩, db₃, hdelete', hpure⟩ := Effect.bind_ok hdelete
  obtain ⟨rfl, rfl⟩ := Effect.pure_ok hpure
  rw [deleteRows_ok hdelete']
  exact filtered_deleteRows

theorem becomes_deleteItem {item : QueueItem} (hitem : Present s db item) :
    Becomes scope s [removed item.itemId] db (deleteItem s item.itemId db).2 := by
  obtain ⟨row, hrow, hdecodes⟩ := hitem
  have hfilter : (db.rows s).filter (fun row => row.itemId = item.itemId) = [row] := by
    have hnodup := nodup_rows db s
    refine List.perm_singleton.1 ((List.perm_ext_iff_of_nodup ?_ (by simp)).2 fun x => ?_)
    · exact (List.Nodup.of_map _ hnodup).filter _
    · simp only [List.mem_filter, decide_eq_true_eq, List.mem_singleton]
      constructor
      · rintro ⟨hx, hid⟩
        exact row_unique hx hrow (hid.trans hdecodes.itemId)
      · rintro rfl
        exact ⟨hrow, hdecodes.itemId.symm⟩
  have hdecoded : List.Forall₂ Decodes ((db.rows s).filter fun row => row.itemId = item.itemId)
      [item] := by
    rw [hfilter]
    exact .cons hdecodes .nil
  exact becomes_delete_selected hdecoded

theorem does_deleteItem {item : QueueItem} (reason : QueueRemovalReason) (nowMs : JsNumber)
    (admissionReason : Option String) (hitem : Present s db item)
    (h : deleteItem s item.itemId db = (.ok (), db')) :
    Does scope s [removalFact reason nowMs admissionReason item] db db' := by
  rw [deleteRows_ok h]
  exact ⟨_, becomes_deleteItem hitem, logs_removal _ _ _ hitem.sessionId⟩

/-! ## Loops over items -/

/-- The rows of other items stay. -/
def KeepsOthers (s itemId : String) (db db' : QueueDb) : Prop :=
  ∀ row ∈ db.rows s, row.itemId ≠ itemId → row ∈ db'.rows s

theorem keepsOthers_deleteItem {itemId : String} (h : deleteItem s itemId db = (.ok (), db')) :
    KeepsOthers s itemId db db' := by
  intro row hrow hid
  rw [deleteRows_ok h]
  exact mem_deleteRows.2 ⟨hrow, by simpa using hid⟩

theorem keepsOthers_write {item : QueueItem} (hs : item.sessionId = s)
    (h : write item db = (.ok (), db')) : KeepsOthers s item.itemId db db' := by
  subst hs
  intro row hrow hid
  rw [(write_ok h).rows]
  split_ifs
  · exact List.mem_map.2 ⟨row, hrow, if_neg hid⟩
  · exact List.mem_append_left _ hrow

theorem KeepsOthers.present {itemId : String} (h : KeepsOthers s itemId db db') {item : QueueItem}
    (hitem : Present s db item) (hne : item.itemId ≠ itemId) : Present s db' item := by
  obtain ⟨row, hrow, hdecodes⟩ := hitem
  exact ⟨row, h row hrow (hdecodes.itemId ▸ hne), hdecodes⟩

/-- A loop over what is apart, each step of which leaves ready what is apart from its own. -/
theorem gather_does {α β : Type} {f : α → QueueTransaction β} {facts : β → List QueueCommittedFact}
    (Apart : α → α → Prop) (Ready : α → QueueDb → Prop) (I : QueueDb → Prop) :
    ∀ {as : List α} {db db' : QueueDb} {bs : List β},
      (∀ a ∈ as, ∀ db b db', Ready a db → I db → f a db = (.ok b, db') →
        Does scope s (facts b) db db' ∧ I db' ∧ ∀ c, Apart a c → Ready c db → Ready c db') →
      as.Pairwise Apart → (∀ a ∈ as, Ready a db) → I db →
      Effect.gather f as db = (.ok bs, db') → Does scope s (bs.flatMap facts) db db' ∧ I db' ∧
        ∀ c, (∀ a ∈ as, Apart a c) → Ready c db → Ready c db'
  | [], db, db', bs, _, _, _, hI, h => by
    obtain ⟨rfl, rfl⟩ := Effect.pure_ok h
    exact ⟨.refl scope s _, hI, fun _ _ h => h⟩
  | a :: as, db, db', bs, hf, hapart, hready, hI, h => by
    rw [List.pairwise_cons] at hapart
    obtain ⟨b, db₁, hb, h₁⟩ := Effect.bind_ok h
    obtain ⟨rest, db₂, hrest, h₂⟩ := Effect.bind_ok h₁
    obtain ⟨rfl, rfl⟩ := Effect.pure_ok h₂
    obtain ⟨hdoes, hI', hkeeps⟩ := hf a (.head _) _ _ _ (hready a (.head _)) hI hb
    obtain ⟨hdoes', hI'', hkeeps'⟩ := gather_does Apart Ready I (fun c hc => hf c (.tail _ hc)) hapart.2
      (fun c hc => hkeeps c (hapart.1 c hc) (hready c (.tail _ hc))) hI' hrest
    refine ⟨hdoes.trans hdoes', hI'', fun c hc hready => ?_⟩
    exact hkeeps' c (fun d hd => hc d (.tail _ hd)) (hkeeps c (hc a (.head _)) hready)

/-- A loop over items of different ids that touches one item at a time. -/
theorem forEach_does {f : QueueItem → QueueTransaction Unit}
    {facts : QueueItem → List QueueCommittedFact}
    (hf : ∀ {item db db'}, Present s db item → f item db = (.ok (), db') →
      Does scope s (facts item) db db' ∧ KeepsOthers s item.itemId db db') :
    ∀ {items : List QueueItem} {db db' : QueueDb}, (items.map QueueItem.itemId).Nodup →
      (∀ item ∈ items, Present s db item) → Effect.forEach f items db = (.ok (), db') →
      Does scope s (items.flatMap facts) db db' ∧
        ∀ item, item.itemId ∉ items.map QueueItem.itemId → Present s db item → Present s db' item
  | [], db, db', _, _, h => by
    obtain ⟨-, rfl⟩ := Effect.pure_ok h
    exact ⟨.refl scope s _, fun _ _ h => h⟩
  | item :: items, db, db', hnodup, hpresent, h => by
    rw [List.map_cons, List.nodup_cons] at hnodup
    obtain ⟨⟨⟩, db₁, hb, hrest⟩ := Effect.bind_ok h
    obtain ⟨hdoes, hkeeps⟩ := hf (hpresent item (.head _)) hb
    obtain ⟨hdoes', hkeeps'⟩ := forEach_does hf hnodup.2 (fun other hother =>
      hkeeps.present (hpresent other (.tail _ hother)) fun hid =>
        hnodup.1 (hid ▸ List.mem_map_of_mem hother)) hrest
    refine ⟨hdoes.trans hdoes', fun other hother hpresent => ?_⟩
    rw [List.map_cons, List.mem_cons, not_or] at hother
    exact hkeeps' other hother.2 (hkeeps.present hpresent hother.1)

theorem shrinks_deleteItems : ∀ {items : List QueueItem} {db : QueueDb},
    deleteItems s items db = (.ok (), db') → Shrinks s db db'
  | [], db, h => by
    obtain ⟨-, rfl⟩ := Effect.pure_ok h
    exact fun _ h => h
  | item :: items, db, h => by
    obtain ⟨⟨⟩, db₁, hdelete, hrest⟩ := Effect.bind_ok h
    obtain rfl := deleteRows_ok hdelete
    exact fun row hrow => filtered_deleteRows.shrinks row (shrinks_deleteItems hrest row hrow)

theorem deleteItems_does {items : List QueueItem} (reason : QueueRemovalReason) (nowMs : JsNumber)
    (admissionReason : Option String) (hnodup : (items.map QueueItem.itemId).Nodup)
    (hpresent : ∀ item ∈ items, Present s db item)
    (h : deleteItems s items db = (.ok (), db')) :
    Does scope s (items.map (removalFact reason nowMs admissionReason)) db db' ∧
      ∀ item, item.itemId ∉ items.map QueueItem.itemId → Present s db item → Present s db' item := by
  rw [List.map_eq_flatMap]
  exact forEach_does (fun hitem hdelete =>
    ⟨does_deleteItem reason nowMs admissionReason hitem hdelete, keepsOthers_deleteItem hdelete⟩)
    hnodup hpresent h

/-- Decoded rows have different ids. -/
theorem nodup_of_forall₂ {p : QueueRow → Bool} {items : List QueueItem}
    (h : List.Forall₂ Decodes ((db.rows s).filter p) items) :
    (items.map QueueItem.itemId).Nodup := by
  rw [forall₂_itemIds h]
  exact (nodup_rows db s).sublist (List.filter_sublist.map _)

end Steps

end Kinetick
