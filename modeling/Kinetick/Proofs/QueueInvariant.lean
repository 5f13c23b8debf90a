import Kinetick.Proofs.QueueLedger

/-!
# The state of a Session's queue

In every run at most one row is claimed and of a client request, and a pause has a pending item. The
dedupe keys of the queued rows are unique as long as no item is put back while its key is taken: an
enqueue looks for the key among the queued rows only, and a release does not look for it.
-/

namespace Kinetick

open QueueEntry QueueChange QueueRepository

variable {db db' : QueueDb} {env : QueueEnvironment} {op : QueueOperation} {s : String}

/-- What every operation keeps. -/
structure QueueDb.Invariant (db : QueueDb) : Prop where
  stored : db.Stored
  sound : ∀ s, Sound (db.entries s)
  pause : ∀ s, db.rows s = [] → db.pauses s = none

theorem invariant_empty : QueueDb.empty.Invariant where
  stored := stored_empty
  sound s := by
    have hempty : QueueDb.empty.entries s = [] := rfl
    rw [hempty]
    exact ⟨by simp, fun a ha => by simp at ha, fun request a ha => by simp at ha⟩
  pause _ _ := rfl

theorem entries_congr (h : db'.rows s = db.rows s) : db'.entries s = db.entries s := by
  rw [QueueDb.entries, h, QueueDb.entries]

theorem Committed.invariant {scope : QueueScope} {facts : List QueueCommittedFact}
    (h : Committed scope s facts db db') (hdb : db.Invariant) : db'.Invariant := by
  obtain ⟨⟨changes, hsteps, -⟩, hstored, hothers, -, hreconciled⟩ := h
  refine ⟨hstored hdb.stored, fun t => ?_, fun t => ?_⟩ <;> by_cases ht : t = s
  · subst ht
    exact (hsteps hdb.stored).keeps (P := Sound) Sound.apply (hdb.sound t)
  · rw [entries_congr (hothers t ht).1]
    exact hdb.sound t
  · subst ht
    exact hreconciled (hdb.pause t)
  · rw [(hothers t ht).1, (hothers t ht).2]
    exact hdb.pause t

theorem Committed.keyed {scope : QueueScope} {facts : List QueueCommittedFact}
    (hduplicates : ¬ scope.duplicates) (h : Committed scope s facts db db') (hdb : db.Invariant)
    (hkeyed : ∀ t, Keyed (db.entries t)) (t : String) : Keyed (db'.entries t) := by
  obtain ⟨⟨changes, hsteps, -⟩, -, hothers, -, -⟩ := h
  by_cases ht : t = s
  · subst ht
    have hboth := (hsteps hdb.stored).keeps (P := fun l => Sound l ∧ Keyed l)
      (fun hallowed hl => ⟨hl.1.apply hallowed, hl.2.apply hduplicates hallowed hl.1⟩)
      ⟨hdb.sound t, hkeyed t⟩
    exact hboth.2
  · rw [entries_congr (hothers t ht).1]
    exact hkeyed t

theorem invariant_step (hdb : db.Invariant) (hop : op.isReplaceSession = false) :
    (queueSystem.step db (env, op)).1.Invariant := by
  rcases step_cases env op db with ⟨facts, hperform, -⟩ | ⟨hdb', -⟩
  · exact (perform_committed hdb.stored hop hperform).invariant hdb
  · rwa [hdb']

theorem invariant_after {es : List (QueueEnvironment × QueueOperation)}
    (hes : ∀ e ∈ es, e.2.isReplaceSession = false) :
    (queueSystem.after queueSystem.initial es).Invariant :=
  queueSystem.after_invariant (fun _ _ hdb hop => invariant_step hdb hop) invariant_empty
    (queueSystem.along_of_forall _ hes)

/-- A row is known by its entry. -/
theorem row_of_entry {a b : QueueRow} (ha : a ∈ db.rows s) (hb : b ∈ db.rows s)
    (h : a.entry = b.entry) : a = b :=
  row_unique ha hb (congrArg QueueEntry.itemId h)

theorem mem_entries {row : QueueRow} (h : row ∈ db.rows s) : row.entry ∈ db.entries s :=
  List.mem_map.2 ⟨row, h, rfl⟩

theorem QueueDb.Invariant.wellKept (hdb : db.Invariant) (s : String) : db.WellKept s where
  claimed a ha b hb hac hbc :=
    row_of_entry ha hb ((hdb.sound s).claimed _ (mem_entries ha) _ (mem_entries hb) hac hbc)
  request a ha b hb request har hbr :=
    row_of_entry ha hb ((hdb.sound s).request request _ (mem_entries ha) _ (mem_entries hb) har hbr)
  pause hpause hrows := hpause (hdb.pause s hrows)

theorem keyed_step (hdb : db.Invariant ∧ ∀ t, Keyed (db.entries t))
    (hop : op.isReplaceSession = false) (hduplicates : ¬ op.Duplicates env db) :
    (queueSystem.step db (env, op)).1.Invariant ∧
      ∀ t, Keyed ((queueSystem.step db (env, op)).1.entries t) := by
  refine ⟨invariant_step hdb.1 hop, ?_⟩
  rcases step_cases env op db with ⟨facts, hperform, -⟩ | ⟨hdb', -⟩
  · exact (perform_committed hdb.1.stored hop hperform).keyed hduplicates hdb.1 hdb.2
  · rw [hdb']
    exact hdb.2

/-- The queue is well kept in every run, and its dedupe keys are unique while none is put back that
is taken. -/
theorem queue_state_invariant (es : List (QueueEnvironment × QueueOperation))
    (hes : ∀ e ∈ es, e.2.isReplaceSession = false) :
    (∀ s, (queueSystem.after queueSystem.initial es).WellKept s) ∧
    (queueSystem.Along (fun db e => ¬ e.2.Duplicates e.1 db) queueSystem.initial es →
      ∀ s, (queueSystem.after queueSystem.initial es).KeysUnique s) := by
  refine ⟨(invariant_after hes).wellKept, fun hrun s a ha b hb haq hbq key hak hbk => ?_⟩
  have hkept : (queueSystem.after queueSystem.initial es).Invariant ∧
      ∀ t, Keyed ((queueSystem.after queueSystem.initial es).entries t) :=
    queueSystem.after_invariant (P := fun db => db.Invariant ∧ ∀ t, Keyed (db.entries t))
      (fun db e hdb h => keyed_step hdb h.1 h.2)
      ⟨invariant_empty, fun t key a ha => by simp [queueSystem, QueueDb.empty, QueueDb.entries,
        QueueDb.rows, Table.empty] at ha⟩ ((queueSystem.along_of_forall _ hes).and hrun)
  have hentry := hkept.2 s key _ (mem_entries ha) _ (mem_entries hb) ⟨haq, hak⟩ ⟨hbq, hbk⟩
  exact row_of_entry ha hb hentry

/-- The head of the queue is claimed, and then its key is enqueued again. -/
def keyTakenRun : List (QueueEnvironment × QueueOperation) := [
  (sampleEnvironment 1 "a" "c1", .enqueue (sampleInput (some "k") none)),
  (sampleEnvironment 2 "b" "c2", .claimNext {
    sessionId := "s", itemId := none, excludeItemIds := [], allowedSources := none,
    continuePaused := false, nowMs := none }),
  (sampleEnvironment 3 "d" "c3", .enqueue (sampleInput (some "k") none))]

theorem queue_state_invariant_taken :
    (queueSystem.after queueSystem.initial keyTakenRun).KeysUnique "s" := by
  refine (queue_state_invariant keyTakenRun (by decide)).2 ⟨?_, ?_, ?_, trivial⟩ "s" <;>
    exact fun ⟨_, hrequeues, _⟩ => hrequeues

/-- A release puts back an item whose key is taken. -/
theorem queue_keys_not_unique : ∃ es : List (QueueEnvironment × QueueOperation),
    (∀ e ∈ es, e.2.isReplaceSession = false) ∧ (es.map fun e => e.1.newItemId).Nodup ∧
    (es.map fun e => e.1.newClaimId).Nodup ∧
    ¬ (queueSystem.after queueSystem.initial es).KeysUnique "s" := by
  refine ⟨keyTakenRun ++ [(sampleEnvironment 4 "e" "c4", .releaseClaim "s" "c2" none)],
    by decide, by decide, by decide, fun hunique => ?_⟩
  have htwo : ∃ a ∈ (queueSystem.after queueSystem.initial
      (keyTakenRun ++ [(sampleEnvironment 4 "e" "c4", .releaseClaim "s" "c2" none)])).rows "s",
    ∃ b ∈ (queueSystem.after queueSystem.initial
      (keyTakenRun ++ [(sampleEnvironment 4 "e" "c4", .releaseClaim "s" "c2" none)])).rows "s",
    a.status = .queued ∧ b.status = .queued ∧ a.dedupeKey = some "k" ∧ b.dedupeKey = some "k" ∧
      a.itemId ≠ b.itemId := by decide
  obtain ⟨a, ha, b, hb, haq, hbq, hak, hbk, hne⟩ := htwo
  exact hne (congrArg QueueRow.itemId (hunique a ha b hb haq hbq "k" hak hbk))

end Kinetick

/-!
## The order of a Session's queue

An item keeps its place from the enqueue that opens it to the fact that closes it, but for a front
placement: then the claimed item comes first, the placed one next, and the other queued ones after
them in their order. So what is released comes back where it was only if nothing was put first
meanwhile.
-/

namespace Kinetick

open QueueEntry QueueChange QueueRepository

/-! ## Pairs of a list -/

/-- The one id comes before the other among the entries. -/
def Precedes (l : List QueueEntry) (a b : String) : Prop :=
  [a, b].Sublist (l.map QueueEntry.itemId)

/-- A filter that keeps both keeps their order. -/
theorem pair_sublist_filter {L : List String} {p : String → Bool} {a b : String} (ha : p a = true)
    (hb : p b = true) : [a, b].Sublist (L.filter p) ↔ [a, b].Sublist L := by
  refine ⟨fun h => h.trans List.filter_sublist, fun h => ?_⟩
  have hfilter := h.filter p
  rwa [List.filter_cons_of_pos ha, List.filter_cons_of_pos hb, List.filter_nil] at hfilter

/-- Where the same is left of two lists, the order in what is left is the same. -/
theorem pair_sublist_congr {L L' : List String} (p : String → Bool) {a b : String}
    (h : L'.filter p = L.filter p) (ha : p a = true) (hb : p b = true) :
    [a, b].Sublist L' ↔ [a, b].Sublist L := by
  rw [← pair_sublist_filter ha hb, h, pair_sublist_filter ha hb]

/-- What is filtered is known by its ids. -/
theorem filter_mem_map {α : Type} {L : List α} {f : α → String} (hL : (L.map f).Nodup)
    (P : α → Bool) : (L.map f).filter (fun x => x ∈ (L.filter P).map f) = (L.filter P).map f := by
  rw [List.filter_map]
  refine congrArg _ (List.filter_congr fun x hx => Bool.eq_iff_iff.2 (decide_eq_true_iff.trans ?_))
  constructor
  · intro hmem
    obtain ⟨y, hy, hxy⟩ := List.mem_map.1 hmem
    obtain ⟨hy, hPy⟩ := List.mem_filter.1 hy
    rwa [List.inj_on_of_nodup_map hL hx hy hxy.symm]
  · exact fun hP => List.mem_map.2 ⟨x, List.mem_filter.2 ⟨hx, hP⟩, rfl⟩

/-- A filter keeps the order of what it keeps. -/
theorem pair_sublist_filter_map {α : Type} {L : List α} {f : α → String} (hL : (L.map f).Nodup)
    (P : α → Bool) {a b : String} (ha : a ∈ (L.filter P).map f) (hb : b ∈ (L.filter P).map f) :
    [a, b].Sublist ((L.filter P).map f) ↔ [a, b].Sublist (L.map f) := by
  refine pair_sublist_congr (fun x => x ∈ (L.filter P).map f) ?_ (decide_eq_true ha)
    (decide_eq_true hb)
  rw [filter_mem_map hL, List.filter_eq_self.2 fun x hx => decide_eq_true hx]

namespace QueueChange

variable {scope : QueueScope} {l l' : List QueueEntry} {change : QueueChange}
  {changes : List QueueChange} {a b : String}

/-- A replacement leaves the ids but the two it is about. -/
theorem filter_replaced (itemId : String) (entry : QueueEntry) (l : List QueueEntry) :
    ((mapAt itemId (fun _ => entry) l).map QueueEntry.itemId).filter
      (fun x => x ≠ itemId && x ≠ entry.itemId) =
      (l.map QueueEntry.itemId).filter fun x => x ≠ itemId && x ≠ entry.itemId := by
  induction l with
  | nil => rfl
  | cons e l ih =>
    simp only [mapAt, List.map_cons] at ih ⊢
    by_cases hid : e.itemId = itemId
    · rw [if_pos hid, List.filter_cons_of_neg (by simp), List.filter_cons_of_neg (by simp [hid])]
      exact ih
    · rw [if_neg hid, List.filter_cons, List.filter_cons, ih]

/-- A change that neither puts first nor reorders keeps the order of what it leaves. -/
theorem precedes_apply (hfronts : ∀ itemId, ¬ scope.fronts itemId) (hreorders : ¬ scope.reorders)
    (h : change.Allowed scope l) (ha : a ∈ ids l) (hb : b ∈ ids l)
    (ha' : a ∈ ids (change.apply l)) (hb' : b ∈ ids (change.apply l))
    (hnew : ∀ c, (c = a ∨ c = b) → LedgerEntry.opened c ∉ change.ledger) :
    Precedes (change.apply l) a b ↔ Precedes l a b := by
  unfold Precedes
  rcases change with id | entry | ⟨id, entry⟩ | id | id | id | itemIds
  · have hfilter : ((removed id).apply l).map QueueEntry.itemId =
        (l.map QueueEntry.itemId).filter fun x => x ≠ id := by
      rw [QueueChange.apply, List.filter_map]
      rfl
    have hne : ∀ c ∈ ids ((removed id).apply l), c ≠ id := fun c hc hcid => by
      obtain ⟨e, he, rfl⟩ := mem_ids.1 hc
      simpa [hcid] using (List.mem_filter.1 he).2
    rw [hfilter]
    exact pair_sublist_filter (by simpa using hne a ha') (by simpa using hne b hb')
  · have hne : ∀ c, (c = a ∨ c = b) → c ≠ entry.itemId := fun c hc hcid =>
      hnew c hc (by simp [ledger, hcid])
    rw [QueueChange.apply]
    split_ifs with hid
    · rw [map_itemId_mapAt fun _ _ => rfl]
    · refine pair_sublist_congr (fun x => x ≠ entry.itemId) ?_ (by simpa using hne a (.inl rfl))
        (by simpa using hne b (.inr rfl))
      rw [List.map_append, List.filter_append]
      simp
  · have hne : ∀ c, (c = a ∨ c = b) → c ≠ entry.itemId := fun c hc hcid =>
      hnew c hc (by simp [ledger, hcid])
    have hold : ∀ c, (c = a ∨ c = b) → c ∈ ids ((replaced id entry).apply l) → c ≠ id := by
      intro c hc hmem
      obtain ⟨e, he, rfl⟩ := mem_ids.1 hmem
      rcases mem_mapAt.1 he with ⟨-, -, -, rfl⟩ | ⟨-, hid⟩
      · exact absurd rfl (hne _ hc)
      · exact hid
    exact pair_sublist_congr _ (filter_replaced id entry l)
      (by simpa using ⟨hold a (.inl rfl) ha', hne a (.inl rfl)⟩)
      (by simpa using ⟨hold b (.inr rfl) hb', hne b (.inr rfl)⟩)
  · rw [QueueChange.apply, map_itemId_mapAt]
    exact fun _ h => h
  · rw [QueueChange.apply, map_itemId_mapAt]
    exact fun _ h => h
  · exact absurd h.1 (hfronts id)
  · exact absurd h.1 hreorders

/-- What a ledger does not open was open if it is. -/
theorem mem_of_mem_replay : ∀ {es : List (LedgerEntry String)} {keys : Finset String} {key : String},
    .opened key ∉ es → key ∈ Ledger.replay es keys → key ∈ keys
  | [], _, _, _, h => h
  | .opened k :: es, keys, key, hnew, h => by
    rw [List.mem_cons, not_or] at hnew
    have hmem := mem_of_mem_replay hnew.2 h
    rw [Finset.mem_insert] at hmem
    exact hmem.resolve_left fun hkey => hnew.1 (by rw [hkey])
  | .closed k :: es, keys, key, hnew, h => by
    rw [List.mem_cons, not_or] at hnew
    exact Finset.mem_of_mem_erase (mem_of_mem_replay hnew.2 h)

/-- Changes that neither put first nor reorder keep the order of what they leave. -/
theorem Steps.precedes (hfronts : ∀ itemId, ¬ scope.fronts itemId) (hreorders : ¬ scope.reorders) :
    ∀ {changes : List QueueChange} {l : List QueueEntry}, Steps scope l changes l' →
      a ∈ QueueEntry.ids l → b ∈ QueueEntry.ids l → a ∈ QueueEntry.ids l' →
      b ∈ QueueEntry.ids l' →
      (∀ c, (c = a ∨ c = b) → LedgerEntry.opened c ∉ changes.flatMap QueueChange.ledger) →
      (Precedes l' a b ↔ Precedes l a b)
  | [], l, h, _, _, _, _, _ => by
    unfold Steps at h
    rw [h]
  | change :: changes, l, h, ha, hb, ha', hb', hnew => by
    have hrest : ∀ c, (c = a ∨ c = b) →
        LedgerEntry.opened c ∉ changes.flatMap QueueChange.ledger := fun c hc hmem =>
      hnew c hc (List.mem_append_right _ hmem)
    have hmid : ∀ c, (c = a ∨ c = b) → c ∈ QueueEntry.ids l' →
        c ∈ QueueEntry.ids (change.apply l) := fun c hc hmem => by
      rw [h.2.ids] at hmem
      exact mem_of_mem_replay (hrest c hc) hmem
    have ha'' := hmid a (.inl rfl) ha'
    have hb'' := hmid b (.inr rfl) hb'
    rw [Steps.precedes hfronts hreorders h.2 ha'' hb'' ha' hb' hrest]
    exact precedes_apply hfronts hreorders h.1 ha hb ha'' hb'' fun c hc hmem =>
      hnew c hc (List.mem_append_left _ hmem)

end QueueChange

/-! ## Operations -/

variable {db db' : QueueDb} {env : QueueEnvironment} {op : QueueOperation} {s a b : String}

theorem precedes_iff : db.Precedes s a b ↔ Precedes (db.entries s) a b := by
  rw [QueueDb.Precedes, Precedes, map_itemId_entries]

theorem Committed.precedes {scope : QueueScope} {facts : List QueueCommittedFact} {t : String}
    (hfronts : ∀ itemId, ¬ scope.fronts itemId) (hreorders : ¬ scope.reorders) (hdb : db.Stored)
    (h : Committed scope t facts db db') (ha : a ∈ db.itemIds s) (hb : b ∈ db.itemIds s)
    (ha' : a ∈ db'.itemIds s) (hb' : b ∈ db'.itemIds s)
    (hnew : ∀ c, (c = a ∨ c = b) →
      LedgerEntry.opened c ∉ facts.flatMap (QueueCommittedFact.ledger s)) :
    db'.Precedes s a b ↔ db.Precedes s a b := by
  obtain ⟨⟨changes, hsteps, hledger⟩, -, hothers, -, -⟩ := h
  rw [precedes_iff, precedes_iff]
  by_cases hs : s = t
  · subst hs
    rw [hledger, if_pos rfl] at hnew
    exact (hsteps hdb).precedes hfronts hreorders ha hb ha' hb' hnew
  · rw [entries_congr (hothers s hs).1]

/-- A step that keeps the order keeps that of the items that stay. -/
theorem precedes_step {e : QueueEnvironment × QueueOperation} (hdb : db.Stored)
    (hkeeps : KeepsOrder db e) (ha : Stays s a db e) (hb : Stays s b db e) :
    (queueSystem.step db e).1.Precedes s a b ↔ db.Precedes s a b := by
  obtain ⟨env, op⟩ := e
  rcases step_cases env op db with ⟨facts, hperform, hfacts⟩ | ⟨hdb', -⟩
  · refine (perform_committed hdb hkeeps.1 hperform).precedes (fun itemId => ?_) ?_ hdb ha.1 hb.1
      ha.2.1 hb.2.1 fun c hc => ?_
    · simp [QueueOperation.scope, hkeeps.2.1]
    · rintro ⟨hreorder, hqueued⟩
      obtain ⟨row, hrow, hclaimed⟩ := hkeeps.2.2 hreorder
      rw [hqueued row hrow] at hclaimed
      cases hclaimed
    · rw [← hfacts]
      rcases hc with rfl | rfl
      · exact ha.2.2
      · exact hb.2.2
  · rw [hdb']

/-- So does a run of such steps, with any claims and releases on the way. -/
theorem precedes_run {es : List (QueueEnvironment × QueueOperation)} (hdb : db.Stored)
    (h : queueSystem.Along (fun db e => KeepsOrder db e ∧ Stays s a db e ∧ Stays s b db e) db es) :
    (queueSystem.after db es).Precedes s a b ↔ db.Precedes s a b := by
  induction es generalizing db with
  | nil => rfl
  | cons e es ih =>
    obtain ⟨⟨hkeeps, ha, hb⟩, hrest⟩ := h
    rw [Machine.after_cons, ih (stored_step hdb hkeeps.1) hrest]
    exact precedes_step hdb hkeeps ha hb

/-! ## Front placement -/

/-- What comes in the one part precedes what comes in the next. -/
theorem pair_sublist_append {L L' : List String} {x y : String} (hx : x ∈ L) (hy : y ∈ L') :
    [x, y].Sublist (L ++ L') :=
  (List.singleton_sublist.2 hx).append (List.singleton_sublist.2 hy)

theorem frontItem_ok {X : String} (h : op.frontItem env db = some X) :
    ∃ input result db' r, op = .enqueue input ∧ input.front = true ∧
      enqueue env input db = (.ok result, db') ∧ result.value = some r ∧ r.item.itemId = X := by
  rcases op with _ | _ | _ | _ | _ | _ | input <;> try cases h
  rcases hfront : input.front with _ | _
  · simp [QueueOperation.frontItem, hfront] at h
  rcases hresult : enqueue env input db with ⟨e | result, db'⟩
  · simp [QueueOperation.frontItem, hfront, hresult] at h
  · simp only [QueueOperation.frontItem, hfront, hresult, if_true] at h
    obtain ⟨r, hr, hid⟩ := Option.map_eq_some_iff.1 h
    exact ⟨input, result, db', r, rfl, hfront, hresult, hr, hid⟩

theorem perform_enqueue {input : QueueEnqueueInput}
    {result : CommittedQueueResult (Option QueueEnqueueResult)}
    (h : enqueue env input db = (.ok result, db')) :
    queueSystem.step db (env, .enqueue input) = (db', .ok result.facts) := by
  have hperform : (QueueOperation.enqueue input).perform env db = (.ok result.facts, db') :=
    Effect.bind_of_ok h
  simp only [queueSystem, hperform]

section Fronted

variable {l : List QueueEntry} {X : String}

theorem map_itemId_fronted : ((fronted X).apply l).map QueueEntry.itemId =
    ((l.filter isClaimed).map QueueEntry.itemId) ++
      ((l.filter fun e => e.isQueued && e.itemId = X).map QueueEntry.itemId ++
      (l.filter fun e => e.isQueued && e.itemId ≠ X).map QueueEntry.itemId) := by
  simp [QueueChange.apply]

theorem mem_claimed_fronted {e : QueueEntry} (he : e ∈ l) (hstatus : e.status = .claimed) :
    e.itemId ∈ (l.filter isClaimed).map QueueEntry.itemId :=
  List.mem_map.2 ⟨e, List.mem_filter.2 ⟨he, by simp [isClaimed, hstatus]⟩, rfl⟩

theorem mem_queued_fronted {e : QueueEntry} (he : e ∈ l) (hstatus : e.status = .queued)
    (hid : e.itemId ≠ X) :
    e.itemId ∈ (l.filter fun e => e.isQueued && e.itemId ≠ X).map QueueEntry.itemId :=
  List.mem_map.2 ⟨e, List.mem_filter.2 ⟨he, by simp [isQueued, hstatus, hid]⟩, rfl⟩

theorem mem_first_fronted {e : QueueEntry} (he : e ∈ l) (hstatus : e.status = .queued)
    (hid : e.itemId = X) :
    X ∈ (l.filter fun e => e.isQueued && e.itemId = X).map QueueEntry.itemId :=
  List.mem_map.2 ⟨e, List.mem_filter.2 ⟨he, by simp [isQueued, hstatus, hid]⟩, hid⟩

/-- The claimed item precedes the queued ones. -/
theorem fronted_claimed (hl : Sound l) {c e : QueueEntry} (hc : c ∈ l) (hclaimed : c.status = .claimed)
    (he : e ∈ l) (hne : e.itemId ≠ c.itemId) : Precedes ((fronted X).apply l) c.itemId e.itemId := by
  have hqueued : e.status = .queued := by
    rcases hstatus : e.status
    · rfl
    · exact absurd (congrArg QueueEntry.itemId (hl.claimed e he c hc hstatus hclaimed)) hne
  rw [Precedes, map_itemId_fronted]
  refine pair_sublist_append (mem_claimed_fronted hc hclaimed) (List.mem_append.2 ?_)
  by_cases hid : e.itemId = X
  · rw [hid]
    exact .inl (mem_first_fronted he hqueued hid)
  · exact .inr (mem_queued_fronted he hqueued hid)

/-- The item put first precedes the other queued ones. -/
theorem fronted_first {x e : QueueEntry} (hx : x ∈ l) (hxq : x.status = .queued)
    (hxid : x.itemId = X) (he : e ∈ l) (hqueued : e.status = .queued) (hne : e.itemId ≠ X) :
    Precedes ((fronted X).apply l) X e.itemId := by
  rw [Precedes, map_itemId_fronted]
  exact (pair_sublist_append (mem_first_fronted hx hxq hxid)
    (mem_queued_fronted he hqueued hne)).trans (List.sublist_append_right _ _)

/-- The other queued ones are in the order they were in. -/
theorem fronted_rest (hl : (l.map QueueEntry.itemId).Nodup) {a b : QueueEntry} (ha : a ∈ l)
    (haq : a.status = .queued) (hax : a.itemId ≠ X) (hb : b ∈ l) (hbq : b.status = .queued)
    (hbx : b.itemId ≠ X) :
    Precedes ((fronted X).apply l) a.itemId b.itemId ↔ Precedes l a.itemId b.itemId := by
  let R := (l.filter fun e => e.isQueued && e.itemId ≠ X).map QueueEntry.itemId
  have hR : (l.map QueueEntry.itemId).filter (fun x => x ∈ R) = R := filter_mem_map hl _
  have hnone : ∀ p : QueueEntry → Bool, (∀ e, p e = true → (e.isQueued && e.itemId ≠ X) = false) →
      ((l.filter p).map QueueEntry.itemId).filter (fun x => x ∈ R) = [] := by
    intro p hp
    refine List.filter_eq_nil_iff.2 fun x hx => ?_
    obtain ⟨e, he, rfl⟩ := List.mem_map.1 hx
    obtain ⟨he, hpe⟩ := List.mem_filter.1 he
    rw [decide_eq_true_eq]
    intro hmem
    obtain ⟨y, hy, hye⟩ := List.mem_map.1 hmem
    obtain ⟨hy, hyp⟩ := List.mem_filter.1 hy
    rw [List.inj_on_of_nodup_map hl hy he hye, hp e hpe] at hyp
    cases hyp
  refine pair_sublist_congr (fun x => x ∈ R) ?_ (decide_eq_true (mem_queued_fronted ha haq hax))
    (decide_eq_true (mem_queued_fronted hb hbq hbx))
  have hleft : ((fronted X).apply l).map QueueEntry.itemId =
      ((l.filter isClaimed).map QueueEntry.itemId) ++
      ((l.filter fun e => e.isQueued && e.itemId = X).map QueueEntry.itemId ++ R) :=
    map_itemId_fronted
  rw [hleft, List.filter_append, List.filter_append, hnone, hnone, hR,
    List.filter_eq_self.2 (fun x hx => decide_eq_true hx), List.nil_append, List.nil_append]
  · intro e he
    simp only [Bool.and_eq_true, decide_eq_true_eq] at he
    simp [he.2]
  · intro e he
    simp only [isClaimed, decide_eq_true_eq] at he
    simp [isQueued, he]

end Fronted

/-- What an enqueue with front placement leaves. -/
theorem putFirst_step {e : QueueEnvironment × QueueOperation} {X : String} (hdb : db.Invariant)
    (h : e.2.frontItem e.1 db = some X) : PutFirst db e X := by
  obtain ⟨env, op⟩ := e
  obtain ⟨input, result, db', r, rfl, hfront, henqueue, hr, rfl⟩ := frontItem_ok h
  obtain ⟨db₁, facts, rest, hfacts, hdoes, -, db₂, hplaced, hrows⟩ := enqueue_answered henqueue hr
  have hstep := perform_enqueue henqueue
  have hfirst : Becomes (frontScope r.item.itemId) input.sessionId [fronted r.item.itemId] db₁ db₂ := by
    rwa [Placed, if_pos hfront] at hplaced
  obtain ⟨changes, hbecomes, hlogs⟩ := hdoes
  have hsteps := hbecomes.steps hdb.stored
  have hsound : Sound (db₁.entries input.sessionId) :=
    hsteps.keeps (P := Sound) Sound.apply (hdb.sound _)
  obtain ⟨⟨-, x, hx, hxid, hxq⟩, hentries⟩ := hfirst.steps (hbecomes.stored hdb.stored)
  have hentries' : db'.entries input.sessionId =
      (fronted r.item.itemId).apply (db₁.entries input.sessionId) := by
    rw [entries_congr (hrows _)]
    exact hentries
  have hmem : ∀ row ∈ db'.rows input.sessionId, row.entry ∈ db₁.entries input.sessionId :=
    fun row hrow => by
      have hrow := mem_entries hrow
      rwa [hentries', mem_fronted] at hrow
  -- Before it was put first the items that stay were in the order they are in.
  have hbefore : ∀ a b : String, Stays input.sessionId a db (env, .enqueue input) →
      Stays input.sessionId b db (env, .enqueue input) →
      (Precedes (db₁.entries input.sessionId) a b ↔ Precedes (db.entries input.sessionId) a b) := by
    intro a b ha hb
    have hids : ∀ c, Stays input.sessionId c db (env, .enqueue input) →
        c ∈ ids (db₁.entries input.sessionId) := fun c hc => by
      have hmem := hc.2.1
      rw [hstep, QueueDb.itemIds, hentries', mem_ids] at hmem
      obtain ⟨e, he, hid⟩ := hmem
      exact mem_ids.2 ⟨e, mem_fronted.1 he, hid⟩
    refine hsteps.precedes (fun _ h => h) (fun h => h) ha.1 hb.1 (hids a ha) (hids b hb)
      fun c hc hopened => ?_
    have hledger := hlogs.ledger input.sessionId
    rw [if_pos rfl] at hledger
    have hin : LedgerEntry.opened c ∈
        result.facts.flatMap (QueueCommittedFact.ledger input.sessionId) := by
      rw [hfacts, List.flatMap_append, hledger]
      exact List.mem_append_left _ hopened
    rcases hc with rfl | rfl
    · exact ha.2.2 (by rw [hstep]; exact hin)
    · exact hb.2.2 (by rw [hstep]; exact hin)
  refine ⟨?_, ?_, ?_⟩ <;> rw [hstep] <;> dsimp only [QueueOperation.sessionId]
  · intro row hrow hclaimed other hother hne
    rw [precedes_iff, hentries']
    exact fronted_claimed hsound (hmem row hrow) hclaimed (hmem other hother) hne
  · intro row hrow hqueued hne
    rw [precedes_iff, hentries']
    exact fronted_first hx hxq hxid (hmem row hrow) hqueued hne
  · intro a ha haq hax hastays b hb hbq hbx hbstays
    rw [precedes_iff, precedes_iff, hentries', ← hbefore _ _ hastays hbstays]
    exact fronted_rest hsound.ids (hmem a ha) haq hax (hmem b hb) hbq hbx

/-! ## Replacement -/

/-- The new id comes where the other was. -/
theorem pair_sublist_replaced {L : List String} {old new b : String} (hnew : new = old ∨ new ∉ L)
    (hb : b ≠ new) (hold : b ≠ old) :
    ([new, b].Sublist (L.map fun x => if x = old then new else x) ↔ [old, b].Sublist L) ∧
    ([b, new].Sublist (L.map fun x => if x = old then new else x) ↔ [b, old].Sublist L) := by
  have hfrom : ∀ x ∈ L, (if x = old then new else x) = new → x = old := by
    intro x hx h
    split_ifs at h with hxold
    · exact hxold
    · exact hnew.elim (fun heq => h.trans heq) fun hnot => absurd (h ▸ hx) hnot
  have hother : ∀ x, (if x = old then new else x) = b → x = b := by
    intro x h
    split_ifs at h
    · exact absurd h.symm hb
    · exact h
  constructor <;> constructor
  · intro h
    obtain ⟨K, hK, heq⟩ := List.sublist_map_iff.1 h
    obtain ⟨x, y, rfl⟩ : ∃ x y, K = [x, y] := List.length_eq_two.1 (by simpa using (congrArg List.length heq).symm)
    simp only [List.map_cons, List.map_nil, List.cons.injEq, and_true] at heq
    rw [hfrom x (hK.subset (.head _)) heq.1.symm, hother y heq.2.symm] at hK
    exact hK
  · intro h
    have hmap := h.map fun x => if x = old then new else x
    simpa [hold] using hmap
  · intro h
    obtain ⟨K, hK, heq⟩ := List.sublist_map_iff.1 h
    obtain ⟨x, y, rfl⟩ : ∃ x y, K = [x, y] := List.length_eq_two.1 (by simpa using (congrArg List.length heq).symm)
    simp only [List.map_cons, List.map_nil, List.cons.injEq, and_true] at heq
    rw [hfrom y (hK.subset (.tail _ (.head _))) heq.2.symm, hother x heq.1.symm] at hK
    exact hK
  · intro h
    have hmap := h.map fun x => if x = old then new else x
    simpa [hold] using hmap

/-- A new item in the place of the queued one of its key. -/
theorem takesPlace_replaced {replaced item : QueueItem} {row : QueueRow}
    (hsession : item.sessionId = replaced.sessionId) (hid : row.itemId = replaced.itemId)
    (hrow : row ∈ db.rows item.sessionId) (h : replaceItem replaced item db = (.ok (), db')) {b : String} (hb : b ≠ item.itemId)
    (hold : b ≠ row.itemId) :
    (db'.Precedes item.sessionId item.itemId b ↔ db.Precedes item.sessionId row.itemId b) ∧
      (db'.Precedes item.sessionId b item.itemId ↔ db.Precedes item.sessionId b row.itemId) ∧
      (b ∈ (db'.rows item.sessionId).map QueueRow.itemId →
        b ∈ (db.rows item.sessionId).map QueueRow.itemId) := by
  have hrows := (replaceItem_ok hsession h).rows
  have hmap : (db'.rows item.sessionId).map QueueRow.itemId =
      ((db.rows item.sessionId).map QueueRow.itemId).map fun x =>
        if x = row.itemId then item.itemId else x := by
    rw [hrows, putRow, List.map_map, List.map_map, hid]
    refine List.map_congr_left fun r _ => ?_
    simp only [Function.comp_apply]
    split_ifs <;> rfl
  have hnew : item.itemId = row.itemId ∨
      item.itemId ∉ (db.rows item.sessionId).map QueueRow.itemId := by
    by_cases hsame : item.itemId = row.itemId
    · exact .inl hsame
    · refine .inr fun hmem => hsame ?_
      have hnodup := nodup_rows db' item.sessionId
      rw [hmap] at hnodup
      exact List.inj_on_of_nodup_map hnodup hmem (List.mem_map_of_mem hrow) (by simp)
  unfold QueueDb.Precedes
  rw [hmap]
  refine ⟨(pair_sublist_replaced hnew hb hold).1, (pair_sublist_replaced hnew hb hold).2, ?_⟩
  intro hmem
  obtain ⟨x, hx, hxb⟩ := List.mem_map.1 hmem
  split_ifs at hxb
  · exact absurd hxb.symm hb
  · exact hxb ▸ hx

/-- An enqueue without front placement, whose key a queued item has that is gone afterwards. -/
theorem takesPlace_enqueue {input : QueueEnqueueInput} {r : QueueEnqueueResult}
    {result : CommittedQueueResult (Option QueueEnqueueResult)} {row : QueueRow} (hdb : db.Stored)
    (h : enqueue env input db = (.ok result, db')) (hr : result.value = some r)
    (hfront : input.front = false) (hrow : row ∈ db.rows input.sessionId)
    (hqueued : row.status = .queued) (hunexpired : isExpiredRow env.nowMs row = false)
    (hkey : row.dedupeKey ≠ none ∧ row.dedupeKey = nonEmptyText input.dedupeKey)
    (hgone : row.itemId ∉ db'.itemIds input.sessionId) :
    TakesPlace db db' input.sessionId row.itemId r.item.itemId := by
  obtain ⟨db₁, facts, rest, -, hdoes, hwrites, db₂, hplaced, hrows⟩ := enqueue_answered h hr
  rw [Placed, if_neg (by simp [hfront])] at hplaced
  subst hplaced
  have hids : db'.itemIds input.sessionId = ids (db₂.entries input.sessionId) := by
    rw [QueueDb.itemIds, entries_congr (hrows _)]
  rcases hwrites with ⟨db₀, hexpired, hedited, hstored⟩ |
    ⟨db₀, db₃, replaced, hsession, hexpired, hspares, hfind, hwrite⟩
  · have hmem : row ∈ db₀.rows input.sessionId := by
      rw [hexpired]
      exact List.mem_filter.2 ⟨hrow, by simp [hunexpired]⟩
    rw [hids, hedited.ids (hstored hdb), mem_ids] at hgone
    exact absurd ⟨row.entry, mem_entries hmem, rfl⟩ hgone
  · obtain ⟨p, hp, hsparesQueued⟩ := hspares
    have hmem₀ : row ∈ db₀.rows input.sessionId := by
      rw [hexpired]
      exact List.mem_filter.2 ⟨hrow, by simp [hunexpired]⟩
    have hmem : row ∈ db₃.rows input.sessionId := by
      rw [hp]
      exact List.mem_filter.2 ⟨hmem₀, hsparesQueued row hmem₀ hqueued⟩
    obtain ⟨-, hreplaced⟩ := findReplaced_ok hfind
    rcases replaced with _ | replaced
    · obtain ⟨key, hrowKey⟩ := Option.ne_none_iff_exists'.1 hkey.1
      exact absurd hrowKey (hreplaced key (hkey.2 ▸ hrowKey) row hmem hqueued)
    obtain ⟨old, hold, hdecodes, -, -⟩ := hreplaced
    have hitem : r.item.sessionId = replaced.sessionId := by
      rw [hsession, hdecodes.sessionId, (mem_rows.1 hold).2]
    -- Any other row is still there.
    have hid : row.itemId = replaced.itemId := by
      by_contra hne
      refine hgone ?_
      rw [hids, mem_ids]
      refine ⟨row.entry, mem_entries ?_, rfl⟩
      rw [← hsession, (replaceItem_ok hitem hwrite).rows, hsession]
      exact List.mem_map.2 ⟨row, hmem, if_neg hne⟩
    have hplace := fun b => takesPlace_replaced (b := b) hitem hid (hsession ▸ hmem) hwrite
    rw [hsession] at hplace
    have hfilter : db₃.rows input.sessionId =
        (db.rows input.sessionId).filter fun row => p row && !isExpiredRow env.nowMs row := by
      rw [hp, hexpired, List.filter_filter]
    have hkept : ∀ b ∈ db'.itemIds input.sessionId, b ≠ r.item.itemId → b ≠ row.itemId →
        b ∈ (db₃.rows input.sessionId).map QueueRow.itemId := fun b hb hne hne' => by
      refine (hplace b hne hne').2.2 ?_
      rw [hids, mem_ids] at hb
      obtain ⟨e, he, rfl⟩ := hb
      rw [← map_itemId_entries]
      exact List.mem_map_of_mem he
    have hrowKept := List.mem_map_of_mem (f := QueueRow.itemId) hmem
    have hprecedes : ∀ x y : String, x ∈ (db₃.rows input.sessionId).map QueueRow.itemId →
        y ∈ (db₃.rows input.sessionId).map QueueRow.itemId →
        (db₃.Precedes input.sessionId x y ↔ db.Precedes input.sessionId x y) := fun x y hx hy => by
      unfold QueueDb.Precedes
      rw [hfilter] at hx hy ⊢
      exact pair_sublist_filter_map (nodup_rows db _) _ hx hy
    have hprecedes' : ∀ x y : String, db'.Precedes input.sessionId x y ↔
        db₂.Precedes input.sessionId x y := fun x y => by
      unfold QueueDb.Precedes
      rw [hrows]
    refine ⟨fun b _ hb hne => ?_, fun b _ hb hne => ?_⟩ <;>
      have hne' : b ≠ row.itemId := fun h => hgone (h ▸ hb)
    · rw [hprecedes', (hplace b hne hne').2.1, hprecedes b _ (hkept b hb hne hne') hrowKept]
    · rw [hprecedes', (hplace b hne hne').1, hprecedes _ b hrowKept (hkept b hb hne hne')]

/-! ## The order -/

/-- The order of the pending items, in every run. -/
theorem queue_order (es : List (QueueEnvironment × QueueOperation))
    (hes : ∀ e ∈ es, e.2.isReplaceSession = false) :
    let db := queueSystem.after queueSystem.initial es
    (∀ e s a b, KeepsOrder db e → Stays s a db e → Stays s b db e →
      ((queueSystem.step db e).1.Precedes s a b ↔ db.Precedes s a b)) ∧
    (∀ e itemId, e.2.frontItem e.1 db = some itemId → PutFirst db e itemId) ∧
    (∀ env input result db' r, enqueue env input db = (.ok result, db') → result.value = some r →
      input.front = false → ∀ row ∈ db.rows input.sessionId, row.status = .queued →
      isExpiredRow env.nowMs row = false → row.dedupeKey ≠ none →
      row.dedupeKey = nonEmptyText input.dedupeKey → row.itemId ∉ db'.itemIds input.sessionId →
      TakesPlace db db' input.sessionId row.itemId r.item.itemId) ∧
    ∀ es' s a b, queueSystem.Along
      (fun db e => KeepsOrder db e ∧ Stays s a db e ∧ Stays s b db e) db es' →
      ((queueSystem.after db es').Precedes s a b ↔ db.Precedes s a b) := by
  have hdb := invariant_after hes
  refine ⟨fun e s a b => precedes_step hdb.stored, fun e itemId => putFirst_step hdb, ?_,
    fun es' s a b => precedes_run hdb.stored⟩
  intro env input result db' r henqueue hr hfront row hrow hqueued hunexpired hkey hsame hgone
  exact takesPlace_enqueue hdb.stored henqueue hr hfront hrow hqueued hunexpired ⟨hkey, hsame⟩ hgone

/-- Two items are enqueued. -/
def twoItems : List (QueueEnvironment × QueueOperation) := [
  (sampleEnvironment 1 "a" "c1", .enqueue (sampleInput none none)),
  (sampleEnvironment 2 "b" "c2", .enqueue (sampleInput none none))]

/-- The second one is claimed. -/
def claimSecond : QueueEnvironment × QueueOperation :=
  (sampleEnvironment 3 "d" "c3", .claimNext {
    sessionId := "s", itemId := some "b", excludeItemIds := [], allowedSources := none,
    continuePaused := false, nowMs := none })

theorem queue_order_released :
    let db := queueSystem.after queueSystem.initial twoItems
    (queueSystem.after db [claimSecond,
      (sampleEnvironment 4 "e" "c4", .releaseClaim "s" "c3" none)]).Precedes "s" "a" "b" := by
  intro db
  refine ((queue_order twoItems (by decide)).2.2.2 [claimSecond,
    (sampleEnvironment 4 "e" "c4", .releaseClaim "s" "c3" none)] "s" "a" "b" ?_).2 (by decide)
  exact ⟨⟨⟨rfl, rfl, fun h => h.elim⟩, ⟨by decide, by decide, by decide⟩, by decide, by decide,
    by decide⟩, ⟨⟨rfl, rfl, fun h => h.elim⟩, ⟨by decide, by decide, by decide⟩, by decide,
    by decide, by decide⟩, trivial⟩

/-- An item put first while the second one is claimed comes after it, and so does the first one. -/
theorem queue_order_not_kept :
    let es := twoItems ++ [claimSecond]
    let db := queueSystem.after queueSystem.initial es
    let front := (sampleEnvironment 4 "e" "c4", QueueOperation.enqueue
      { sampleInput none none with itemId := some "x", front := true })
    (∀ e ∈ es, e.2.isReplaceSession = false) ∧ front.2.frontItem front.1 db = some "x" ∧
      db.Precedes "s" "a" "b" ∧ (queueSystem.step db front).1.Precedes "s" "b" "a" ∧
      (queueSystem.step db front).1.Precedes "s" "b" "x" ∧
      (queueSystem.after db [front, (sampleEnvironment 5 "f" "c5",
        .releaseClaim "s" "c3" none)]).Precedes "s" "b" "a" := by
  refine ⟨by decide, by decide, by decide, by decide, by decide, by decide⟩

end Kinetick
