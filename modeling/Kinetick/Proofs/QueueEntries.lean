import Kinetick.Queue.Entries

/-!
# What the changes keep

One lemma for each property, over the changes: the ids are those of the ledger, and at most one
entry is claimed, of each request, and queued of each key.
-/

namespace Kinetick

namespace QueueChange

open QueueEntry

variable {scope : QueueScope} {l l' : List QueueEntry} {change : QueueChange}
  {changes : List QueueChange}

/-- What every allowed change keeps, the changes keep. -/
theorem Steps.keeps {P : List QueueEntry → Prop}
    (hP : ∀ {l : List QueueEntry} {change : QueueChange}, change.Allowed scope l → P l →
      P (change.apply l)) :
    ∀ {changes : List QueueChange} {l : List QueueEntry}, Steps scope l changes l' → P l → P l'
  | [], l, h, hl => by
    unfold Steps at h
    rwa [h]
  | _ :: _, _, h, hl => Steps.keeps hP h.2 (hP h.1 hl)

/-- A wider scope allows what a narrower one does. -/
structure QueueScope.Le (scope scope' : QueueScope) : Prop where
  clashes : scope.clashes → scope'.clashes
  duplicates : scope.duplicates → scope'.duplicates
  fronts : ∀ itemId, scope.fronts itemId → scope'.fronts itemId
  reorders : scope.reorders → scope'.reorders

theorem Allowed.mono {scope' : QueueScope} (hle : QueueScope.Le scope scope')
    (h : change.Allowed scope l) : change.Allowed scope' l := by
  rcases change with id | entry | ⟨id, entry⟩ | id | id | id | itemIds
  · exact h
  · exact ⟨h.1, h.2.1, h.2.2.1, fun hid => hle.clashes (h.2.2.2 hid)⟩
  · exact h
  · exact h
  · obtain ⟨e, he, hid, hstatus, hduplicates⟩ := h
    exact ⟨e, he, hid, hstatus, fun hother => hle.duplicates (hduplicates hother)⟩
  · exact ⟨hle.fronts _ h.1, h.2⟩
  · exact ⟨hle.reorders h.1, h.2⟩

theorem Steps.mono {scope' : QueueScope} (hle : QueueScope.Le scope scope') :
    ∀ {changes : List QueueChange} {l : List QueueEntry}, Steps scope l changes l' →
      Steps scope' l changes l'
  | [], _, h => h
  | _ :: _, _, h => ⟨Allowed.mono hle h.1, Steps.mono hle h.2⟩

/-! ## Ids -/

theorem mem_ids {itemId : String} : itemId ∈ ids l ↔ ∃ e ∈ l, e.itemId = itemId := by
  simp [ids]

/-- Rewriting entries without their ids. -/
theorem map_itemId_mapAt {itemId : String} {f : QueueEntry → QueueEntry}
    (hf : ∀ e : QueueEntry, e.itemId = itemId → (f e).itemId = itemId) :
    (mapAt itemId f l).map QueueEntry.itemId = l.map QueueEntry.itemId := by
  rw [mapAt, List.map_map]
  refine List.map_congr_left fun e _ => ?_
  by_cases hid : e.itemId = itemId
  · simp [hid, hf e hid]
  · simp [hid]

theorem ids_mapAt {itemId : String} {f : QueueEntry → QueueEntry}
    (hf : ∀ e : QueueEntry, e.itemId = itemId → (f e).itemId = itemId) :
    ids (mapAt itemId f l) = ids l := by
  rw [ids, map_itemId_mapAt hf, ids]

/-- An entry found by its id has it. -/
theorem find_itemId {itemId : String} {e : QueueEntry}
    (h : (l.find? fun e => e.itemId = itemId) = some e) : e ∈ l ∧ e.itemId = itemId :=
  ⟨List.mem_of_find?_eq_some h, by simpa using List.find?_some h⟩

theorem mem_reordered {itemIds : List String} (hperm : itemIds.Perm (l.map QueueEntry.itemId))
    (hnodup : (l.map QueueEntry.itemId).Nodup) {e : QueueEntry} :
    e ∈ (reordered itemIds).apply l ↔ e ∈ l := by
  simp only [QueueChange.apply, List.mem_filterMap]
  constructor
  · rintro ⟨id, -, hfind⟩
    exact (find_itemId hfind).1
  · intro he
    refine ⟨e.itemId, hperm.mem_iff.2 (List.mem_map_of_mem he), ?_⟩
    rcases hfind : l.find? (fun x => x.itemId = e.itemId) with _ | x
    · simpa using List.find?_eq_none.1 hfind e he
    · obtain ⟨hx, hid⟩ := find_itemId hfind
      rw [hfind, List.inj_on_of_nodup_map hnodup hx he hid]

theorem ids_reordered {itemIds : List String} (hperm : itemIds.Perm (l.map QueueEntry.itemId)) :
    ((reordered itemIds).apply l).map QueueEntry.itemId = itemIds := by
  have hfind : ∀ id ∈ itemIds, (l.find? fun e => e.itemId = id).map QueueEntry.itemId = some id := by
    intro id hid
    obtain ⟨e, he, heid⟩ := List.mem_map.1 (hperm.mem_iff.1 hid)
    rcases hfind : l.find? (fun e => e.itemId = id) with _ | x
    · exact absurd heid (by simpa using List.find?_eq_none.1 hfind e he)
    · rw [hfind, Option.map_some, (find_itemId hfind).2]
  rw [QueueChange.apply, List.map_filterMap]
  calc itemIds.filterMap (fun id => (l.find? fun e => e.itemId = id).map QueueEntry.itemId)
      = itemIds.filterMap some := List.filterMap_congr hfind
    _ = itemIds := List.filterMap_some

/-- The entries the front keeps are all of them. -/
theorem mem_fronted {itemId : String} {e : QueueEntry} :
    e ∈ (fronted itemId).apply l ↔ e ∈ l := by
  simp only [QueueChange.apply, List.mem_append, List.mem_filter, isClaimed, isQueued,
    Bool.and_eq_true, decide_eq_true_eq]
  rcases hstatus : e.status <;> by_cases hid : e.itemId = itemId <;> simp [hid]

/-- The ids after a change are those of its ledger. -/
theorem ids_apply (h : change.Allowed scope l) :
    ids (change.apply l) = Ledger.replay change.ledger (ids l) := by
  rcases change with id | entry | ⟨id, entry⟩ | id | id | id | itemIds
  · ext x
    simp only [ledger, Ledger.replay, Finset.mem_erase, mem_ids, QueueChange.apply,
      List.mem_filter, decide_eq_true_eq, ne_eq]
    constructor
    · rintro ⟨e, ⟨he, hne⟩, rfl⟩
      exact ⟨hne, e, he, rfl⟩
    · rintro ⟨hne, e, he, rfl⟩
      exact ⟨e, ⟨he, hne⟩, rfl⟩
  · ext x
    simp only [ledger, Ledger.replay, Finset.mem_insert, QueueChange.apply]
    split_ifs with hid
    · rw [ids_mapAt fun _ _ => rfl, mem_ids]
      exact ⟨.inr, fun h => h.elim (fun h => h ▸ hid) id⟩
    · simp only [mem_ids, List.mem_append, List.mem_singleton]
      constructor
      · rintro ⟨e, he | rfl, rfl⟩
        · exact .inr ⟨e, he, rfl⟩
        · exact .inl rfl
      · rintro (rfl | ⟨e, he, rfl⟩)
        · exact ⟨entry, .inr rfl, rfl⟩
        · exact ⟨e, .inl he, rfl⟩
  · obtain ⟨-, -, ⟨replaced, hmem, hid, -, -⟩, -⟩ := h
    ext x
    simp only [ledger, Ledger.replay, Finset.mem_insert, Finset.mem_erase, mem_ids,
      QueueChange.apply, mapAt, List.mem_map]
    constructor
    · rintro ⟨_, ⟨e, he, rfl⟩, rfl⟩
      split_ifs with heid
      · exact .inl rfl
      · exact .inr ⟨heid, e, he, rfl⟩
    · rintro (rfl | ⟨hne, e, he, rfl⟩)
      · exact ⟨entry, ⟨replaced, hmem, if_pos hid⟩, rfl⟩
      · exact ⟨e, ⟨e, he, if_neg hne⟩, rfl⟩
  · exact ids_mapAt fun _ h => h
  · exact ids_mapAt fun _ h => h
  · ext x
    simp only [mem_ids, mem_fronted, ledger, Ledger.replay]
  · rw [ids, ids_reordered h.2.2]
    exact List.toFinset_eq_of_perm _ _ h.2.2

theorem Steps.ids : ∀ {changes : List QueueChange} {l : List QueueEntry},
    Steps scope l changes l' →
      QueueEntry.ids l' = Ledger.replay (changes.flatMap QueueChange.ledger) (QueueEntry.ids l)
  | [], l, h => by
    unfold Steps at h
    rw [h]
    rfl
  | change :: changes, l, h => by
    rw [List.flatMap_cons, Ledger.replay_append, ← ids_apply h.1]
    exact Steps.ids h.2

/-- Without a clash of ids the ledger is exact. -/
theorem exact_ledger (hclashes : ¬ scope.clashes) (h : change.Allowed scope l) :
    Ledger.Exact change.ledger (ids l) := by
  rcases change with id | entry | ⟨id, entry⟩ | id | id | id | itemIds
  · exact ⟨mem_ids.2 h, trivial⟩
  · exact ⟨fun hmem => hclashes (h.2.2.2 (mem_ids.1 hmem)), trivial⟩
  · obtain ⟨-, -, ⟨replaced, hmem, hid, -, -⟩, hnew⟩ := h
    refine ⟨mem_ids.2 ⟨replaced, hmem, hid⟩, fun hentry => ?_, trivial⟩
    rw [Finset.mem_erase, mem_ids] at hentry
    obtain ⟨hne, e, he, heid⟩ := hentry
    exact hnew.elim hne fun hnew => hnew e he heid
  · trivial
  · trivial
  · trivial
  · trivial

theorem Steps.exact (hclashes : ¬ scope.clashes) : ∀ {changes : List QueueChange}
    {l : List QueueEntry}, Steps scope l changes l' →
      Ledger.Exact (changes.flatMap QueueChange.ledger) (QueueEntry.ids l)
  | [], _, _ => trivial
  | change :: changes, l, h => by
    rw [List.flatMap_cons, Ledger.exact_append, ← ids_apply h.1]
    exact ⟨exact_ledger hclashes h.1, Steps.exact hclashes h.2⟩

/-! ## Uniqueness -/

/-- At most one entry is in `p`. -/
def AtMostOne (p : QueueEntry → Prop) (l : List QueueEntry) : Prop :=
  ∀ a ∈ l, ∀ b ∈ l, p a → p b → a = b

theorem AtMostOne.of_subset {p : QueueEntry → Prop} (h : AtMostOne p l)
    (hsub : ∀ e ∈ l', e ∈ l) : AtMostOne p l' :=
  fun a ha b hb => h a (hsub a ha) b (hsub b hb)

theorem mem_mapAt {itemId : String} {f : QueueEntry → QueueEntry} {e : QueueEntry} :
    e ∈ mapAt itemId f l ↔
      (∃ x ∈ l, x.itemId = itemId ∧ e = f x) ∨ e ∈ l ∧ e.itemId ≠ itemId := by
  simp only [mapAt, List.mem_map]
  constructor
  · rintro ⟨x, hx, rfl⟩
    split_ifs with hid
    · exact .inl ⟨x, hx, hid, rfl⟩
    · exact .inr ⟨hx, hid⟩
  · rintro (⟨x, hx, hid, rfl⟩ | ⟨he, hid⟩)
    · exact ⟨x, hx, if_pos hid⟩
    · exact ⟨e, he, if_neg hid⟩

/-- What is there after an enqueue was there or is new. -/
theorem mem_enqueued {entry e : QueueEntry} (he : e ∈ (enqueued entry).apply l) :
    e = entry ∨ e ∈ l := by
  rw [QueueChange.apply] at he
  split_ifs at he
  · rcases mem_mapAt.1 he with ⟨x, -, -, rfl⟩ | ⟨he, -⟩
    · exact .inl rfl
    · exact .inr he
  · exact (List.mem_append.1 he).symm.imp_left List.mem_singleton.1

theorem fronted_perm (itemId : String) (l : List QueueEntry) :
    ((fronted itemId).apply l).Perm l := by
  have hqueued : l.filter isQueued = l.filter fun e => !e.isClaimed := by
    refine List.filter_congr fun e _ => ?_
    rcases hstatus : e.status <;> simp [isQueued, isClaimed, hstatus]
  have hsplit : ((l.filter fun e => e.isQueued && e.itemId = itemId) ++
      l.filter fun e => e.isQueued && e.itemId ≠ itemId).Perm (l.filter fun e => !e.isClaimed) := by
    have hperm := List.filter_append_perm (fun e : QueueEntry => e.itemId = itemId)
      (l.filter isQueued)
    rw [List.filter_filter, List.filter_filter, hqueued] at hperm
    simpa only [Bool.and_comm, decide_not] using hperm
  rw [QueueChange.apply, List.append_assoc]
  exact (hsplit.append_left _).trans (List.filter_append_perm _ _)

/-- The ids stay distinct. -/
theorem nodup_apply (h : change.Allowed scope l) (hl : (l.map QueueEntry.itemId).Nodup) :
    ((change.apply l).map QueueEntry.itemId).Nodup := by
  rcases change with id | entry | ⟨id, entry⟩ | id | id | id | itemIds
  · exact hl.sublist (List.filter_sublist.map _)
  · rw [QueueChange.apply]
    split_ifs with hid
    · rw [map_itemId_mapAt fun _ _ => rfl]
      exact hl
    · rw [List.map_append, List.map_singleton, List.nodup_append]
      refine ⟨hl, by simp, fun x hx y hy hxy => hid ?_⟩
      obtain ⟨e, he, rfl⟩ := List.mem_map.1 hx
      exact ⟨e, he, hxy.trans (List.mem_singleton.1 hy)⟩
  · obtain ⟨-, -, -, hnew⟩ := h
    rcases hnew with hsame | hnew
    · rw [QueueChange.apply, map_itemId_mapAt fun _ _ => hsame]
      exact hl
    · rw [QueueChange.apply, mapAt, List.map_map]
      refine (List.Nodup.of_map _ hl).map_on fun x hx y hy hxy => ?_
      simp only [Function.comp_apply] at hxy
      split_ifs at hxy with hx' hy' hy'
      · exact List.inj_on_of_nodup_map hl hx hy (hx'.trans hy'.symm)
      · exact absurd hxy.symm (hnew y hy)
      · exact absurd hxy (hnew x hx)
      · exact List.inj_on_of_nodup_map hl hx hy hxy
  · rwa [QueueChange.apply, map_itemId_mapAt]
    exact fun _ h => h
  · rwa [QueueChange.apply, map_itemId_mapAt]
    exact fun _ h => h
  · exact ((fronted_perm id l).map _).nodup_iff.2 hl
  · rw [ids_reordered h.2.2]
    exact h.2.2.nodup_iff.2 hl

/-- At most one entry is claimed, and of a request. -/
structure Sound (l : List QueueEntry) : Prop where
  ids : (l.map QueueEntry.itemId).Nodup
  claimed : AtMostOne (fun e => e.status = .claimed) l
  request : ∀ request, AtMostOne (fun e => e.clientRequestId = some request) l

/-- At most one entry is queued of a dedupe key. -/
def Keyed (l : List QueueEntry) : Prop :=
  ∀ key, AtMostOne (fun e => e.status = .queued ∧ e.dedupeKey = some key) l

/-- A new entry is the only one in `p`, if it is. -/
theorem atMostOne_new {p : QueueEntry → Prop} (entry : QueueEntry) (h : AtMostOne p l)
    (hsub : ∀ e ∈ l', e = entry ∨ e ∈ l ∧ (p entry → ¬ p e)) : AtMostOne p l' := by
  intro a ha b hb hpa hpb
  rcases hsub a ha with rfl | ⟨ha, hna⟩ <;> rcases hsub b hb with rfl | ⟨hb, hnb⟩
  · rfl
  · exact absurd hpb (hnb hpa)
  · exact absurd hpa (hna hpb)
  · exact h a ha b hb hpa hpb

/-- A rewritten entry is the only one in `p`, if it is. -/
theorem atMostOne_mapAt {p : QueueEntry → Prop} {itemId : String} {f : QueueEntry → QueueEntry}
    (hids : (l.map QueueEntry.itemId).Nodup) (h : AtMostOne p l)
    (hp : ∀ e ∈ l, e.itemId = itemId → p (f e) → p e ∨ ∀ x ∈ l, x.itemId ≠ itemId → ¬ p x) :
    AtMostOne p (mapAt itemId f l) := by
  intro a ha b hb hpa hpb
  rcases mem_mapAt.1 ha with ⟨x, hx, hxid, rfl⟩ | ⟨ha, haid⟩ <;>
    rcases mem_mapAt.1 hb with ⟨y, hy, hyid, rfl⟩ | ⟨hb, hbid⟩
  · rw [List.inj_on_of_nodup_map hids hx hy (hxid.trans hyid.symm)]
  · rcases hp x hx hxid hpa with hpx | hnone
    · exact absurd (h x hx b hb hpx hpb ▸ hxid) hbid
    · exact absurd hpb (hnone b hb hbid)
  · rcases hp y hy hyid hpb with hpy | hnone
    · exact absurd (h a ha y hy hpa hpy ▸ hyid) haid
    · exact absurd hpa (hnone a ha haid)
  · exact h a ha b hb hpa hpb

theorem Sound.apply (h : change.Allowed scope l) (hl : Sound l) : Sound (change.apply l) := by
  refine ⟨nodup_apply h hl.ids, ?_, fun request => ?_⟩
  · rcases change with id | entry | ⟨id, entry⟩ | id | id | id | itemIds
    · exact hl.claimed.of_subset fun e he => (List.mem_filter.1 he).1
    · refine atMostOne_new entry hl.claimed fun e he => (mem_enqueued he).imp_right
        fun he => ⟨he, fun hclaimed => ?_⟩
      rw [h.1] at hclaimed
      cases hclaimed
    · refine atMostOne_mapAt hl.ids hl.claimed fun e _ _ hclaimed => ?_
      rw [h.1] at hclaimed
      cases hclaimed
    · refine atMostOne_mapAt hl.ids hl.claimed fun e _ _ _ => .inr fun x hx _ hclaimed => ?_
      rw [h.2 x hx] at hclaimed
      cases hclaimed
    · refine atMostOne_mapAt hl.ids hl.claimed fun e _ _ hclaimed => ?_
      cases hclaimed
    · exact hl.claimed.of_subset fun e he => mem_fronted.1 he
    · exact hl.claimed.of_subset fun e he => (mem_reordered h.2.2 hl.ids).1 he
  · rcases change with id | entry | ⟨id, entry⟩ | id | id | id | itemIds
    · exact (hl.request request).of_subset fun e he => (List.mem_filter.1 he).1
    · exact atMostOne_new entry (hl.request request) fun e he =>
        (mem_enqueued he).imp_right fun he => ⟨he, fun hentry => h.2.1 request hentry e he⟩
    · exact atMostOne_mapAt hl.ids (hl.request request) fun e _ _ hentry =>
        .inr fun x hx _ => h.2.1 request hentry x hx
    · exact atMostOne_mapAt hl.ids (hl.request request) fun e _ _ he => .inl he
    · exact atMostOne_mapAt hl.ids (hl.request request) fun e _ _ he => .inl he
    · exact (hl.request request).of_subset fun e he => mem_fronted.1 he
    · exact (hl.request request).of_subset fun e he => (mem_reordered h.2.2 hl.ids).1 he

/-- The keys stay unique unless an item is put back while its key is taken. -/
theorem Keyed.apply (hduplicates : ¬ scope.duplicates) (h : change.Allowed scope l)
    (hl : Sound l) (hkeyed : Keyed l) : Keyed (change.apply l) := by
  intro key
  rcases change with id | entry | ⟨id, entry⟩ | id | id | id | itemIds
  · exact (hkeyed key).of_subset fun e he => (List.mem_filter.1 he).1
  · exact atMostOne_new entry (hkeyed key) fun e he => (mem_enqueued he).imp_right
      fun he => ⟨he, fun hentry hqueued => h.2.2.1 key hentry.2 e he hqueued.1 hqueued.2⟩
  · obtain ⟨-, -, ⟨replaced, hmem, hid, hqueued, hkey⟩, -⟩ := h
    refine atMostOne_mapAt hl.ids (hkeyed key) fun e _ _ hentry => .inr fun x hx hne hother => ?_
    have hsame := hkeyed key x hx replaced hmem hother ⟨hqueued, hkey.trans hentry.2⟩
    exact hne (hsame ▸ hid)
  · refine atMostOne_mapAt hl.ids (hkeyed key) fun e _ _ hqueued => ?_
    cases hqueued.1
  · obtain ⟨e, he, hid, -, hother⟩ := h
    refine atMostOne_mapAt hl.ids (hkeyed key) fun x hx hxid hqueued => .inr fun y hy hne hy' => ?_
    obtain rfl := List.inj_on_of_nodup_map hl.ids hx he (hxid.trans hid.symm)
    have hkey : x.dedupeKey = some key := hqueued.2
    exact hduplicates (hother ⟨y, hy, hne, hy'.2.trans hkey.symm, by simp [hkey]⟩)
  · exact (hkeyed key).of_subset fun e he => mem_fronted.1 he
  · exact (hkeyed key).of_subset fun e he => (mem_reordered h.2.2 hl.ids).1 he

end QueueChange

end Kinetick
