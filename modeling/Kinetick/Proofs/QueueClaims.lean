import Kinetick.Proofs.QueueEnqueue

/-!
# What the operations on claims commit

A claim is taken only where every row is queued, and put back only by a release or a recovery.
-/

namespace Kinetick

open QueueEntry QueueChange QueueRepository

variable {scope : QueueScope} {s : String} {db db' db'' : QueueDb} {env : QueueEnvironment}

/-! ## Claims -/

theorem claimCandidate_ok {input : QueueClaimInput} {selected : Option QueueItem}
    (h : claimCandidate input db = (.ok selected, db')) :
    db' = db ∧ ∀ item, selected = some item →
      Present input.sessionId db item ∧ item.status = .queued := by
  rcases hid : nonEmptyText input.itemId with _ | itemId <;> simp only [claimCandidate, hid] at h
  · obtain ⟨queued, db₁, hselect, h₁⟩ := Effect.bind_ok h
    obtain ⟨rfl, rfl⟩ := Effect.pure_ok h₁
    obtain ⟨hitems, rfl⟩ := select_ok hselect
    refine ⟨rfl, fun item hitem => ?_⟩
    obtain ⟨hpresent, row, -, hstatus, hdecodes⟩ :=
      present_of_forall₂ hitems (List.mem_of_find?_eq_some hitem)
    exact ⟨hpresent, hdecodes.status.trans (by simpa using hstatus)⟩
  · obtain ⟨item, db₁, hfind, h₁⟩ := Effect.bind_ok h
    obtain ⟨rfl, rfl⟩ := Effect.pure_ok h₁
    obtain ⟨rfl, hitem⟩ := find_ok hfind
    refine ⟨rfl, fun selected hselected => ?_⟩
    obtain ⟨rfl, hstatus⟩ := Option.filter_eq_some_iff.1 hselected
    exact ⟨hitem.1, by simpa using hstatus⟩

theorem dispatchItem_ok {item : QueueItem} {selection : QueueClaimSelection}
    {dispatched : QueueDispatchItem} (h : dispatchItem item selection db = (.ok dispatched, db')) :
    db' = db := by
  rcases hclaim : nonEmptyText item.claimId with _ | claimId <;>
    rcases howner : nonEmptyText item.claimOwnerId with _ | claimOwnerId <;>
    rcases hlease : item.claimLeaseExpiresAt with _ | claimLeaseExpiresAt <;>
    simp only [dispatchItem, hclaim, howner, hlease] at h <;> cases h
  rfl

/-- What is dispatched is the item, by its claim. -/
theorem dispatchItem_answer {item : QueueItem} {selection : QueueClaimSelection}
    {dispatched : QueueDispatchItem} (h : dispatchItem item selection db = (.ok dispatched, db')) :
    item.claimId = some dispatched.claimId ∧ dispatched.selection = selection ∧
      dispatched.sessionId = item.sessionId ∧ dispatched.item = item := by
  rcases hclaim : nonEmptyText item.claimId with _ | claimId <;>
    rcases howner : nonEmptyText item.claimOwnerId with _ | claimOwnerId <;>
    rcases hlease : item.claimLeaseExpiresAt with _ | claimLeaseExpiresAt <;>
    simp only [dispatchItem, hclaim, howner, hlease] at h <;> cases h
  exact ⟨Option.eq_some_of_filter_eq_some hclaim, rfl, rfl, rfl⟩

/-- A claim of the candidate, where no row is claimed. -/
theorem claimSelected_does {input : QueueClaimInput} {nowMs : JsNumber}
    {value : Option QueueDispatchItem} (hqueued : ∀ e ∈ db.entries input.sessionId, e.status = .queued)
    (h : claimSelected env input nowMs db = (.ok value, db')) :
    Does scope input.sessionId [] db db' := by
  obtain ⟨selected, db₁, hcandidate, h₁⟩ := Effect.bind_ok h
  obtain ⟨rfl, hselected⟩ := claimCandidate_ok hcandidate
  rcases selected with _ | item
  · obtain ⟨rfl, rfl⟩ := Effect.pure_ok h₁
    exact .refl _ _ _
  dsimp only at h₁
  split_ifs at h₁
  · obtain ⟨rfl, rfl⟩ := Effect.pure_ok h₁
    exact .refl _ _ _
  obtain ⟨claimed, db₂, hclaim, h₂⟩ := Effect.bind_ok h₁
  obtain ⟨dispatched, db₃, hdispatch, h₃⟩ := Effect.bind_ok h₂
  obtain ⟨rfl, rfl⟩ := Effect.pure_ok h₃
  obtain rfl := dispatchItem_ok hdispatch
  obtain ⟨⟨⟩, db₄, hwrite, h₄⟩ := Effect.bind_ok hclaim
  obtain ⟨rfl, rfl⟩ := Effect.pure_ok h₄
  obtain ⟨hpresent, hstatus⟩ := hselected item rfl
  refine does_of_becomes (becomes_claim ?_ hwrite (fun hdb => ?_) hqueued) rfl
  · exact hpresent.sessionId
  · exact ⟨item.entry, hpresent.entry hdb, hstatus, rfl⟩

theorem claimNext_committed {input : QueueClaimInput}
    {result : CommittedQueueResult (Option QueueDispatchItem)}
    (h : claimNext env input db = (.ok result, db')) :
    Committed scope input.sessionId result.facts db db' := by
  refine transaction_committed (fun {result db'} h => ?_) h
  obtain ⟨facts, db₁, hexpire, h₁⟩ := Effect.bind_ok h
  obtain ⟨paused, db₂, hpaused, h₂⟩ := Effect.bind_ok h₁
  obtain ⟨rfl, rfl⟩ := Effect.read_ok hpaused
  split_ifs at h₂
  · obtain ⟨rfl, rfl⟩ := Effect.pure_ok h₂
    exact (expire_does hexpire).commits
  obtain ⟨claimed, db₃, hclaimed, h₃⟩ := Effect.bind_ok h₂
  obtain ⟨rfl, rfl⟩ := Effect.read_ok hclaimed
  split_ifs at h₃ with hany
  · obtain ⟨rfl, rfl⟩ := Effect.pure_ok h₃
    exact (expire_does hexpire).commits
  obtain ⟨value, db₄, hvalue, h₄⟩ := Effect.bind_ok h₃
  obtain ⟨rfl, rfl⟩ := Effect.pure_ok h₄
  have hqueued : ∀ e ∈ db₃.entries input.sessionId, e.status = .queued := fun e he => by
    obtain ⟨row, hrow, rfl⟩ := List.mem_map.1 he
    exact queued_of_not_hasClaimed hany row hrow
  have hdoes : Does scope _ _ db db' := (expire_does hexpire).trans (claimSelected_does hqueued hvalue)
  rw [List.append_nil] at hdoes
  exact hdoes.commits

/-! ## Deliveries -/

theorem prepareItem_does {claimId turnId : String} {item : QueueItem} (hitem : Present s db item)
    (h : prepareItem claimId turnId item db = (.ok (), db')) :
    Does scope s [] db db' ∧ KeepsOthers s item.itemId db db' := by
  unfold prepareItem at h
  rcases hfind : (item.deliveryAttempts.getD []).find? (fun attempt => attempt.claimId = claimId)
    with _ | existing <;> rw [hfind] at h
  · have hkeeps := keepsOthers_write (by exact hitem.sessionId) h
    exact ⟨does_edit hitem (by rfl) (by rfl) h, hkeeps⟩
  · dsimp only at h
    split_ifs at h
    · cases h
    · obtain ⟨-, rfl⟩ := Effect.pure_ok h
      exact ⟨.refl _ _ _, fun _ hrow _ => hrow⟩

/-- A step without facts leaves the ids. -/
theorem Does.ids (h : Does scope s [] db db') (hdb : db.Stored) :
    ids (db'.entries s) = ids (db.entries s) := by
  obtain ⟨changes, hbecomes, hlogs⟩ := h
  have hledger := hlogs.ledger s
  rw [if_pos rfl, List.flatMap_nil] at hledger
  rw [(hbecomes.steps hdb).ids, ← hledger]
  rfl

/-- A body that commits no fact and leaves items and pause has a transaction without facts. -/
theorem transaction_noFacts {α : Type} {operation : QueueTransaction (CommittedQueueResult α)}
    {result : CommittedQueueResult α}
    (hbody : ∀ {result db'}, operation db = (.ok result, db') →
      result.facts = [] ∧ db'.rows s ≠ [] ∧ db'.pauses = db.pauses)
    (h : transaction s operation db = (.ok result, db')) : result.facts = [] := by
  replace h := Effect.atomically_ok h
  obtain ⟨before, db₁, hbefore, h₁⟩ := Effect.bind_ok h
  obtain ⟨rfl, rfl⟩ := Effect.read_ok hbefore
  obtain ⟨inner, db₂, hinner, h₂⟩ := Effect.bind_ok h₁
  obtain ⟨⟨⟩, db₃, hreconcile, h₃⟩ := Effect.bind_ok h₂
  obtain ⟨after, db₄, hafter, h₄⟩ := Effect.bind_ok h₃
  obtain ⟨rfl, rfl⟩ := Effect.read_ok hafter
  obtain ⟨rfl, rfl⟩ := Effect.pure_ok h₄
  obtain ⟨hfacts, hrows, hpauses⟩ := hbody hinner
  have hafter : db'.pauses s = db₁.pauses s := by
    rw [(reconcilePause_ok hreconcile).2.2, if_neg hrows, hpauses]
  rw [withPauseRemovalFact_facts, hfacts, hafter]
  rcases db₁.pauses s with _ | pause <;> simp

theorem prepareDelivery_committed {claimId turnId : String} (hdb : db.Stored)
    (h : prepareDelivery s claimId turnId db = (.ok (), db')) : Committed scope s [] db db' := by
  unfold prepareDelivery at h
  by_cases hturn : turnId = ""
  · rw [if_pos hturn] at h
    cases h
  rw [if_neg hturn] at h
  obtain ⟨result, db₁, htransaction, h₁⟩ := Effect.bind_ok h
  obtain ⟨-, rfl⟩ := Effect.pure_ok h₁
  have hbody : ∀ {result : CommittedQueueResult Unit} {db' : QueueDb}, (do
      let items ← claimRows s claimId
      if items.isEmpty then Effect.raise (.claimNotFound s claimId)
      else do
        Effect.forEach (prepareItem claimId turnId) items
        return { value := (), facts := [] } : QueueTransaction _) db = (.ok result, db') →
      result.facts = [] ∧ db'.rows s ≠ [] ∧ Does scope s [] db db' := by
    intro result db' h
    obtain ⟨items, db₂, hselect, h₂⟩ := Effect.bind_ok h
    obtain ⟨hitems, rfl⟩ := select_ok hselect
    split_ifs at h₂ with hempty
    · cases h₂
    obtain ⟨⟨⟩, db₃, hforEach, h₃⟩ := Effect.bind_ok h₂
    obtain ⟨rfl, rfl⟩ := Effect.pure_ok h₃
    have hdoes : Does scope s _ db₂ db' := (forEach_does prepareItem_does (nodup_of_forall₂ hitems)
      (fun item hitem => (present_of_forall₂ hitems hitem).1) hforEach).1
    have hnone : items.flatMap (fun _ => ([] : List QueueCommittedFact)) = [] := by simp
    rw [hnone] at hdoes
    refine ⟨rfl, fun hrows => ?_, hdoes⟩
    -- The rows of the claim are still there.
    have hids := hdoes.ids hdb
    rw [QueueDb.entries, hrows] at hids
    obtain ⟨item, hitem⟩ := List.exists_mem_of_ne_nil items (by simpa using hempty)
    have hmem := mem_ids.2 ⟨item.entry, (present_of_forall₂ hitems hitem).1.entry hdb, rfl⟩
    rw [← hids] at hmem
    simp [QueueEntry.ids] at hmem
  have hfacts := transaction_noFacts (fun h => ⟨(hbody h).1, (hbody h).2.1, ?_⟩) htransaction
  · have hcommitted : Committed scope s _ db db' := transaction_committed (fun h => ?_) htransaction
    · rwa [hfacts] at hcommitted
    · rw [(hbody h).1]
      exact (hbody h).2.2.commits
  · obtain ⟨changes, hbecomes, -⟩ := (hbody h).2.2
    exact hbecomes.pauses

/-! ## Settlement -/

theorem heldRows_ok {claimId : String} {items : List QueueItem}
    (h : heldRows s claimId db = (.ok items, db')) : db' = db ∧
      List.Forall₂ Decodes
        ((db.rows s).filter fun row => row.status = .claimed && row.claimId = some claimId) items := by
  obtain ⟨claimed, db₁, hselect, h₁⟩ := Effect.bind_ok h
  obtain ⟨hitems, rfl⟩ := select_ok hselect
  split_ifs at h₁
  · cases h₁
  · obtain ⟨rfl, rfl⟩ := Effect.pure_ok h₁
    exact ⟨rfl, hitems⟩

theorem claimQuery_ok {items : List QueueItem} {claimId : String} {turnId : Option String}
    {query : QueueClaimAcceptanceQuery} (h : claimQuery items claimId turnId db = (.ok query, db')) :
    db' = db := by
  rcases items with _ | ⟨first, rest⟩
  · cases h
  · exact (Effect.pure_ok h).2

/-- Deleting the items of a claim. -/
theorem deleteSelected_does {p : QueueRow → Bool} {items : List QueueItem}
    (reason : QueueRemovalReason) (nowMs : JsNumber) (admissionReason : Option String)
    (hitems : List.Forall₂ Decodes ((db.rows s).filter p) items)
    (h : deleteItems s items db = (.ok (), db')) :
    Does scope s (items.map (removalFact reason nowMs admissionReason)) db db' :=
  (deleteItems_does reason nowMs admissionReason (nodup_of_forall₂ hitems)
    (fun _ hitem => (present_of_forall₂ hitems hitem).1) h).1

theorem acknowledgeClaim_committed {claimId : String} {turnId : Option String}
    {isAccepted : Option (QueueClaimAcceptanceQuery → Bool)}
    {result : CommittedQueueResult (List QueueItem)}
    (h : acknowledgeClaim env s claimId turnId isAccepted db = (.ok result, db')) :
    Committed scope s result.facts db db' := by
  unfold acknowledgeClaim at h
  by_cases hclaim : claimId = ""
  · rw [if_pos hclaim] at h
    cases h
  rw [if_neg hclaim] at h
  refine transaction_committed (fun {result db'} h => ?_) h
  obtain ⟨facts, db₁, hexpire, h₁⟩ := Effect.bind_ok h
  obtain ⟨claimed, db₂, hheld, h₂⟩ := Effect.bind_ok h₁
  obtain ⟨rfl, hitems⟩ := heldRows_ok hheld
  obtain ⟨query, db₃, hquery, h₃⟩ := Effect.bind_ok h₂
  obtain rfl := claimQuery_ok hquery
  split_ifs at h₃
  · cases h₃
  obtain ⟨⟨⟩, db₄, hdelete, h₄⟩ := Effect.bind_ok h₃
  obtain ⟨rfl, rfl⟩ := Effect.pure_ok h₄
  exact ((expire_does hexpire).trans (deleteSelected_does _ _ _ hitems hdelete)).commits

theorem settleClaim_committed {claimId : String} {reason : QueueRemovalReason}
    {admissionReason : Option String} {result : CommittedQueueResult (List QueueItem)}
    (h : settleClaim env s claimId reason admissionReason db = (.ok result, db')) :
    Committed scope s result.facts db db' := by
  unfold settleClaim at h
  by_cases hclaim : claimId = ""
  · rw [if_pos hclaim] at h
    cases h
  rw [if_neg hclaim] at h
  refine transaction_committed (fun {result db'} h => ?_) h
  obtain ⟨facts, db₁, hexpire, h₁⟩ := Effect.bind_ok h
  obtain ⟨claimed, db₂, hheld, h₂⟩ := Effect.bind_ok h₁
  obtain ⟨rfl, hitems⟩ := heldRows_ok hheld
  obtain ⟨⟨⟩, db₃, hdelete, h₃⟩ := Effect.bind_ok h₂
  obtain ⟨rfl, rfl⟩ := Effect.pure_ok h₃
  exact ((expire_does hexpire).trans (deleteSelected_does _ _ _ hitems hdelete)).commits

/-! ## Releases -/

/-- The ids and dedupe keys are among those of another state. -/
def KeepsKeys (s : String) (db₀ db : QueueDb) : Prop :=
  db.Stored ∧ ∀ e ∈ db.entries s, ∃ e₀ ∈ db₀.entries s, e₀.itemId = e.itemId ∧
    e₀.dedupeKey = e.dedupeKey

theorem KeepsKeys.shrinks {db₀ : QueueDb} (h : KeepsKeys s db₀ db) (hshrinks : Shrinks s db db')
    (hstored : db'.Stored) : KeepsKeys s db₀ db' := by
  refine ⟨hstored, fun e he => ?_⟩
  obtain ⟨row, hrow, rfl⟩ := List.mem_map.1 he
  exact h.2 _ (List.mem_map.2 ⟨row, hshrinks row hrow, rfl⟩)

/-- Putting a claimed item back, where its key is new or the scope lets it. -/
theorem releaseItem_does {db₀ : QueueDb} {reason : Option String} {item : QueueItem}
    {released : Option QueueItem × QueueCommittedFact} (hitem : Present s db item)
    (hclaimed : item.status = .claimed) (hkeys : KeepsKeys s db₀ db)
    (hduplicates : expired env.nowMs item = false → item.dedupeKey ≠ none →
      ∀ e ∈ db₀.entries s, e.itemId ≠ item.itemId → e.dedupeKey = item.dedupeKey →
        scope.duplicates)
    (h : releaseItem env s reason item db = (.ok released, db')) :
    Does scope s [released.2] db db' ∧ KeepsKeys s db₀ db' ∧ KeepsOthers s item.itemId db db' := by
  unfold releaseItem at h
  by_cases hexpired : expired env.nowMs item = true
  · rw [if_pos hexpired] at h
    obtain ⟨⟨⟩, db₁, hdelete, h₁⟩ := Effect.bind_ok h
    obtain ⟨rfl, rfl⟩ := Effect.pure_ok h₁
    have hdoes : Does scope s _ db db' := does_deleteItem .expired env.nowMs none hitem hdelete
    refine ⟨hdoes, hkeys.shrinks ?_ (hdoes.stored hkeys.1), keepsOthers_deleteItem hdelete⟩
    rw [deleteRows_ok hdelete]
    exact filtered_deleteRows.shrinks
  · rw [if_neg hexpired] at h
    obtain ⟨⟨⟩, db₁, hwrite, h₁⟩ := Effect.bind_ok h
    obtain ⟨rfl, rfl⟩ := Effect.pure_ok h₁
    have hsession : (withoutClaim item).sessionId = s := hitem.sessionId
    have hbecomes : Becomes scope s [released (withoutClaim item).itemId] db db' := by
      refine becomes_release hsession hwrite fun hdb =>
        ⟨item.entry, hitem.entry hdb, hclaimed, rfl, ?_⟩
      rintro ⟨e, he, hid, hkey, hsome⟩
      obtain ⟨e₀, he₀, hid₀, hkey₀⟩ := hkeys.2 e he
      exact hduplicates (by simpa using hexpired) hsome e₀ he₀ (hid₀ ▸ hid) (hkey₀.trans hkey)
    have hkeeps : KeepsOthers s (withoutClaim item).itemId db db' :=
      keepsOthers_write hsession hwrite
    refine ⟨⟨_, hbecomes, ?_⟩, ⟨hbecomes.stored hkeys.1, fun e he => ?_⟩, hkeeps⟩
    · exact ⟨fun t => by simp [requeueFact, QueueCommittedFact.ledger, QueueChange.ledger],
        fun t p => by simp [requeueFact]⟩
    · have hentries : db'.entries s = _ := (hbecomes.steps hkeys.1).2
      rw [hentries] at he
      obtain ⟨x, hx, rfl⟩ := List.mem_map.1 he
      obtain ⟨e₀, he₀, hid₀, hkey₀⟩ := hkeys.2 x hx
      refine ⟨e₀, he₀, ?_⟩
      split_ifs
      · exact ⟨hid₀, hkey₀⟩
      · exact ⟨hid₀, hkey₀⟩

/-- Putting back the items of a claim, one after the other. -/
theorem releaseItems_does {db₀ : QueueDb} {reason : Option String} {items : List QueueItem}
    {released : List (Option QueueItem × QueueCommittedFact)}
    (hpresent : ∀ item ∈ items, Present s db item) (hnodup : (items.map QueueItem.itemId).Nodup)
    (hclaimed : ∀ item ∈ items, item.status = .claimed) (hkeys : KeepsKeys s db₀ db)
    (hduplicates : ∀ item ∈ items, expired env.nowMs item = false → item.dedupeKey ≠ none →
      ∀ e ∈ db₀.entries s, e.itemId ≠ item.itemId → e.dedupeKey = item.dedupeKey →
        scope.duplicates)
    (h : Effect.gather (releaseItem env s reason) items db = (.ok released, db')) :
    Does scope s (released.map Prod.snd) db db' ∧ KeepsKeys s db₀ db' ∧
      ∀ item, (∀ other ∈ items, other.itemId ≠ item.itemId) → Present s db item →
        Present s db' item := by
  rw [List.map_eq_flatMap]
  refine gather_does (fun item other : QueueItem => item.itemId ≠ other.itemId)
    (fun item db => Present s db item) (KeepsKeys s db₀)
    (fun item hitem db b db' hready hkeys h => ?_) (List.pairwise_map.1 hnodup) hpresent hkeys h
  obtain ⟨hdoes, hkeys', hothers⟩ :=
    releaseItem_does hready (hclaimed item hitem) hkeys (hduplicates item hitem) h
  exact ⟨hdoes, hkeys', fun other hne hother => hothers.present hother (Ne.symm hne)⟩

/-- After what expired is deleted, no row is expired. -/
theorem expire_unexpired {nowMs : JsNumber} {facts : List QueueCommittedFact}
    (h : expire s nowMs db = (.ok facts, db')) :
    ∀ row, row ∈ db'.rows s ↔ row ∈ db.rows s ∧ isExpiredRow nowMs row = false := by
  intro row
  rw [expire_filtered h, List.mem_filter, Bool.not_eq_true']

/-- What expired was queued, so the claimed rows stay. -/
theorem expire_claimed {nowMs : JsNumber} {facts : List QueueCommittedFact}
    (h : expire s nowMs db = (.ok facts, db')) {p : QueueRow → Bool}
    (hp : ∀ row, p row = true → row.status = .claimed) :
    (db'.rows s).filter p = (db.rows s).filter p := by
  rw [expire_filtered h, List.filter_filter]
  refine List.filter_congr fun row _ => ?_
  rcases hrow : p row with _ | _
  · rfl
  · simp [isExpiredRow, hp row hrow]

/-- The expiry of a stored row is that of the item it decodes to. -/
theorem Decodes.expiresAt {row : QueueRow} {item : QueueItem} (h : Decodes row item)
    (hstored : ∃ item, row = QueueItem.storage item) : item.expiresAt = row.expiresAtMs := by
  obtain ⟨item₀, rfl⟩ := hstored
  obtain ⟨-, rfl⟩ := QueueItem.eq_json_of_decode h.decoded
  rfl

/-- An operation that only puts back items duplicates a key only where it is taken. -/
theorem duplicates_of_entry {op : QueueOperation}
    {facts : List QueueCommittedFact} (hdb : db.Stored)
    (hexpire : expire s env.nowMs db = (.ok facts, db')) {item : QueueItem}
    {row : QueueRow} (hrow : row ∈ db'.rows s) (hdecodes : Decodes row item)
    (hrequeues : op.Requeues env db row) (hunexpired : expired env.nowMs item = false)
    (hsome : item.dedupeKey ≠ none) {e : QueueEntry} (he : e ∈ db'.entries s)
    (hid : e.itemId ≠ item.itemId) (hkey : e.dedupeKey = item.dedupeKey) :
    op.Duplicates env db := by
  obtain ⟨other, hother, rfl⟩ := List.mem_map.1 he
  rw [expire_unexpired hexpire] at hrow hother
  have hstored := hdb.rows row hrow.1
  have hentry : item.dedupeKey = row.dedupeKey :=
    congrArg QueueEntry.dedupeKey (hdecodes.entry hstored)
  refine ⟨row, hrequeues, ?_, hentry ▸ hsome, other, ?_, ?_, hkey.trans hentry, hother.2⟩
  · rw [← hdecodes.expiresAt hstored]
    exact hunexpired
  · rw [(mem_rows.1 hrow.1).2]
    exact hother.1
  · rw [← hdecodes.itemId]
    exact hid

/-- What an operation that puts back items may do. -/
def requeueScope (env : QueueEnvironment) (db : QueueDb) (op : QueueOperation) : QueueScope where
  clashes := False
  duplicates := op.Duplicates env db
  fronts _ := False
  reorders := False

theorem keepsKeys_refl (hdb : db.Stored) : KeepsKeys s db db :=
  ⟨hdb, fun e he => ⟨e, he, rfl, rfl⟩⟩

theorem releaseClaim_committed {claimId : String} {reason : Option String}
    {result : CommittedQueueResult (List QueueItem)} (hdb : db.Stored)
    (h : releaseClaim env s claimId reason db = (.ok result, db')) :
    Committed (requeueScope env db (.releaseClaim s claimId reason)) s result.facts db db' := by
  unfold releaseClaim at h
  by_cases hclaim : claimId = ""
  · rw [if_pos hclaim] at h
    obtain ⟨rfl, rfl⟩ := Effect.pure_ok h
    exact .refl _ _ _
  rw [if_neg hclaim] at h
  refine transaction_committed (fun {result db'} h => ?_) h
  obtain ⟨facts, db₁, hexpire, h₁⟩ := Effect.bind_ok h
  obtain ⟨claimed, db₂, hselect, h₂⟩ := Effect.bind_ok h₁
  obtain ⟨hitems, rfl⟩ := select_ok hselect
  obtain ⟨released, db₃, hgather, h₃⟩ := Effect.bind_ok h₂
  obtain ⟨rfl, rfl⟩ := Effect.pure_ok h₃
  have hexpired : Does (requeueScope env db (.releaseClaim s claimId reason)) s facts db db₂ :=
    expire_does hexpire
  refine (hexpired.trans (releaseItems_does (fun item hitem => (present_of_forall₂ hitems hitem).1)
    (nodup_of_forall₂ hitems) (fun item hitem => ?_) (keepsKeys_refl (hexpired.stored hdb))
    (fun item hitem hunexpired hsome e he hid hkey => ?_) hgather).1).commits
  · obtain ⟨-, row, -, hstatus, hdecodes⟩ := present_of_forall₂ hitems hitem
    simp only [Bool.and_eq_true, decide_eq_true_eq] at hstatus
    rw [hdecodes.status, hstatus.1]
  · obtain ⟨-, row, hrow, hstatus, hdecodes⟩ := present_of_forall₂ hitems hitem
    simp only [Bool.and_eq_true, decide_eq_true_eq] at hstatus
    exact duplicates_of_entry hdb hexpire hrow hdecodes
      ⟨((expire_unexpired hexpire row).1 hrow).1, hstatus⟩ hunexpired hsome he hid hkey

/-! ## Recovery -/

theorem nodup_eraseDups : ∀ l : List String, l.eraseDups.Nodup
  | [] => by simp
  | a :: as => by
    rw [List.eraseDups_cons, List.nodup_cons]
    refine ⟨fun hmem => ?_, nodup_eraseDups _⟩
    simpa using (List.mem_filter.1 (List.mem_eraseDups.1 hmem)).2
termination_by l => l.length
decreasing_by exact Nat.lt_succ_of_le (List.length_filter_le _ _)

/-- The items of a claim that is recovered. -/
theorem mem_groupRecoverable {recovery : QueueClaimRecoveryScope} {items : List QueueItem}
    {group : String × List QueueItem} (hgroup : group ∈ groupRecoverable env recovery items) :
    group.2 = items.filter (fun item => item.status = .claimed && item.claimId = some group.1) := by
  obtain ⟨hgroup, -⟩ := List.mem_filter.1 hgroup
  unfold groupClaims at hgroup
  obtain ⟨claimId, -, rfl⟩ := List.mem_map.1 hgroup
  rw [List.filter_filter]
  exact List.filter_congr fun item _ => Bool.and_comm _ _

/-- Different claims have different items. -/
theorem pairwise_groupRecoverable {recovery : QueueClaimRecoveryScope} {items : List QueueItem}
    (hnodup : (items.map QueueItem.itemId).Nodup) :
    (groupRecoverable env recovery items).Pairwise fun group group' =>
      ∀ item ∈ group.2, ∀ item' ∈ group'.2, item.itemId ≠ item'.itemId := by
  have hids : (groupRecoverable env recovery items).Pairwise fun group group' =>
      group.1 ≠ group'.1 := by
    refine List.Pairwise.sublist List.filter_sublist ?_
    unfold groupClaims
    exact List.pairwise_map.2 (nodup_eraseDups _)
  refine List.Pairwise.imp_of_mem
    (fun {group group'} hgroup hgroup' hne item hitem item' hitem' hid => ?_) hids
  rw [mem_groupRecoverable hgroup] at hitem
  rw [mem_groupRecoverable hgroup'] at hitem'
  simp only [List.mem_filter, Bool.and_eq_true, decide_eq_true_eq] at hitem hitem'
  have hsame := List.inj_on_of_nodup_map hnodup hitem.1 hitem'.1 hid
  subst hsame
  exact hne (Option.some.inj (hitem.2.2.symm.trans hitem'.2.2))

theorem claimQuery_congr {items : List QueueItem} {claimId : String} {turnId : Option String}
    {query : QueueClaimAcceptanceQuery} (h : claimQuery items claimId turnId db = (.ok query, db'))
    (db'' : QueueDb) : (claimQuery items claimId turnId db'').1 = .ok query := by
  rcases items with _ | ⟨first, rest⟩
  · cases h
  · exact congrArg Prod.fst h

/-- A recovery of a claim deletes its items or puts them back. -/
theorem recoverClaim_does {db₀ : QueueDb} {isAccepted : QueueClaimAcceptanceQuery → Bool}
    {group : String × List QueueItem}
    {recovered : QueueClaimRecoveryResult × List QueueCommittedFact}
    (hpresent : ∀ item ∈ group.2, Present s db item)
    (hnodup : (group.2.map QueueItem.itemId).Nodup)
    (hclaimed : ∀ item ∈ group.2, item.status = .claimed) (hkeys : KeepsKeys s db₀ db)
    (hduplicates : (∀ db, putsBack isAccepted db group) → ∀ item ∈ group.2,
      expired env.nowMs item = false → item.dedupeKey ≠ none →
      ∀ e ∈ db₀.entries s, e.itemId ≠ item.itemId → e.dedupeKey = item.dedupeKey →
        scope.duplicates)
    (h : recoverClaim env s isAccepted group db = (.ok recovered, db')) :
    Does scope s recovered.2 db db' ∧ KeepsKeys s db₀ db' ∧
      ∀ item, (∀ other ∈ group.2, other.itemId ≠ item.itemId) → Present s db item →
        Present s db' item := by
  obtain ⟨query, db₁, hquery, h₁⟩ := Effect.bind_ok h
  obtain rfl := claimQuery_ok hquery
  by_cases haccepted : (!pendingDelivery group.1 group.2 && isAccepted query) = true
  · rw [if_pos haccepted] at h₁
    obtain ⟨⟨⟩, db₂, hdelete, h₂⟩ := Effect.bind_ok h₁
    obtain ⟨rfl, rfl⟩ := Effect.pure_ok h₂
    obtain ⟨hdoes, hothers⟩ : Does scope s _ db₁ db' ∧ _ :=
      deleteItems_does .accepted env.nowMs none hnodup hpresent hdelete
    refine ⟨hdoes, ?_, fun item hne hitem => hothers item (fun hmem => ?_) hitem⟩
    · exact hkeys.shrinks (shrinks_deleteItems hdelete) (hdoes.stored hkeys.1)
    · obtain ⟨other, hother, hid⟩ := List.mem_map.1 hmem
      exact hne other hother hid
  · rw [if_neg haccepted] at h₁
    obtain ⟨released, db₂, hgather, h₂⟩ := Effect.bind_ok h₁
    obtain ⟨rfl, rfl⟩ := Effect.pure_ok h₂
    refine releaseItems_does hpresent hnodup hclaimed hkeys (hduplicates fun db => ?_) hgather
    exact ⟨query, claimQuery_congr hquery db, by simpa using haccepted⟩

theorem recoverClaims_committed {isAccepted : QueueClaimAcceptanceQuery → Bool}
    {recovery : QueueClaimRecoveryScope} {result : CommittedQueueResult QueueClaimRecoveryResult}
    (hdb : db.Stored) (h : recoverClaims env s isAccepted recovery db = (.ok result, db')) :
    Committed (requeueScope env db (.recoverClaims s isAccepted recovery)) s result.facts db db' := by
  refine transaction_committed (fun {result db'} h => ?_) h
  obtain ⟨facts, db₁, hexpire, h₁⟩ := Effect.bind_ok h
  obtain ⟨claimed, db₂, hselect, h₂⟩ := Effect.bind_ok h₁
  have hdecoded : decodeRows ((db₁.rows s).filter fun row => row.status = .claimed) =
      .ok claimed := congrArg Prod.fst hselect
  obtain ⟨hitems, rfl⟩ := select_ok hselect
  obtain ⟨recovered, db₃, hgather, h₃⟩ := Effect.bind_ok h₂
  obtain ⟨rfl, rfl⟩ := Effect.pure_ok h₃
  have hexpired : Does (requeueScope env db (.recoverClaims s isAccepted recovery)) s facts db db₂ :=
    expire_does hexpire
  have hstatus : ∀ item ∈ claimed, item.status = .claimed ∧ ∃ row ∈ db₂.rows s, Decodes row item :=
    fun item hitem => by
      obtain ⟨-, row, hrow, hstatus, hdecodes⟩ := present_of_forall₂ hitems hitem
      exact ⟨hdecodes.status.trans (by simpa using hstatus), row, hrow, hdecodes⟩
  have hmem : ∀ group ∈ groupRecoverable env recovery claimed, ∀ item ∈ group.2,
      item ∈ claimed := fun group hgroup item hitem => by
    rw [mem_groupRecoverable hgroup] at hitem
    exact (List.mem_filter.1 hitem).1
  refine (hexpired.trans (gather_does (fun group group' : String × List QueueItem =>
      ∀ item ∈ group.2, ∀ item' ∈ group'.2, item.itemId ≠ item'.itemId)
    (fun group db => ∀ item ∈ group.2, Present s db item) (KeepsKeys s db₂)
    (fun group hgroup db₄ b db₅ hready hkeys h => ?_) (pairwise_groupRecoverable ?_)
    (fun group hgroup item hitem => ?_) (keepsKeys_refl (hexpired.stored hdb)) hgather).1).commits
  · have hnodup : (group.2.map QueueItem.itemId).Nodup := by
      rw [mem_groupRecoverable hgroup]
      exact (nodup_of_forall₂ hitems).sublist (List.filter_sublist.map _)
    obtain ⟨hdoes, hkeys', hothers⟩ :
        Does (requeueScope env db (.recoverClaims s isAccepted recovery)) s b.2 db₄ db₅ ∧ _ :=
      recoverClaim_does hready hnodup
      (fun item hitem => (hstatus item (hmem group hgroup item hitem)).1) hkeys
      (fun hputsBack item hitem hunexpired hsome e he hid hkey => by
        obtain ⟨-, row, hrow, hdecodes⟩ := hstatus item (hmem group hgroup item hitem)
        rw [expire_claimed hexpire (by simp)] at hdecoded
        have hrequeues : QueueOperation.Requeues env db row (.recoverClaims s isAccepted recovery) :=
          ⟨((expire_unexpired hexpire row).1 hrow).1, claimed, hdecoded, group, hgroup,
            hputsBack db, item, hitem, hdecodes.itemId⟩
        exact duplicates_of_entry hdb hexpire hrow hdecodes hrequeues hunexpired hsome he hid hkey) h
    exact ⟨hdoes, hkeys', fun other hapart hother item hitem =>
      hothers item (fun mine hmine => hapart mine hmine item hitem) (hother item hitem)⟩
  · exact nodup_of_forall₂ hitems
  · exact (present_of_forall₂ hitems (hmem group hgroup item hitem)).1

/-! ## Every operation -/

theorem Committed.mono {scope' : QueueScope} {facts : List QueueCommittedFact}
    (hle : QueueScope.Le scope scope') (h : Committed scope s facts db db') :
    Committed scope' s facts db db' := by
  obtain ⟨⟨changes, hsteps, hledger⟩, hstored, hothers, hstate, hreconciled⟩ := h
  exact ⟨⟨changes, fun hdb => (hsteps hdb).mono hle, hledger⟩, hstored, hothers, hstate, hreconciled⟩

theorem enqueueScope_le {input : QueueEnqueueInput}
    {result : CommittedQueueResult (Option QueueEnqueueResult)}
    (h : enqueue env input db = (.ok result, db')) :
    QueueScope.Le (enqueueScope env input db result.value)
      (QueueOperation.scope env db (.enqueue input)) where
  clashes h := h
  duplicates h := h.elim
  fronts itemId := by
    rintro ⟨hfront, r, hr, rfl⟩
    simp [QueueOperation.scope, QueueOperation.frontItem, hfront, h, hr]
  reorders h := h.elim

theorem requeueScope_le {op : QueueOperation} :
    QueueScope.Le (requeueScope env db op) (op.scope env db) where
  clashes h := h.elim
  duplicates h := h
  fronts _ h := h.elim
  reorders h := h.elim

theorem facts_ok {α : Type} {m : QueueTransaction (CommittedQueueResult α)}
    {facts : List QueueCommittedFact} (h : QueueOperation.facts m db = (.ok facts, db')) :
    ∃ result, m db = (.ok result, db') ∧ result.facts = facts := by
  obtain ⟨result, db₁, hm, h₁⟩ := Effect.bind_ok h
  obtain ⟨rfl, rfl⟩ := Effect.pure_ok h₁
  exact ⟨result, hm, rfl⟩

/-- Every operation but the replacement of a Session commits changes, with their facts. -/
theorem perform_committed {op : QueueOperation} {facts : List QueueCommittedFact} (hdb : db.Stored)
    (hop : op.isReplaceSession = false) (h : op.perform env db = (.ok facts, db')) :
    Committed (op.scope env db) op.sessionId facts db db' := by
  rcases op with _ | _ | _ | _ | _ | _ | _ | _ | _ | _ | _ | _ | _ | _ | _ | _ | _ | _ | _ | _ | _ |
    _ | _
  case prepareDelivery =>
    obtain ⟨⟨⟩, db₁, hprepare, h₁⟩ := Effect.bind_ok h
    obtain ⟨rfl, rfl⟩ := Effect.pure_ok h₁
    exact prepareDelivery_committed hdb hprepare
  case replaceSession => cases hop
  all_goals obtain ⟨result, hresult, rfl⟩ := facts_ok h
  case snapshot => exact snapshot_committed hresult
  case pauseIfPending => exact pauseIfPending_committed hresult
  case continueQueue => exact continueQueue_committed hresult
  case list => exact list_committed hresult
  case findByClientRequestId => exact findByClientRequestId_committed hresult
  case get => exact get_committed hresult
  case enqueue => exact (enqueue_committed hresult).mono (enqueueScope_le hresult)
  case updateQueued => exact updateQueued_committed hresult
  case cancel => exact cancel_committed hresult
  case clearUserManageable => exact clearUserManageable_committed hresult
  case promoteQueuedSource => exact promoteQueuedSource_committed hresult
  case reorder => exact reorder_committed (fun hqueued => ⟨trivial, hqueued⟩) hresult
  case claimNext => exact claimNext_committed hresult
  case acknowledgeClaim => exact acknowledgeClaim_committed hresult
  case releaseClaim => exact (releaseClaim_committed hdb hresult).mono requeueScope_le
  case rejectClaim => exact settleClaim_committed hresult
  case cancelClaim => exact settleClaim_committed hresult
  case consumeClaim => exact settleClaim_committed hresult
  case recoverClaims => exact (recoverClaims_committed hdb hresult).mono requeueScope_le
  case drainComposerInjectable => exact drainComposerInjectable_committed hresult
  case deleteSession => exact deleteSession_committed hresult

end Kinetick
