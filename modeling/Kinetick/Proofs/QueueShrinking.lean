import Kinetick.Proofs.QueueDrain

/-!
# The queue only shrinks under its dispatcher

What the dispatcher calls of the repository adds no item to a Session and claims none but the one it
answers; an acknowledgement, a rejection and a cancellation that go through remove that one. So a
drain over the repository ends.
-/

namespace Kinetick

open QueueRepository

/-! ## Rows that are tracked -/

/-- The row is one of these items, and where it is claimed one of those. -/
def Tracked (I : Finset String) (P : String → Prop) (row : QueueRow) : Prop :=
  row.itemId ∈ I ∧ (row.status = .claimed → P row.itemId)

section Tracked

variable {I : Finset String} {P : String → Prop} {s : String} {env : QueueEnvironment}

theorem Tracked.decodes {row : QueueRow} {item : QueueItem} (h : Tracked I P row)
    (hitem : Decodes row item) : Tracked I P item.storage := by
  have hid : item.storage.itemId = row.itemId := hitem.itemId
  have hstatus : item.storage.status = row.status := hitem.status
  rw [Tracked, hid, hstatus]
  exact h

theorem tracked_select (p : QueueRow → Bool) :
    Leaves (Tracked I P) s (select s p) fun items => ∀ item ∈ items, Tracked I P item.storage := by
  intro db items db' hdb hm
  obtain ⟨hitems, rfl⟩ := select_ok hm
  refine ⟨hdb, fun item hitem => ?_⟩
  obtain ⟨row, hrow, hdecodes⟩ := exists_row_of_mem hitems hitem
  exact (hdb row (List.mem_filter.1 hrow).1).decodes hdecodes

theorem tracked_releaseItem (reason : Option String) {item : QueueItem}
    (hitem : Tracked I P item.storage) :
    Leaves (Tracked I P) s (releaseItem env s reason item) fun _ => True := by
  unfold releaseItem
  split_ifs
  · exact (leaves_deleteRows _).bind fun _ _ => leaves_pure trivial
  · have hreleased : Tracked I P (withoutClaim item).storage := ⟨hitem.1, by rintro ⟨⟩⟩
    exact (leaves_write hreleased).bind fun _ _ => leaves_pure trivial

theorem tracked_releaseClaim (claimId : String) (reason : Option String) :
    Leaves (Tracked I P) s (releaseClaim env s claimId reason) fun _ => True := by
  unfold releaseClaim
  split_ifs
  · exact leaves_pure trivial
  exact leaves_transaction <| (leaves_expire _).bind fun _ _ => (tracked_select _).bind
    fun items hitems => (leaves_gather fun item hitem =>
      tracked_releaseItem _ (hitems item hitem)).bind fun _ _ => leaves_pure trivial

theorem tracked_recoverClaim (isAccepted : QueueClaimAcceptanceQuery → Bool)
    {group : String × List QueueItem} (hgroup : ∀ item ∈ group.2, Tracked I P item.storage) :
    Leaves (Tracked I P) s (recoverClaim env s isAccepted group) fun _ => True := by
  refine (leaves_claimQuery _ _ _).bind fun query _ => ?_
  split_ifs
  · exact (leaves_deleteItems _).bind fun _ _ => leaves_pure trivial
  · exact (leaves_gather fun item hitem =>
      tracked_releaseItem _ (hgroup item hitem)).bind fun _ _ => leaves_pure trivial

theorem tracked_recoverClaims (isAccepted : QueueClaimAcceptanceQuery → Bool)
    (scope : QueueClaimRecoveryScope) :
    Leaves (Tracked I P) s (recoverClaims env s isAccepted scope) fun _ => True := by
  refine leaves_transaction <| (leaves_expire _).bind fun _ _ => (tracked_select _).bind
    fun claimed hclaimed => (leaves_gather fun group hgroup =>
      tracked_recoverClaim isAccepted fun item hitem => ?_).bind fun _ _ => leaves_pure trivial
  rw [mem_groupRecoverable hgroup] at hitem
  exact hclaimed item (List.mem_filter.1 hitem).1

theorem tracked_prepareItem (claimId turnId : String) {item : QueueItem}
    (hitem : Tracked I P item.storage) :
    Leaves (Tracked I P) s (prepareItem claimId turnId item) fun _ => True := by
  unfold prepareItem
  dsimp only
  split
  · split_ifs
    · exact leaves_raise _
    · exact leaves_pure trivial
  · exact leaves_write hitem

theorem tracked_prepareDelivery (claimId turnId : String) :
    Leaves (Tracked I P) s (prepareDelivery s claimId turnId) fun _ => True := by
  unfold prepareDelivery
  split_ifs
  · exact leaves_raise _
  refine Leaves.bind (Q := fun _ => True) (leaves_transaction ?_) fun _ _ => leaves_pure trivial
  refine (tracked_select _).bind fun items hitems => ?_
  split_ifs
  · exact leaves_raise _
  · exact (leaves_forEach fun item hitem => tracked_prepareItem _ _ (hitems item hitem)).bind
      fun _ _ => leaves_pure trivial

end Tracked

/-! ## Items that are removed -/

section Removed

variable {s : String} {env : QueueEnvironment} {db db' : QueueDb} {itemId claimId : String}

/-- Deleting items leaves no row of their ids. -/
theorem not_mem_deleteItems : ∀ {items : List QueueItem} {db : QueueDb},
    deleteItems s items db = (.ok (), db') → ∀ item ∈ items, ∀ row ∈ db'.rows s,
      row.itemId ≠ item.itemId
  | [], _, _, _, hitem, _, _ => by cases hitem
  | first :: items, db, h, item, hitem, row, hrow => by
    obtain ⟨⟨⟩, db₁, hfirst, hrest⟩ := Effect.bind_ok h
    rcases List.mem_cons.1 hitem with rfl | hitem
    · have hrow₁ := shrinks_deleteItems hrest row hrow
      rw [deleteRows_ok hfirst, rows_deleteRows, if_pos rfl] at hrow₁
      simpa using (List.mem_filter.1 hrow₁).2
    · exact not_mem_deleteItems hrest item hitem row hrow

/-- The one item that may be claimed of the Session. -/
def OnlyClaimed (s itemId : String) (db : QueueDb) : Prop :=
  ∀ row ∈ db.rows s, row.status = .claimed → row.itemId = itemId

/-- The rows of a claim are of the one item that may be claimed, and there is one. -/
theorem heldRows_only {items : List QueueItem} (honly : OnlyClaimed s itemId db)
    (h : heldRows s claimId db = (.ok items, db')) :
    db' = db ∧ ∃ item ∈ items, item.itemId = itemId := by
  obtain ⟨rfl, hitems⟩ := heldRows_ok h
  refine ⟨rfl, ?_⟩
  rcases items with _ | ⟨item, items⟩
  · obtain ⟨claimed, db₁, hselect, h₁⟩ := Effect.bind_ok h
    split_ifs at h₁ with hempty
    · cases h₁
    · obtain ⟨rfl, -⟩ := Effect.pure_ok h₁
      simp at hempty
  · obtain ⟨row, hrow, hdecodes⟩ := exists_row_of_mem hitems (List.mem_cons_self ..)
    obtain ⟨hmem, hclaimed⟩ := List.mem_filter.1 hrow
    simp only [Bool.and_eq_true, decide_eq_true_eq] at hclaimed
    exact ⟨item, List.mem_cons_self .., hdecodes.itemId.trans (honly row hmem hclaimed.1)⟩

theorem OnlyClaimed.shrinks (h : OnlyClaimed s itemId db) (hshrinks : Shrinks s db db') :
    OnlyClaimed s itemId db' :=
  fun row hrow => h row (hshrinks row hrow)

/-- An acknowledgement that goes through removes the claimed item. -/
theorem acknowledgeClaim_removes {turnId : Option String}
    {isAccepted : Option (QueueClaimAcceptanceQuery → Bool)}
    {result : CommittedQueueResult (List QueueItem)} (honly : OnlyClaimed s itemId db)
    (h : acknowledgeClaim env s claimId turnId isAccepted db = (.ok result, db')) :
    itemId ∉ db'.itemIds s := by
  unfold acknowledgeClaim at h
  split_ifs at h
  · cases h
  obtain ⟨inner, db₁, rest, hinner, -, -, hrows⟩ := transaction_ok h
  obtain ⟨facts, db₂, hexpire, h₁⟩ := Effect.bind_ok hinner
  obtain ⟨claimed, db₃, hheld, h₂⟩ := Effect.bind_ok h₁
  obtain ⟨rfl, item, hitem, rfl⟩ := heldRows_only
    (honly.shrinks (expire_filtered hexpire).shrinks) hheld
  obtain ⟨query, db₄, hquery, h₃⟩ := Effect.bind_ok h₂
  obtain rfl := claimQuery_ok hquery
  split_ifs at h₃
  · cases h₃
  obtain ⟨⟨⟩, db₅, hdelete, h₄⟩ := Effect.bind_ok h₃
  obtain ⟨-, rfl⟩ := Effect.pure_ok h₄
  rw [mem_itemIds_iff, HasRow, hrows]
  rintro ⟨row, hrow, hid⟩
  exact not_mem_deleteItems hdelete item hitem row hrow hid

/-- So does a claim that is settled. -/
theorem settleClaim_removes {reason : QueueRemovalReason} {admissionReason : Option String}
    {result : CommittedQueueResult (List QueueItem)} (honly : OnlyClaimed s itemId db)
    (h : settleClaim env s claimId reason admissionReason db = (.ok result, db')) :
    itemId ∉ db'.itemIds s := by
  unfold settleClaim at h
  split_ifs at h
  · cases h
  obtain ⟨inner, db₁, rest, hinner, -, -, hrows⟩ := transaction_ok h
  obtain ⟨facts, db₂, hexpire, h₁⟩ := Effect.bind_ok hinner
  obtain ⟨claimed, db₃, hheld, h₂⟩ := Effect.bind_ok h₁
  obtain ⟨rfl, item, hitem, rfl⟩ := heldRows_only
    (honly.shrinks (expire_filtered hexpire).shrinks) hheld
  obtain ⟨⟨⟩, db₄, hdelete, h₃⟩ := Effect.bind_ok h₂
  obtain ⟨-, rfl⟩ := Effect.pure_ok h₃
  rw [mem_itemIds_iff, HasRow, hrows]
  rintro ⟨row, hrow, hid⟩
  exact not_mem_deleteItems hdelete item hitem row hrow hid

/-- A claim adds no item, and claims none but the one it answers: one that was pending and is not
excluded. -/
theorem claimNext_tracked {input : QueueClaimInput} (hitemId : input.itemId = none)
    {result : CommittedQueueResult (Option QueueDispatchItem)}
    (h : claimNext env input db = (.ok result, db')) :
    db'.itemIds input.sessionId ⊆ db.itemIds input.sessionId ∧
      ∀ claim, result.value = some claim → claim.sessionId = input.sessionId ∧
        claim.item.itemId ∈ db.itemIds input.sessionId ∧
        claim.item.itemId ∉ input.excludeItemIds ∧
        OnlyClaimed input.sessionId claim.item.itemId db' := by
  have hkeeps : Shrinks input.sessionId db db' →
      db'.itemIds input.sessionId ⊆ db.itemIds input.sessionId := by
    intro hshrinks id hid
    obtain ⟨row, hrow, hrowId⟩ := mem_itemIds_iff.1 hid
    exact mem_itemIds_iff.2 ⟨row, hshrinks row hrow, hrowId⟩
  rcases claimNext_claims h with ⟨hclaims, item, db₁, db₂, -, -, -, hshrinks, hwrite, hrows,
    ⟨row, hfind, hdecodes⟩, taken, htaken, -, -, hsession, hitem⟩ | ⟨-, hshrinks, hnone⟩
  · have hrow := hshrinks row (List.mem_of_find?_eq_some hfind)
    have hmem : item.itemId ∈ db.itemIds input.sessionId :=
      mem_itemIds_iff.2 ⟨row, hrow, hdecodes.itemId.symm⟩
    have hcases : ∀ other ∈ db'.rows input.sessionId, other ∈ db.rows input.sessionId ∨
        other.itemId = item.itemId := by
      intro other hother
      rw [hrows] at hother
      rcases adds_write hwrite other hother with hother | rfl
      · exact .inl (hshrinks other hother)
      · exact .inr rfl
    refine ⟨fun id hid => ?_, fun claim hclaim => ?_⟩
    · obtain ⟨other, hother, rfl⟩ := mem_itemIds_iff.1 hid
      rcases hcases other hother with hother | hother
      · exact mem_itemIds_iff.2 ⟨other, hother, rfl⟩
      · rwa [hother]
    · obtain rfl := Option.some.inj (htaken.symm.trans hclaim)
      rw [hitem]
      refine ⟨hsession, hmem, ?_, fun other hother hclaimed => ?_⟩
      · have htakes := List.find?_some hfind
        have hnamed : nonEmptyText input.itemId = none := by rw [hitemId]; rfl
        simpa [QueueClaimInput.takes, hnamed, hdecodes.itemId] using htakes
      · rcases hcases other hother with hother | hother
        · rw [hclaims.free other hother] at hclaimed
          cases hclaimed
        · exact hother
  · refine ⟨hkeeps hshrinks, fun claim hclaim => ?_⟩
    rw [hnone] at hclaim
    cases hclaim

end Removed

/-! ## The repository -/

namespace RepositoryQueue

variable {α : Type} {s : String}

/-- The pending items of the Session. -/
def ids (s : String) (q : RepositoryQueue) : Finset String := q.db.itemIds s

/-- The one item of the Session that may be claimed. -/
def Only (s itemId : String) (q : RepositoryQueue) : Prop := OnlyClaimed s itemId q.db

theorem call_ok {operation : RepositoryCall → QueueTransaction α} {handles : Bool} {a : α}
    {q q' : RepositoryQueue} (h : call operation handles q = (.ok a, q')) :
    operation (q.meets q.calls) q.db = (.ok a, q'.db) := by
  unfold call at h
  rcases hfails : (q.meets q.calls).fails with _ | error <;> simp only [hfails] at h
  · rcases hm : operation (q.meets q.calls) q.db with ⟨error | b, db⟩ <;> simp only [hm] at h
    · cases h
    · obtain ⟨hanswer, rfl⟩ := Prod.mk.inj h
      split_ifs at hanswer
      · rcases hhandled : (q.meets q.calls).handled with error | ⟨⟨⟩⟩ <;> rw [hhandled] at hanswer <;>
          cases hanswer
        rfl
      · cases hanswer
        rfl
  · cases h

/-- What a call leaves: what its operation commits, or the database it found. -/
theorem call_db (operation : RepositoryCall → QueueTransaction α) (handles : Bool)
    (hrestores : ∀ meets, Restores (operation meets)) (q : RepositoryQueue) :
    (call operation handles q).2.db = q.db ∨
      ∃ a, operation (q.meets q.calls) q.db = (.ok a, (call operation handles q).2.db) := by
  unfold call
  rcases hfails : (q.meets q.calls).fails with _ | error <;> simp only [hfails]
  · rcases hm : operation (q.meets q.calls) q.db with ⟨error | b, db⟩ <;> simp only []
    · exact .inl (hrestores _ _ _ _ hm)
    · exact .inr ⟨b, rfl⟩
  · exact .inl trivial

/-- An operation that keeps tracked rows tracked adds no item and claims none. -/
theorem shrinks_call {operation : RepositoryCall → QueueTransaction α} (handles : Bool)
    (hrestores : ∀ meets, Restores (operation meets))
    (htracked : ∀ meets I P, Leaves (Tracked I P) s (operation meets) fun _ => True) :
    Dispatcher.Shrinks (ids s) (Only s) (call operation handles) := by
  intro q
  have hids : ∀ row ∈ q.db.rows s, row.itemId ∈ q.db.itemIds s :=
    fun row hrow => mem_itemIds_iff.2 ⟨row, hrow, rfl⟩
  rcases call_db operation handles hrestores q with hdb | ⟨a, hm⟩
  · rw [ids, ids, hdb]
    refine ⟨subset_rfl, fun itemId honly => ?_⟩
    rwa [Only, hdb]
  · constructor
    · intro id hid
      obtain ⟨row, hrow, rfl⟩ := mem_itemIds_iff.1 hid
      exact ((htracked _ (q.db.itemIds s) (fun _ => True) _ _ _
        (fun row hrow => ⟨hids row hrow, fun _ => trivial⟩) hm).1 row hrow).1
    · intro itemId honly row hrow hclaimed
      exact ((htracked _ (q.db.itemIds s) (· = itemId) _ _ _
        (fun row hrow => ⟨hids row hrow, honly row hrow⟩) hm).1 row hrow).2 hclaimed

theorem shrinks_discard {m : Effect RepositoryQueue QueueError α}
    (h : Dispatcher.Shrinks (ids s) (Only s) m) :
    Dispatcher.Shrinks (ids s) (Only s) (m >>= fun _ => pure ()) := by
  intro q
  rw [Effect.bind_pure_state]
  exact h q

theorem shrinks_committed {operation : RepositoryCall → QueueTransaction (CommittedQueueResult α)}
    (hrestores : ∀ meets, Restores (operation meets))
    (htracked : ∀ meets I P, Leaves (Tracked I P) s (operation meets) fun _ => True) :
    Dispatcher.Shrinks (ids s) (Only s) (committed operation >>= fun _ => pure ()) := by
  refine shrinks_discard fun q => ?_
  unfold committed
  rw [Effect.bind_pure_state]
  exact shrinks_call true hrestores htracked q

theorem committed_ok {operation : RepositoryCall → QueueTransaction (CommittedQueueResult α)}
    {a : α} {q q' : RepositoryQueue} (h : committed operation q = (.ok a, q')) :
    ∃ result, operation (q.meets q.calls) q.db = (.ok result, q'.db) ∧ result.value = a := by
  obtain ⟨result, q₁, hcall, hpure⟩ := Effect.bind_ok h
  obtain ⟨rfl, rfl⟩ := Effect.pure_ok hpure
  exact ⟨result, call_ok hcall, rfl⟩

/-- The repository only shrinks under its dispatcher. -/
theorem shrinking (s : String) : Dispatcher.Shrinking capability s (ids s) (Only s) where
  claimNext excludeItemIds q := by
    obtain ⟨operation, hoperation⟩ : ∃ operation : RepositoryCall →
        QueueTransaction (CommittedQueueResult (Option QueueDispatchItem)), operation = fun meets =>
          QueueRepository.claimNext meets.env (claimInput ⟨s, false, excludeItemIds⟩) := ⟨_, rfl⟩
    have hrestores : ∀ meets, Restores (operation meets) := by
      rw [hoperation]
      exact fun _ => restores_transaction _
    have hstate : (capability.claimNext ⟨s, false, excludeItemIds⟩ q).2 =
        (call operation true q).2 := by
      rw [hoperation]
      exact (Effect.bind_pure_state _ _ _).trans (Effect.bind_pure_state _ _ _)
    rw [hstate]
    rcases call_db operation true hrestores q with hdb | ⟨result, hm⟩
    · rw [ids, hdb]
      exact subset_rfl
    · have hclaim : QueueRepository.claimNext (q.meets q.calls).env
          (claimInput ⟨s, false, excludeItemIds⟩) q.db =
            (.ok result, (call operation true q).2.db) := by rw [← hm, hoperation]
      exact (claimNext_tracked rfl hclaim).1
  claimed excludeItemIds q claim q' h := by
    obtain ⟨taken, q₁, hcommitted, hpure⟩ := Effect.bind_ok h
    obtain ⟨htaken, rfl⟩ := Effect.pure_ok hpure
    obtain ⟨result, hm, hvalue⟩ := committed_ok hcommitted
    rcases taken with _ | taken
    · cases htaken
    obtain rfl := Option.some.inj htaken
    exact (claimNext_tracked rfl hm).2 taken hvalue
  prepareDelivery claimId turnId :=
    shrinks_call false (fun _ => (restores_raise _).ite ((restores_transaction _).andThen _))
      fun _ _ _ => tracked_prepareDelivery claimId turnId
  acknowledge claimId turnId :=
    shrinks_committed (fun _ => (restores_raise _).ite (restores_transaction _))
      fun _ _ _ => leaves_acknowledgeClaim _ _ _ _ _
  acknowledged claimId turnId q q' itemId h honly := by
    obtain ⟨items, q₁, hcommitted, hpure⟩ := Effect.bind_ok h
    obtain ⟨-, rfl⟩ := Effect.pure_ok hpure
    obtain ⟨result, hm, -⟩ := committed_ok hcommitted
    exact acknowledgeClaim_removes honly hm
  release claimId reason :=
    shrinks_committed (fun _ => (restores_pure _).ite (restores_transaction _))
      fun _ _ _ => tracked_releaseClaim claimId reason
  reject claimId reason :=
    shrinks_committed (fun _ => (restores_raise _).ite (restores_transaction _))
      fun _ _ _ => leaves_settleClaim _ _ _ _ _
  rejected claimId reason q q' itemId h honly := by
    obtain ⟨items, q₁, hcommitted, hpure⟩ := Effect.bind_ok h
    obtain ⟨-, rfl⟩ := Effect.pure_ok hpure
    obtain ⟨result, hm, -⟩ := committed_ok hcommitted
    exact settleClaim_removes honly hm
  cancelClaim claimId :=
    shrinks_committed (fun _ => (restores_raise _).ite (restores_transaction _))
      fun _ _ _ => leaves_settleClaim _ _ _ _ _
  cancelled claimId q q' itemId h honly := by
    obtain ⟨items, q₁, hcommitted, hpure⟩ := Effect.bind_ok h
    obtain ⟨-, rfl⟩ := Effect.pure_ok hpure
    obtain ⟨result, hm, -⟩ := committed_ok hcommitted
    exact settleClaim_removes honly hm
  recoverClaims nowMs :=
    shrinks_committed (fun _ => restores_transaction _) fun _ _ _ => tracked_recoverClaims _ _

end RepositoryQueue

namespace Dispatcher

variable {sessionId : String}

/-- Whatever each pass meets, a drain over the repository ends, after at most one pass more than items
are pending; and a pass that asks for another removes an item that was pending or has it yield. -/
theorem drain_ends (envs : ℕ → DrainEnvironment QueueError) (s : DrainState RepositoryQueue) :
    (drain RepositoryQueue.capability sessionId envs
      ((s.dispatch.queue.db.itemIds sessionId).card + 1) s).isSome = true ∧
    ∀ env s s', drainPass RepositoryQueue.capability sessionId env s = (.ok true, s') →
      Advances sessionId s s' := by
  constructor
  · refine drainLoop_ends (RepositoryQueue.shrinking sessionId) envs _ _ _ (Nat.lt_succ_of_le ?_)
    exact Finset.card_le_card (Finset.filter_subset _ _)
  · intro env s s' hpass
    exact (drainPass_asks (RepositoryQueue.shrinking sessionId) hpass).2.2.2 rfl

/-- One item is pending, which every classification cancels. -/
def cancellingDrain : DrainEnvironment QueueError where
  stoppedAtRecovery := false
  stoppedAtTest := false
  recoverAtMs := 0
  dispatch := {
    stoppedBeforeClaim := false
    stoppedAfterClaim := false
    classifyQueuedItem := .ok .cancel
    isCancellationRequested _ := false
    shouldYieldFifoPosition := .ok false
    executor := .returns (.accepted "turn")
    onPreparing _ := .ok ()
    onExecution _ := .ok () }

def onePending : DrainState RepositoryQueue where
  requestedWake := 1
  startedWake := 0
  dispatch := {
    queue := {
      db := queueSystem.after queueSystem.initial
        [(sampleEnvironment 1 "a" "c", .enqueue (sampleInput none none))]
      calls := 0
      meets _ := {
        env := sampleEnvironment 2 "b" "d"
        isAccepted _ := false
        fails := none
        handled := .ok () } }
    recoverBeforeNextClaim := false
    yielded := [] }

/-- The pass that cancels the item asks for another. -/
theorem drain_ends_cancelled : ∃ s',
    drainPass RepositoryQueue.capability "s" cancellingDrain onePending = (.ok true, s') ∧
      Advances "s" onePending s' ∧
      (drain RepositoryQueue.capability "s" (fun _ => cancellingDrain)
        ((onePending.dispatch.queue.db.itemIds "s").card + 1) onePending).isSome = true := by
  have hends := @drain_ends "s" (fun _ => cancellingDrain) onePending
  have hagain : (drainPass RepositoryQueue.capability "s" cancellingDrain onePending).1.toOption =
      some true := by decide +kernel
  rcases hpass : drainPass RepositoryQueue.capability "s" cancellingDrain onePending with
    ⟨error | again, s'⟩ <;> rw [hpass] at hagain
  · cases hagain
  · obtain rfl : again = true := Option.some.inj hagain
    exact ⟨s', rfl, hends.2 _ _ _ hpass, hends.1⟩

end Dispatcher

end Kinetick
