import Kinetick.Proofs.TurnViews

/-!
# Each call moves the owners of the Sessions

Tables owned as `m` says are owned as `m` with one Session moved after a call commits. A Turn
ends by settlement, by the retry of one that threw, by expiry, at a restart or at a deletion that
finds it expired, and all of these finish its row and release or promote its lock the same way.
-/

namespace Kinetick

namespace TurnTables

variable {db db' : TurnTables} {m : String → Ownership} {s t : String}

/-! ## One Session at a time -/

/-- The Sessions but `s` have the locks and the accepted rows they had. -/
def SameExcept (s : String) (db db' : TurnTables) : Prop :=
  ∀ t ≠ s, db'.findSessionLock t = db.findSessionLock t ∧ db'.acceptedTurns t = db.acceptedTurns t

theorem SameExcept.refl (s : String) (db : TurnTables) : SameExcept s db db :=
  fun _ _ => ⟨rfl, rfl⟩

theorem SameExcept.trans {a b c : TurnTables} (h : SameExcept s a b) (h' : SameExcept s b c) :
    SameExcept s a c :=
  fun t ht => ⟨(h' t ht).1.trans (h t ht).1, (h' t ht).2.trans (h t ht).2⟩

theorem Owned.move {o : Ownership} (h : db.Owned m) (hne : SameExcept s db db')
    (hlock : db'.findSessionLock s = o.lock s) (hacc : db'.acceptedTurns s = o.accepted) :
    db'.Owned (Function.update m s o) := by
  intro t
  rcases eq_or_ne t s with rfl | ht
  · rw [Function.update_self]
    exact ⟨hlock, hacc⟩
  · rw [Function.update_of_ne ht, (hne t ht).1, (hne t ht).2]
    exact h t

theorem Owned.same (h : db.Owned m) : db.Owned (Function.update m s (m s)) := by
  rwa [Function.update_eq_self]

theorem sameExcept_deleteLocks {p : SessionLock → Bool} (hp : ∀ l, p l → l.sessionId = s) :
    SameExcept s db (db.deleteLocks p).1 := by
  intro t ht
  refine ⟨?_, rfl⟩
  rw [lock_deleteLocks]
  rcases hl : db.findSessionLock t with _ | l
  · rfl
  · have hpl : p l = false := by
      rw [Bool.eq_false_iff]
      exact fun h => ht ((lock_session hl).symm.trans (hp l h))
    simp [hpl]

theorem sameExcept_updateLocks {p : SessionLock → Bool} {f : SessionLock → SessionLock}
    (hf : ∀ l, (f l).sessionId = l.sessionId) (hp : ∀ l, p l → l.sessionId = s) :
    SameExcept s db (db.updateLocks p f hf).1 := by
  intro t ht
  refine ⟨?_, rfl⟩
  rw [lock_updateLocks]
  rcases hl : db.findSessionLock t with _ | l
  · rfl
  · have hpl : p l = false := by
      rw [Bool.eq_false_iff]
      exact fun h => ht ((lock_session hl).symm.trans (hp l h))
    simp [hpl]

theorem sameExcept_finishTurns {p : TurnIngress → Bool} {status : TurnStatus}
    (hstatus : status ≠ .accepted) {now : ℤ}
    (hp : ∀ r ∈ db.turnIngress.rows, p r → r.sessionId = s) :
    SameExcept s db (db.finishTurns p status now).1 := by
  intro t ht
  refine ⟨rfl, ?_⟩
  rw [acceptedTurns_finishTurns p hstatus, List.filter_eq_self]
  intro r hr
  have hr := mem_acceptedTurns.1 hr
  simpa using fun h => ht (hr.2.1.symm.trans (hp r hr.1 h))

theorem sameExcept_releaseOrPromote {leaseId : String} {ownerKind : OwnerKind} {now : ℤ} :
    SameExcept s db (db.releaseOrPromoteDeletionFence s leaseId ownerKind now).1 := by
  unfold releaseOrPromoteDeletionFence
  split_ifs
  · exact sameExcept_updateLocks _ fun l h => by simpa using (Bool.and_eq_true_iff.1 h).1
  · exact sameExcept_deleteLocks fun l h => by simpa using (Bool.and_eq_true_iff.1 h).1

/-! ## The lock and the row a Turn ends with -/

theorem Owned.turn_mem {busyReason : TurnBusyReason} {deleting : Bool} {lease : Lease}
    {row : TurnIngress} (h : db.Owned m) (hm : m s = .turn busyReason deleting lease row) :
    row ∈ db.turnIngress.rows ∧ row.sessionId = s ∧ row.status = .accepted := by
  rw [← mem_acceptedTurns, (h s).2, hm]
  exact List.mem_singleton_self row

theorem Owned.latest (h : db.Owned m) : db.latestAcceptedTurn s = (m s).accepted.head? := by
  unfold latestAcceptedTurn
  rw [(h s).2]
  cases m s <;> simp [Ownership.accepted]

/-- Finishing the Turn that owns a Session, by any query that finds its row. -/
theorem acceptedTurns_finish {busyReason : TurnBusyReason} {deleting : Bool} {lease : Lease}
    {row : TurnIngress} (h : db.Owned m) (hm : m s = .turn busyReason deleting lease row)
    {p : TurnIngress → Bool} (hp : p row) {status : TurnStatus} (hstatus : status ≠ .accepted)
    (now : ℤ) : (db.finishTurns p status now).1.acceptedTurns s = [] := by
  rw [acceptedTurns_finishTurns p hstatus, (h s).2, hm]
  simp [Ownership.accepted, hp]

theorem lock_releaseOrPromote {lease : Lease} {busyReason : TurnBusyReason} {deleting : Bool}
    (row : TurnIngress) {now : ℤ}
    (h : db.findSessionLock s = (Ownership.turn busyReason deleting lease row).lock s) :
    (db.releaseOrPromoteDeletionFence s lease.ownerId (busyReason.lockKind deleting) now
      ).1.findSessionLock s =
      ((Ownership.turn busyReason deleting lease row).finish now).lock s := by
  unfold releaseOrPromoteDeletionFence
  cases deleting
  · have hkind : (busyReason.lockKind false).isDeletingTurn = false := by cases busyReason <;> rfl
    simp only [hkind, Bool.false_eq_true, if_false]
    rw [lock_deleteLocks, h]
    simp [Ownership.lock, Ownership.finish, Lease.lock]
  · have hkind : (busyReason.lockKind true).isDeletingTurn = true := by cases busyReason <;> rfl
    simp only [hkind, if_true]
    rw [lock_updateLocks, h]
    simp [Ownership.lock, Ownership.finish, Lease.lock, Lease.fence]

/-- A Turn that ends leaves its Session free, or under the fence of the deletion it held up. -/
theorem Owned.finish {busyReason : TurnBusyReason} {deleting : Bool} {lease : Lease}
    {row : TurnIngress} (h : db.Owned m) (hm : m s = .turn busyReason deleting lease row)
    {p : TurnIngress → Bool} (hp : p row) (hps : ∀ r ∈ db.turnIngress.rows, p r → r.sessionId = s)
    {status : TurnStatus} (hstatus : status ≠ .accepted) {now : ℤ} :
    ((db.finishTurns p status now).1.releaseOrPromoteDeletionFence s lease.ownerId
      (busyReason.lockKind deleting) now).1.Owned
        (Function.update m s ((m s).finish now)) := by
  refine h.move ((sameExcept_finishTurns hstatus hps).trans sameExcept_releaseOrPromote) ?_ ?_
  · rw [hm]
    refine lock_releaseOrPromote row ?_
    rw [lock_finishTurns, (h s).1, hm]
  · have hacc := acceptedTurns_finish h hm hp hstatus now
    have hsame : ∀ d : TurnTables, (d.releaseOrPromoteDeletionFence s lease.ownerId
        (busyReason.lockKind deleting) now).1.acceptedTurns s = d.acceptedTurns s := by
      intro d
      unfold releaseOrPromoteDeletionFence
      split_ifs <;> rfl
    rw [hsame, hacc, hm]
    cases deleting <;> rfl

/-! ## Settlement and recovery -/

theorem lock_some (h : db.Owned m) {lock : SessionLock} (hl : db.findSessionLock s = some lock) :
    (m s).lock s = some lock :=
  (h s).1.symm.trans hl

theorem Owned.free (h : db.Owned m) (hl : db.findSessionLock s = none) : m s = .free := by
  have hm := (h s).1.symm.trans hl
  cases hm' : m s <;> rw [hm'] at hm <;> simp [Ownership.lock] at hm ⊢

/-- The lock of an owned Session is a Turn's, a maintenance lease's or a deletion's. -/
theorem Owned.holder (h : db.Owned m) {lock : SessionLock} (hl : db.findSessionLock s = some lock) :
    (∃ busyReason deleting row, lock.ownerKind = busyReason.lockKind deleting ∧
        m s = .turn busyReason deleting (.ofLock lock) row) ∨
      (∃ deleting, lock.ownerKind = (if deleting then .maintenanceDeleting else .maintenance) ∧
        m s = .maintenance deleting (.ofLock lock)) ∨
      (lock.ownerKind = .sessionDeletion ∧ m s = .deletion (.ofLock lock)) := by
  have hlock := lock_some h hl
  rcases hm : m s with _ | ⟨busyReason, deleting, lease, row⟩ | ⟨deleting, lease⟩ | lease <;>
    rw [hm] at hlock <;> cases hlock
  · exact .inl ⟨busyReason, deleting, row, rfl, rfl⟩
  · exact .inr (.inl ⟨deleting, rfl, rfl⟩)
  · exact .inr (.inr ⟨rfl, rfl⟩)

theorem Owned.turn_kind {busyReason : TurnBusyReason} {deleting : Bool} {lease : Lease}
    {row : TurnIngress} (h : db.Owned m) (hm : m s = .turn busyReason deleting lease row)
    {lock : SessionLock} (hl : db.findSessionLock s = some lock) :
    lock.ownerKind = busyReason.lockKind deleting := by
  have hlock := lock_some h hl
  rw [hm, Ownership.lock, Option.some.injEq] at hlock
  rw [← hlock]
  rfl

theorem HeldBy.turn {o : Ownership} {turnId leaseId : String} (h : o.HeldBy turnId leaseId) :
    ∃ busyReason deleting lease row, o = .turn busyReason deleting lease row ∧
      lease.ownerId = leaseId ∧ row.turnId = turnId := by
  cases o with
  | turn busyReason deleting lease row => exact ⟨_, _, _, _, rfl, h.1, h.2⟩
  | free => exact h.elim
  | maintenance _ _ => exact h.elim
  | deletion _ => exact h.elim

/-- The owner a lease and a Turn name holds the Session: the lock is the lease's and the latest
accepted row is the Turn's. -/
theorem Owned.heldBy_iff (h : db.Owned m) {turnId leaseId : String} :
    (m s).HeldBy turnId leaseId ↔ ∃ lock, db.findSessionLock s = some lock ∧
      lock.ownerId = leaseId ∧ (db.latestAcceptedTurn s).map (·.turnId) = some turnId := by
  rw [(h s).1, h.latest]
  cases m s <;> simp [Ownership.HeldBy, Ownership.lock, Ownership.accepted, Lease.lock]

/-- A settlement finds its Turn under its lease and finishes it, or is stale. -/
theorem settle_cases {input : SettleTurnInput} {now : ℤ} {res : SettleTurnResult}
    (hok : db.settleInTransaction input now = .ok (db', res)) :
    (db' = db ∧ res = .staleOwner ∧ ∀ lock, db.findSessionLock input.sessionId = some lock →
      lock.ownerId = input.leaseId →
        (db.latestAcceptedTurn input.sessionId).map (·.turnId) ≠ some input.turnId) ∨
    ∃ lock, db.findSessionLock input.sessionId = some lock ∧ lock.ownerId = input.leaseId ∧
      (db.latestAcceptedTurn input.sessionId).map (·.turnId) = some input.turnId ∧
      db' = ((db.finishTurns (fun r => r.turnId == input.turnId &&
        r.sessionId == input.sessionId && r.status == .accepted) input.outcome.status now
          ).1.releaseOrPromoteDeletionFence input.sessionId input.leaseId lock.ownerKind now).1 := by
  unfold settleInTransaction at hok
  rcases hl : db.findSessionLock input.sessionId with _ | lock <;> rw [hl] at hok <;>
    dsimp only at hok
  · simp only [Except.ok.injEq, Prod.mk.injEq] at hok
    exact .inl ⟨hok.1.symm, hok.2.symm, fun lock h => by simp at h⟩
  · split_ifs at hok with hstale hlost <;> simp only [Except.ok.injEq, Prod.mk.injEq] at hok
    · refine .inl ⟨hok.1.symm, hok.2.symm, fun l h hlease => ?_⟩
      rw [Option.some.injEq] at h
      exact hstale.resolve_left (by rw [h]; exact not_not.2 hlease)
    · rw [not_or, not_not, not_not] at hstale
      exact .inr ⟨lock, rfl, hstale.1, hstale.2, hok.1.symm⟩

theorem Owned.settle (h : db.Owned m) {input : SettleTurnInput} {now : ℤ} {res : SettleTurnResult}
    (hok : db.settleInTransaction input now = .ok (db', res)) :
    db'.Owned (Function.update m input.sessionId
      ((m input.sessionId).settle input.turnId input.leaseId now)) := by
  rcases settle_cases hok with ⟨rfl, -, hstale⟩ | ⟨lock, hl, hlease, hlatest, rfl⟩
  · have hnot : ¬ (m input.sessionId).HeldBy input.turnId input.leaseId := by
      rw [h.heldBy_iff]
      rintro ⟨lock, hl, hlease, hlatest⟩
      exact hstale lock hl hlease hlatest
    rw [Ownership.settle, if_neg hnot]
    exact h.same
  · have hheld := h.heldBy_iff.2 ⟨lock, hl, hlease, hlatest⟩
    obtain ⟨busyReason, deleting, lease, row, hm, hleaseId, hturn⟩ := HeldBy.turn hheld
    have hrow := h.turn_mem hm
    rw [Ownership.settle, if_pos hheld, h.turn_kind hm hl, ← hleaseId]
    refine h.finish hm ?_ ?_ (by cases input.outcome <;> decide)
    · simp [hturn, hrow.2.1, hrow.2.2]
    · intro r _ hr
      simpa using (Bool.and_eq_true_iff.1 (Bool.and_eq_true_iff.1 hr).1).2

/-- A settlement of an owned Session never loses its ownership halfway. -/
theorem Owned.settle_ok (h : db.Owned m) (input : SettleTurnInput) (now : ℤ) :
    ∃ x, db.settleInTransaction input now = .ok x := by
  unfold settleInTransaction
  rcases hl : db.findSessionLock input.sessionId with _ | lock <;> dsimp only
  · exact ⟨_, rfl⟩
  · split_ifs with hstale hlost
    · exact ⟨_, rfl⟩
    · exfalso
      rw [not_or, not_not, not_not] at hstale
      have hheld := h.heldBy_iff.2 ⟨lock, hl, hstale.1, hstale.2⟩
      obtain ⟨busyReason, deleting, lease, row, hm, -, hturn⟩ := HeldBy.turn hheld
      have hrow := h.turn_mem hm
      have hupdated : (db.finishTurns (fun r => r.turnId == input.turnId &&
          r.sessionId == input.sessionId && r.status == .accepted) input.outcome.status now).2 =
            1 :=
        Constraint.countP_unique db.turnIngress.holds.1 hrow.1
          (by simp [hturn, hrow.2.1, hrow.2.2]) fun b _ hb => by
            simp only [Bool.and_eq_true, beq_iff_eq] at hb
            rw [hb.1.1]
      have hcount : db.sessionLocks.rows.countP (fun l => l.sessionId == input.sessionId &&
          l.ownerId == input.leaseId) = 1 :=
        Constraint.countP_unique db.sessionLocks.holds (lock_mem hl)
          (by simp [lock_session hl, hstale.1]) fun b _ hb => by
            simp only [Bool.and_eq_true, beq_iff_eq] at hb
            rw [hb.1]
      rcases hlost with hlost | hlost
      · exact hlost hupdated
      · refine hlost ?_
        unfold releaseOrPromoteDeletionFence
        split_ifs <;> exact hcount
    · exact ⟨_, rfl⟩

theorem recoverPending_cases (db : TurnTables) (pending : PendingSettlement) (now : ℤ) :
    ((db.recoverPendingSettlementInTransaction pending now).1 = db ∧
      ∀ lock, db.findSessionLock pending.sessionId = some lock → lock.ownerId = pending.leaseId →
        ∀ r ∈ db.acceptedTurns pending.sessionId, r.turnId ≠ pending.turnId) ∨
    ∃ lock, db.findSessionLock pending.sessionId = some lock ∧ lock.ownerId = pending.leaseId ∧
      (∃ r ∈ db.acceptedTurns pending.sessionId, r.turnId = pending.turnId) ∧
      (db.recoverPendingSettlementInTransaction pending now).1 =
        ((db.finishTurns (fun r => r.sessionId == pending.sessionId &&
          r.turnId == pending.turnId && r.status == .accepted) .failed now
            ).1.releaseOrPromoteDeletionFence pending.sessionId pending.leaseId lock.ownerKind
              now).1 := by
  unfold recoverPendingSettlementInTransaction
  rcases hl : db.findSessionLock pending.sessionId with _ | lock <;> dsimp only
  · exact .inl ⟨rfl, fun lock h => by simp at h⟩
  · split_ifs with hstale
    · refine .inl ⟨rfl, fun l h hlease r hr hturn => ?_⟩
      rw [Option.some.injEq] at h
      have hr := mem_acceptedTurns.1 hr
      -- the receipt the query finds is the accepted row, so the branch before was not taken
      refine hstale.resolve_left (by rw [h]; exact not_not.2 hlease) ?_
      rw [Option.map_eq_some_iff]
      rcases hf : db.turnIngress.rows.find? fun r =>
          r.sessionId == pending.sessionId && r.turnId == pending.turnId with _ | r'
      · rw [List.find?_eq_none] at hf
        exact absurd (by simp [hr.2.1, hturn]) (hf r hr.1)
      · have hr' := List.find?_some hf
        simp only [Bool.and_eq_true, beq_iff_eq] at hr'
        have heq := turn_unique (List.mem_of_find?_eq_some hf) hr.1 (hr'.2.trans hturn.symm)
        exact ⟨r', hf, heq ▸ hr.2.2⟩
    · rw [not_or, not_not, not_not, Option.map_eq_some_iff] at hstale
      obtain ⟨hlease, r, hr, hstatus⟩ := hstale
      have hkey := List.find?_some hr
      simp only [Bool.and_eq_true, beq_iff_eq] at hkey
      exact .inr ⟨lock, rfl, hlease, ⟨r, mem_acceptedTurns.2
        ⟨List.mem_of_find?_eq_some hr, hkey.1, hstatus⟩, hkey.2⟩, rfl⟩

theorem Owned.recoverPending (h : db.Owned m) (pending : PendingSettlement) (now : ℤ) :
    (db.recoverPendingSettlementInTransaction pending now).1.Owned
      (Function.update m pending.sessionId
        ((m pending.sessionId).settle pending.turnId pending.leaseId now)) := by
  have hlatest : (∃ r ∈ db.acceptedTurns pending.sessionId, r.turnId = pending.turnId) ↔
      (db.latestAcceptedTurn pending.sessionId).map (·.turnId) = some pending.turnId := by
    rw [h.latest, (h _).2]
    cases m pending.sessionId <;> simp [Ownership.accepted]
  rcases recoverPending_cases db pending now with ⟨heq, hstale⟩ | ⟨lock, hl, hlease, hr, heq⟩ <;>
    rw [heq]
  · have hnot : ¬ (m pending.sessionId).HeldBy pending.turnId pending.leaseId := by
      rw [h.heldBy_iff]
      rintro ⟨lock, hl, hlease, hturn⟩
      obtain ⟨r, hr, hrt⟩ := hlatest.2 hturn
      exact hstale lock hl hlease r hr hrt
    rw [Ownership.settle, if_neg hnot]
    exact h.same
  · have hheld := h.heldBy_iff.2 ⟨lock, hl, hlease, hlatest.1 hr⟩
    obtain ⟨busyReason, deleting, lease, row, hm, hleaseId, hturn⟩ := HeldBy.turn hheld
    have hrow := h.turn_mem hm
    rw [Ownership.settle, if_pos hheld, h.turn_kind hm hl, ← hleaseId]
    refine h.finish hm ?_ ?_ (by decide)
    · simp [hturn, hrow.2.1, hrow.2.2]
    · intro r _ hr
      simpa using (Bool.and_eq_true_iff.1 (Bool.and_eq_true_iff.1 hr).1).1

/-- A lock recovered from its owner frees its Session and fails the Turn it held. -/
theorem Owned.releaseRecovered (h : db.Owned m) {lock : SessionLock}
    (hl : db.findSessionLock s = some lock) (now : ℤ) (reason : TurnRecoveryReason) :
    (db.releaseRecoveredLockInTransaction lock now reason).1.Owned
      (Function.update m s .free) := by
  have hs := lock_session hl
  have hfree : ∀ d : TurnTables, d.findSessionLock s = some lock →
      (d.deleteLocks fun l => l.sessionId == s && l.ownerId == lock.ownerId &&
        l.ownerKind == lock.ownerKind).1.findSessionLock s = none := by
    intro d hd
    rw [lock_deleteLocks, hd]
    simp [hs]
  have hother : ∀ d : TurnTables, SameExcept s d (d.deleteLocks fun l => l.sessionId == s &&
      l.ownerId == lock.ownerId && l.ownerKind == lock.ownerKind).1 := by
    intro d
    refine sameExcept_deleteLocks fun l hl => ?_
    simpa using (Bool.and_eq_true_iff.1 (Bool.and_eq_true_iff.1 hl).1).1
  unfold releaseRecoveredLockInTransaction
  rw [hs]
  have hlatest : db.latestAcceptedTurn s = (m s).accepted.head? := h.latest
  rcases horphan : db.latestAcceptedTurn s with _ | orphan <;> dsimp only
  · refine h.move (hother _) (hfree _ hl) ?_
    rw [acceptedTurns_deleteLocks, (h s).2]
    rw [horphan] at hlatest
    cases hm : m s <;> rw [hm] at hlatest <;> simp [Ownership.accepted] at hlatest ⊢
  · have hmem := latestAcceptedTurn_mem horphan
    have hrow := mem_acceptedTurns.1 hmem
    have hps : ∀ r ∈ db.turnIngress.rows, (r.turnId == orphan.turnId) = true →
        r.sessionId = s := by
      intro r hr heq
      rw [turn_unique hr hrow.1 (beq_iff_eq.1 heq), hrow.2.1]
    refine h.move ((sameExcept_finishTurns (by decide) hps).trans (hother _))
      (hfree _ hl) ?_
    rw [acceptedTurns_deleteLocks]
    rw [horphan] at hlatest
    cases hm : m s <;> rw [hm] at hlatest <;> simp [Ownership.accepted] at hlatest
    refine acceptedTurns_finish h hm ?_ (by decide) _
    rw [hlatest]
    exact beq_self_eq_true _

theorem Owned.recoverExpired (h : db.Owned m) (now : ℤ) :
    (db.recoverExpiredInTransaction s now).1.Owned
      (Function.update m s ((m s).recoverExpired now)) := by
  have hfind : (db.sessionLocks.rows.find? fun l =>
      l.sessionId == s && decide (l.expiresAtMs ≤ now)) =
      (db.findSessionLock s).filter fun l => decide (l.expiresAtMs ≤ now) := by
    unfold findSessionLock
    rw [← find?_filter_of_unique (fun l => decide (l.expiresAtMs ≤ now))
      fun a ha b hb hqa hqb => lock_unique ha hb ((beq_iff_eq.1 hqa).trans (beq_iff_eq.1 hqb).symm),
      List.find?_filter]
    exact congrArg (List.find? · _) (funext fun l => by
        rw [Bool.eq_iff_iff]
        simp [and_comm])
  unfold recoverExpiredInTransaction
  rw [hfind]
  rcases hl : db.findSessionLock s with _ | lock
  · have : (m s).recoverExpired now = m s := by
      rw [h.free hl]
      rfl
    rw [this]
    exact h.same
  · have hm := (h s).1.symm.trans hl
    have hexp : (m s).lease?.any (·.expiresAtMs ≤ now) = decide (lock.expiresAtMs ≤ now) := by
      cases hm' : m s <;> rw [hm'] at hm <;> simp [Ownership.lock] at hm <;> rw [← hm] <;> rfl
    rw [Ownership.recoverExpired, hexp]
    by_cases hle : lock.expiresAtMs ≤ now
    · rw [Option.filter_some_pos (by simpa using hle), if_pos (by simpa using hle)]
      exact h.releaseRecovered hl now _
    · rw [Option.filter_some_neg (by simpa using hle), if_neg (by simpa using hle)]
      exact h.same

/-- No Session is owned by a process from before leases. -/
theorem Owned.recoverDeadLegacyOwner (h : db.Owned m) (killProbe : ℕ → Option Bool) (now : ℤ) :
    (db.recoverDeadLegacyOwnerInTransaction killProbe s now).1 = db := by
  unfold recoverDeadLegacyOwnerInTransaction
  split
  · rfl
  · rename_i lock hl
    have hlegacy : ∀ process, lock.ownerKind ≠ .legacy process := by
      intro process
      have hm := lock_some h hl
      cases hm' : m s <;> rw [hm'] at hm <;> simp [Ownership.lock] at hm
      case turn busyReason deleting lease row =>
        rw [← hm]
        cases busyReason <;> cases deleting <;> exact fun h => nomatch h
      case maintenance deleting lease =>
        rw [← hm]
        cases deleting <;> exact fun h => nomatch h
      case deletion lease =>
        rw [← hm]
        exact fun h => nomatch h
    have halive : legacyProcessOwnerAlive killProbe lock = none := by
      unfold legacyProcessOwnerAlive
      split
      · rw [if_neg fun h => hlegacy _ h.1]
      · rfl
    rw [if_pos (by simp [halive])]

theorem Owned.recoverAdmission (h : db.Owned m) (pending : Option PendingSettlement)
    (hpending : ∀ p, pending = some p → p.sessionId = s) (killProbe : ℕ → Option Bool) (now : ℤ) :
    (db.recoverAdmissionTerminalFacts s pending killProbe now).1.Owned
      (Function.update m s ((m s).recovered pending now)) := by
  unfold recoverAdmissionTerminalFacts
  rcases pending with _ | pending <;> dsimp only
  · have hrec := h.recoverExpired (s := s) now
    rw [hrec.recoverDeadLegacyOwner]
    exact hrec
  · have hs := hpending pending rfl
    have hp := h.recoverPending pending now
    rw [hs] at hp
    have hrec := hp.recoverExpired (s := s) now
    rw [hrec.recoverDeadLegacyOwner]
    rwa [Function.update_self, Function.update_idem] at hrec

end TurnTables

end Kinetick
