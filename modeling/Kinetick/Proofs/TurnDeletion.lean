import Kinetick.Proofs.TurnLeases

/-!
# Maintenance, deletion and restarts move the owners of the Sessions

A maintenance lease takes a free Session. A deletion takes a free one or marks its owner, and only
its completion frees it. A restart takes the locks it recovers one at a time, each of another
Session, so a lock it read at the start is still there when its turn comes.
-/

namespace Kinetick

namespace TurnTables

variable {db db' : TurnTables} {m : String → Ownership} {s : String}

/-- A lock is inserted for a free Session only. -/
theorem Owned.insertLock (h : db.Owned m) {o : Ownership} {lock : SessionLock}
    {locks : Table sessionLocksIndex} (hins : db.sessionLocks.insert lock = some locks)
    (hacc : o.accepted = []) (hlock : o.lock lock.sessionId = some lock) :
    m lock.sessionId = .free ∧
      TurnTables.Owned { db with sessionLocks := locks } (Function.update m lock.sessionId o) := by
  obtain ⟨hnone, hfind⟩ := lock_insert hins
  have hfree := h.free hnone
  refine ⟨hfree, h.move (fun t ht => ⟨(hfind t).trans (if_neg ht), rfl⟩) ?_ ?_⟩
  · exact (hfind _).trans ((if_pos rfl).trans hlock.symm)
  · refine (show acceptedTurns { db with sessionLocks := locks } lock.sessionId =
      db.acceptedTurns lock.sessionId from rfl).trans ?_
    rw [(h _).2, hfree, hacc]
    rfl

/-- A maintenance lease takes a Session that is free once an expired owner is recovered. -/
theorem Owned.tryAcquireMaintenance (h : db.Owned m) {rejection : Option SessionRejection}
    {leaseId : String} {now leaseMs : ℤ} {lease : Option (String × List TurnRecoveryTerminalFact)}
    (hok : db.tryAcquireSessionMaintenance s rejection leaseId now leaseMs = .ok (db', lease)) :
    (rejection.isSome ∧ db' = db ∧ lease = none) ∨
      (rejection = none ∧ lease = none ∧
        db'.Owned (Function.update m s ((m s).recoverExpired now))) ∨
      (rejection = none ∧ lease.isSome ∧ (m s).recoverExpired now = .free ∧
        db'.Owned (Function.update m s (.maintenance false ⟨leaseId, now, now + leaseMs⟩))) := by
  unfold tryAcquireSessionMaintenance at hok
  rcases rejection with _ | rejection
  · have hrec := h.recoverExpired (s := s) now
    simp only [Option.isSome_none, Bool.false_eq_true, if_false] at hok
    rcases hl : (db.recoverExpiredInTransaction s now).1.findSessionLock s with _ | lock <;>
      simp only [hl, Option.isSome_none, Option.isSome_some, Bool.false_eq_true, if_false,
        if_true] at hok
    · rcases hins : (db.recoverExpiredInTransaction s now).1.sessionLocks.insert
          { sessionId := s, ownerId := leaseId, ownerKind := .maintenance, acquiredAtMs := now,
            expiresAtMs := now + leaseMs } with _ | locks <;>
        simp only [hins, orUnique, bind, Except.bind] at hok
      · cases hok
      · cases hok
        obtain ⟨hfree, howned⟩ := hrec.insertLock
          (o := .maintenance false ⟨leaseId, now, now + leaseMs⟩) hins rfl rfl
        rw [Function.update_idem] at howned
        rw [show (Function.update m s ((m s).recoverExpired now)) s = _ from
          Function.update_self ..] at hfree
        exact .inr (.inr ⟨rfl, rfl, hfree, howned⟩)
    · cases hok
      exact .inr (.inl ⟨rfl, rfl, hrec⟩)
  · simp only [Option.isSome_some, if_true] at hok
    cases hok
    exact .inl ⟨rfl, rfl, rfl⟩

theorem Owned.requireAcceptedTurnId (h : db.Owned m) {turnId : String}
    (hok : db.requireAcceptedTurnId s = .ok turnId) :
    ∃ busyReason deleting lease row, m s = .turn busyReason deleting lease row ∧
      row.turnId = turnId := by
  unfold TurnTables.requireAcceptedTurnId at hok
  rw [h.latest] at hok
  rcases hm : m s with _ | ⟨busyReason, deleting, lease, row⟩ | _ | _ <;> rw [hm] at hok <;>
    simp only [Ownership.accepted, List.head?_nil, List.head?_cons, reduceCtorEq] at hok
  exact ⟨_, _, _, _, rfl, Except.ok.inj hok⟩

theorem lockKind_deletionPending (busyReason : TurnBusyReason) (deleting : Bool) :
    (busyReason.lockKind deleting).deletionPending = some (busyReason.lockKind true) := by
  cases busyReason <;> cases deleting <;> rfl

theorem lockKind_ne_maintenanceDeleting (busyReason : TurnBusyReason) (deleting : Bool) :
    busyReason.lockKind deleting ≠ .maintenanceDeleting := by
  cases busyReason <;> cases deleting <;> decide

theorem lockKind_ne_sessionDeletion (busyReason : TurnBusyReason) (deleting : Bool) :
    busyReason.lockKind deleting ≠ .sessionDeletion := by
  cases busyReason <;> cases deleting <;> decide

theorem Owned.deletion_of_kind (h : db.Owned m) {lock : SessionLock}
    (hl : db.findSessionLock s = some lock) (hkind : lock.ownerKind = .sessionDeletion) :
    m s = .deletion (.ofLock lock) := by
  rcases h.holder hl with ⟨busyReason, deleting, row, hk, -⟩ | ⟨deleting, hk, -⟩ | ⟨-, hm⟩
  · exact absurd (hk.symm.trans hkind) (lockKind_ne_sessionDeletion _ _)
  · rw [hk] at hkind
    cases deleting <;> cases hkind
  · exact hm

/-- An expired owner is recovered for the deletion of its Session, which goes on. -/
theorem Owned.expireForDeletion (h : db.Owned m) {now : ℤ}
    (hok : db.recoverExpiredDeletionTurnInTransaction s now = .ok db') :
    db'.Owned (Function.update m s ((m s).expireForDeletion now)) := by
  unfold recoverExpiredDeletionTurnInTransaction at hok
  rcases hl : db.findSessionLock s with _ | lock <;> rw [hl] at hok <;> dsimp only at hok
  · cases hok
    have hsame : (m s).expireForDeletion now = m s := by
      rw [h.free hl]
      rfl
    rw [hsame]
    exact h.same
  · rcases h.holder hl with ⟨busyReason, deleting, row, hkind, hm⟩ | ⟨deleting, hkind, hm⟩ |
      ⟨hkind, hm⟩
    · rw [hm, Ownership.expireForDeletion]
      rw [hkind, lockKind_deletionPending, if_neg (lockKind_ne_maintenanceDeleting _ _)] at hok
      by_cases hexp : now < lock.expiresAtMs
      · rw [if_pos (.inr hexp)] at hok
        cases hok
        rw [if_pos (by exact hexp), ← hm]
        exact h.same
      · rw [if_neg (by simpa using hexp)] at hok
        rcases hreq : db.requireAcceptedTurnId s with e | turnId <;>
          simp only [hreq, bind, Except.bind] at hok
        · cases hok
        · split_ifs at hok
          cases hok
          obtain ⟨_, _, _, row', hm', hturn⟩ := h.requireAcceptedTurnId hreq
          obtain rfl : row = row' := by
            rw [hm'] at hm
            exact (Ownership.turn.inj hm).2.2.2.symm
          have hrow := h.turn_mem hm
          rw [if_neg (by exact hexp), ← hm]
          refine h.finish hm ?_ ?_ (by decide)
          · simp [hturn, hrow.2.1, hrow.2.2]
          · intro r _ hr
            exact beq_iff_eq.1 (Bool.and_eq_true_iff.1 (Bool.and_eq_true_iff.1 hr).1).1
    · cases deleting
      · -- no query names a plain maintenance lease: it is kept, or its missing Turn throws
        rw [hkind] at hok
        by_cases hexp : now < lock.expiresAtMs
        · rw [if_pos (.inr hexp)] at hok
          cases hok
          rw [show (m s).expireForDeletion now = m s by rw [hm]; rfl]
          exact h.same
        · rw [if_neg (by simpa [OwnerKind.deletionPending] using hexp)] at hok
          have hmissing : db.requireAcceptedTurnId s = .error (.deletionActiveTurnMissing s) := by
            unfold TurnTables.requireAcceptedTurnId
            rw [h.latest, hm]
            rfl
          simp [hmissing, bind, Except.bind] at hok
      · rw [hkind] at hok
        rw [hm, Ownership.expireForDeletion]
        by_cases hexp : now < lock.expiresAtMs
        · rw [if_pos (.inr hexp)] at hok
          cases hok
          rw [if_pos (by exact hexp), ← hm]
          exact h.same
        · rw [if_neg (by simpa [OwnerKind.deletionPending] using hexp), if_pos (by rfl)] at hok
          cases hok
          rw [if_neg (by exact hexp)]
          refine h.updateLease (by intro; rfl) (fun l hl => ?_) (by rw [hm]; rfl) ?_
          · exact beq_iff_eq.1 (Bool.and_eq_true_iff.1 hl).1
          · simp [hm, Ownership.lock, Lease.lock, Lease.fence, Lease.ofLock]
    · rw [hkind, if_pos (.inl (by rfl))] at hok
      cases hok
      rw [show (m s).expireForDeletion now = m s by rw [hm]; rfl]
      exact h.same

/-- A deletion marks the lock it finds. -/
theorem Owned.mark (h : db.Owned m) {lock : SessionLock} (hl : db.findSessionLock s = some lock)
    (kind : OwnerKind) (o : Ownership) (hacc : o.accepted = (m s).accepted)
    (hlock : o.lock s = some { lock with ownerKind := kind }) :
    (if lock.ownerKind ≠ kind then
        (db.updateLocks (fun l => l.sessionId == s && l.ownerId == lock.ownerId)
          fun l => { l with ownerKind := kind }).1
      else db).Owned (Function.update m s o) := by
  split_ifs with hkind
  · refine h.updateLease (by intro; rfl) (fun l hl => ?_) hacc ?_
    · exact beq_iff_eq.1 (Bool.and_eq_true_iff.1 hl).1
    · rw [lock_some h hl, hlock]
      simp [lock_session hl]
  · rw [not_not] at hkind
    subst hkind
    exact h.move (SameExcept.refl s db) (hl.trans hlock.symm) ((h s).2.trans hacc.symm)

theorem Owned.raiseFence (h : db.Owned m) {now : ℤ} {verdicts : DeletionVerdicts}
    {state : SessionDeletionState}
    (hok : db.raiseDeletionFence s now verdicts = .ok (db', state)) :
    db'.Owned (Function.update m s ((m s).raiseFence now verdicts)) := by
  unfold raiseDeletionFence at hok
  rcases hl : db.findSessionLock s with _ | lock <;> rw [hl] at hok <;> dsimp only at hok
  · have hfree := h.free hl
    rcases hins : db.sessionLocks.insert
        { sessionId := s, ownerId := verdicts.deletionOwnerId, ownerKind := .sessionDeletion,
          acquiredAtMs := now, expiresAtMs := deletionFenceExpiresAtMs } with _ | locks <;>
      simp only [hins, orUnique, bind, Except.bind] at hok
    · cases hok
    · cases hok
      rw [hfree]
      exact (h.insertLock (o := .deletion (.fence verdicts.deletionOwnerId now)) hins rfl rfl).2
  · have hown : ∀ l : SessionLock, (l.sessionId == s && l.ownerId == lock.ownerId) = true →
        l.sessionId = s := fun l hl => beq_iff_eq.1 (Bool.and_eq_true_iff.1 hl).1
    rcases h.holder hl with ⟨busyReason, deleting, row, hkind, hm⟩ | ⟨deleting, hkind, hm⟩ |
      ⟨hkind, hm⟩
    · have hmark := h.mark hl (busyReason.lockKind true) (.turn busyReason true (.ofLock lock) row)
        (by rw [hm]; rfl) (by rw [← lock_session hl]; rfl)
      rw [hkind] at hok hmark
      rw [if_neg (lockKind_ne_sessionDeletion _ _), lockKind_deletionPending] at hok
      dsimp only at hok
      rw [if_neg (lockKind_ne_maintenanceDeleting _ _)] at hok
      rw [hm, Ownership.raiseFence]
      rcases hreq : TurnTables.requireAcceptedTurnId _ s with e | turnId <;>
        rw [hreq] at hok <;> cases hok
      exact hmark
    · have hmark := h.mark hl .maintenanceDeleting (.maintenance true (.ofLock lock))
        (by rw [hm]; rfl) (by rw [← lock_session hl]; rfl)
      have hpending : lock.ownerKind.deletionPending = some .maintenanceDeleting := by
        rw [hkind]
        cases deleting <;> rfl
      have hne : lock.ownerKind ≠ .sessionDeletion := by
        rw [hkind]
        cases deleting <;> decide
      rw [if_neg hne, hpending] at hok
      dsimp only at hok
      rw [if_pos rfl] at hok
      cases hok
      rw [hm, Ownership.raiseFence]
      exact hmark
    · rw [if_pos hkind] at hok
      rw [hm, Ownership.raiseFence]
      by_cases hcurrent : verdicts.isLeaseOwnerCurrent lock.ownerId = true
      · rw [if_pos hcurrent] at hok
        cases hok
        rw [if_pos (by exact hcurrent), ← hm]
        exact h.same
      · rw [if_neg hcurrent] at hok
        split_ifs at hok
        cases hok
        rw [if_neg (by exact hcurrent)]
        refine h.updateLease (by intro; rfl) (fun l hl => ?_) (by rw [hm]; rfl) ?_
        · exact beq_iff_eq.1 (Bool.and_eq_true_iff.1 (Bool.and_eq_true_iff.1 hl).1).1
        · simp [hm, Ownership.lock, Lease.lock, Lease.fence, Lease.ofLock]

theorem Owned.beginDeletion (h : db.Owned m) {pending : Option PendingSettlement}
    (hpending : ∀ p, pending = some p → p.sessionId = s) {now : ℤ} {verdicts : DeletionVerdicts}
    {state : SessionDeletionState}
    (hok : db.beginSessionDeletion s pending now verdicts = .ok (db', state)) :
    db'.Owned (Function.update m s ((m s).beginDeletion pending now verdicts)) := by
  have hbegin : ∀ {d : TurnTables} {m' : String → Ownership}, d.Owned m' →
      d.beginSessionDeletionInTransaction s now verdicts = .ok (db', state) →
        db'.Owned (Function.update m' s
          (((m' s).expireForDeletion now).raiseFence now verdicts)) := by
    intro d m' hd hok
    unfold beginSessionDeletionInTransaction at hok
    rcases hexp : d.recoverExpiredDeletionTurnInTransaction s now with e | d₁ <;>
      simp only [hexp, bind, Except.bind] at hok
    · cases hok
    · have := (hd.expireForDeletion hexp).raiseFence hok
      rwa [Function.update_self, Function.update_idem] at this
  unfold beginSessionDeletion at hok
  unfold Ownership.beginDeletion
  rcases pending with _ | pending
  · exact hbegin h hok
  · have hs := hpending pending rfl
    have hp := h.recoverPending pending now
    rw [hs] at hp
    have := hbegin hp hok
    rwa [Function.update_self, Function.update_idem] at this

/-- The rows of a Session go only under its fence, when none of them is accepted. -/
theorem Owned.deleteSessionData (h : db.Owned m) (hok : db.deleteSessionData s = .ok db') :
    db'.Owned m ∧ ((m s).accepted = []) := by
  unfold TurnTables.deleteSessionData at hok
  dsimp only at hok
  split_ifs at hok with hnone hkind
  · cases hok
    refine ⟨h, ?_⟩
    rw [h.free (Option.isNone_iff_eq_none.1 hnone.1)]
    rfl
  · cases hok
    rw [not_not, Option.map_eq_some_iff] at hkind
    obtain ⟨lock, hl, hkind⟩ := hkind
    have hm : m s = .deletion (.ofLock lock) := h.deletion_of_kind hl hkind
    refine ⟨fun t => ⟨(h t).1, ?_⟩, by rw [hm]; rfl⟩
    rw [← (h t).2]
    simp only [acceptedTurns, Table.rows_delete, List.filter_filter]
    refine List.filter_congr fun r hr => ?_
    rcases hs : (r.sessionId == t && r.status == .accepted) with _ | _
    · rfl
    · rcases eq_or_ne t s with rfl | hne
      · -- the fence is up, so the Session has no accepted row
        have hmem : r ∈ db.acceptedTurns t := List.mem_filter.2 ⟨hr, hs⟩
        rw [(h t).2, hm] at hmem
        exact absurd hmem List.not_mem_nil
      · simp only [Bool.and_eq_true, beq_iff_eq] at hs
        simpa [hs.1] using hne

theorem Owned.completeDeletion (h : db.Owned m) {isLeaseOwnerCurrent : String → Bool}
    (hok : db.completeSessionDeletion s isLeaseOwnerCurrent = .ok db') :
    db'.Owned (Function.update m s .free) := by
  unfold completeSessionDeletion at hok
  rcases hl : db.findSessionLock s with _ | lock <;> rw [hl] at hok <;> dsimp only at hok
  · cases hok
    rw [← h.free hl]
    exact h.same
  · split_ifs at hok with hkind hcurrent
    rw [not_not] at hkind
    rcases hrow : db.turnIngress.rows.find? (·.sessionId == s) with _ | row <;>
      rw [hrow] at hok <;> cases hok
    refine h.move (sameExcept_deleteLocks fun l hl => beq_iff_eq.1 hl) ?_ ?_
    · rw [lock_deleteLocks, hl]
      simp [lock_session hl, Ownership.lock]
    · rw [acceptedTurns_deleteLocks]
      refine List.filter_eq_nil_iff.2 fun r hr hs => ?_
      rw [List.find?_eq_none] at hrow
      exact hrow r hr (Bool.and_eq_true_iff.1 hs).1

/-! ## Restarts -/

theorem Owned.failLatest (h : db.Owned m) {now : ℤ} {turnId : Option String}
    (hok : db.failLatestAcceptedTurnInTransaction s now = .ok (db', turnId)) :
    SameExcept s db db' ∧ db'.sessionLocks = db.sessionLocks ∧ db'.acceptedTurns s = [] := by
  unfold failLatestAcceptedTurnInTransaction at hok
  rcases horphan : db.latestAcceptedTurn s with _ | orphan <;> simp only [horphan] at hok
  · cases hok
    refine ⟨SameExcept.refl s _, rfl, ?_⟩
    rw [h.latest] at horphan
    rw [(h s).2]
    exact List.head?_eq_none_iff.1 horphan
  · split_ifs at hok
    cases hok
    have hmem := latestAcceptedTurn_mem horphan
    have hrow := mem_acceptedTurns.1 hmem
    refine ⟨sameExcept_finishTurns (by decide) fun r hr hp => ?_, rfl, ?_⟩
    · have hp := beq_iff_eq.1 (Bool.and_eq_true_iff.1 hp).1
      rw [turn_unique hr hrow.1 hp, hrow.2.1]
    · rw [acceptedTurns_finishTurns _ (by decide), List.filter_eq_nil_iff]
      intro r hr
      have hr' := mem_acceptedTurns.1 hr
      have heq : r = orphan := by
        rw [(h s).2] at hr hmem
        cases hm : m s <;> rw [hm] at hr hmem <;>
          simp only [Ownership.accepted, List.mem_singleton, List.not_mem_nil] at hr hmem
        rw [hr, hmem]
      simp [heq, hrow.2.2]

theorem recoverRestartLock_cases {lock : SessionLock} {now : ℤ}
    {entry : ProcessRestartRecoveryEntry}
    (hok : db.recoverProcessRestartLockInTransaction lock now = .ok (db', entry)) :
    ∃ d t, ((lock.ownerKind.isTurn ∧
        db.failLatestAcceptedTurnInTransaction lock.sessionId now = .ok (d, t)) ∨
      (lock.ownerKind.isTurn = false ∧ d = db)) ∧
      db' = (d.deleteLocks fun l => l.sessionId == lock.sessionId && l.ownerId == lock.ownerId &&
        l.ownerKind == lock.ownerKind && l.acquiredAtMs == lock.acquiredAtMs).1 := by
  unfold recoverProcessRestartLockInTransaction at hok
  rcases hturn : lock.ownerKind.isTurn with _ | _ <;>
    simp only [hturn, Bool.false_eq_true, if_false, if_true, bind, Except.bind, pure,
      Except.pure] at hok
  · split_ifs at hok
    cases hok
    exact ⟨db, none, .inr ⟨rfl, rfl⟩, rfl⟩
  · rcases hfail : db.failLatestAcceptedTurnInTransaction lock.sessionId now with e | ⟨d, t⟩ <;>
      rw [hfail] at hok <;> dsimp only at hok
    · cases hok
    · split_ifs at hok
      cases hok
      exact ⟨d, t, .inl ⟨rfl, rfl⟩, rfl⟩

/-- A lock a restart releases frees its Session, failing the Turn it held. -/
theorem Owned.recoverRestartLock (h : db.Owned m) {lock : SessionLock} {now : ℤ}
    {entry : ProcessRestartRecoveryEntry} (hl : db.findSessionLock s = some lock)
    (hkind : lock.ownerKind ≠ .sessionDeletion)
    (hok : db.recoverProcessRestartLockInTransaction lock now = .ok (db', entry)) :
    db'.Owned (Function.update m s .free) := by
  have hs := lock_session hl
  obtain ⟨d, t, hd, rfl⟩ := recoverRestartLock_cases hok
  have hfailed : SameExcept s db d ∧ d.sessionLocks = db.sessionLocks ∧
      d.acceptedTurns s = [] := by
    rcases hd with ⟨-, hfail⟩ | ⟨hturn, rfl⟩
    · exact h.failLatest (hs ▸ hfail)
    · refine ⟨SameExcept.refl s _, rfl, ?_⟩
      rw [(h s).2]
      rcases h.holder hl with ⟨busyReason, deleting, row, hk, -⟩ | ⟨deleting, -, hm⟩ | ⟨hk, -⟩
      · rw [hk] at hturn
        cases busyReason <;> cases deleting <;> cases hturn
      · rw [hm]
        rfl
      · exact absurd hk hkind
  obtain ⟨hother, hlocks, hacc⟩ := hfailed
  have hld : d.findSessionLock s = some lock := by
    unfold findSessionLock at hl ⊢
    rw [hlocks, hl]
  refine h.move (hother.trans (sameExcept_deleteLocks fun l hl => ?_)) ?_ ?_
  · simp only [Bool.and_eq_true, beq_iff_eq] at hl
    rw [hl.1.1.1, hs]
  · rw [lock_deleteLocks, hld]
    simp [Ownership.lock]
  · rw [acceptedTurns_deleteLocks, hacc]
    rfl

/-- One lock of a restart: left to a live owner, reclaimed for deletion, or released. -/
theorem Owned.recoverOrphaned (h : db.Owned m) {verdicts : RestartVerdicts} {now : ℤ}
    {result result' : TurnProcessRestartRecoveryResult} {lock : SessionLock}
    (hl : db.findSessionLock s = some lock)
    (hok : recoverOrphanedLock verdicts now (db, result) lock = .ok (db', result')) :
    ∃ o, (o = m s ∨ o = (m s).restart verdicts s now) ∧ db'.Owned (Function.update m s o) := by
  have hs := lock_session hl
  unfold recoverOrphanedLock at hok
  dsimp only at hok
  split_ifs at hok with hlive hkind hreclaimed
  · cases hok
    exact ⟨m s, .inl rfl, h.same⟩
  · cases hok
    have hm : m s = .deletion (.ofLock lock) := h.deletion_of_kind hl hkind
    refine ⟨_, .inr rfl, h.updateLease (by intro; rfl) (fun l hl => ?_) (by rw [hm]; rfl) ?_⟩
    · simp only [Bool.and_eq_true, beq_iff_eq] at hl
      rw [hl.1.1.1, hs]
    · rw [hm]
      simp [Ownership.lock, Ownership.restart, Lease.lock, Lease.ofLock, Lease.fence, hs, hkind]
  · have hfree : (m s).restart verdicts s now = .free := by
      rcases h.holder hl with ⟨busyReason, deleting, row, -, hm⟩ | ⟨deleting, -, hm⟩ | ⟨hk, -⟩
      · rw [hm]
        rfl
      · rw [hm]
        rfl
      · exact absurd hk hkind
    rcases hrec : db.recoverProcessRestartLockInTransaction lock now with e | ⟨d, entry⟩ <;>
      simp only [hrec, bind, Except.bind] at hok <;> cases hok
    exact ⟨.free, .inr hfree.symm, h.recoverRestartLock hl hkind hrec⟩

/-- A restart leaves each Session to its owner or takes it from an owner it recovers. -/
theorem Owned.recoverOrphanedLocks {verdicts : RestartVerdicts} {now : ℤ}
    {result' : TurnProcessRestartRecoveryResult} :
    ∀ {locks : List SessionLock} {db : TurnTables} {m : String → Ownership}
      {result : TurnProcessRestartRecoveryResult}, db.Owned m →
      (locks.map (·.sessionId)).Nodup →
      (∀ lock ∈ locks, db.findSessionLock lock.sessionId = some lock) →
      locks.foldlM (recoverOrphanedLock verdicts now) (db, result) = .ok (db', result') →
      ∃ m', db'.Owned m' ∧ (∀ s, m' s = m s ∨ m' s = (m s).restart verdicts s now) ∧
        ∀ s ∉ locks.map (·.sessionId), m' s = m s
  | [], db, m, result, h, _, _, hok => by
    cases hok
    exact ⟨m, h, fun s => .inl rfl, fun _ _ => rfl⟩
  | lock :: locks, db, m, result, h, hnodup, hlocks, hok => by
    rw [List.foldlM_cons] at hok
    rcases hstep : recoverOrphanedLock verdicts now (db, result) lock with e | ⟨d, r⟩ <;>
      simp only [hstep, bind, Except.bind] at hok
    · cases hok
    · obtain ⟨o, ho, howned⟩ := h.recoverOrphaned (hlocks lock (.head _)) hstep
      rw [List.map_cons, List.nodup_cons] at hnodup
      have hne : ∀ l ∈ locks, l.sessionId ≠ lock.sessionId := fun l hl heq =>
        hnodup.1 (heq ▸ List.mem_map_of_mem hl)
      have hrest : ∀ l ∈ locks, d.findSessionLock l.sessionId = some l := by
        intro l hl
        rw [(howned l.sessionId).1, Function.update_of_ne (hne l hl), ← (h l.sessionId).1]
        exact hlocks l (.tail _ hl)
      obtain ⟨m', hm', hrel, hout⟩ := howned.recoverOrphanedLocks hnodup.2 hrest hok
      refine ⟨m', hm', fun t => ?_, fun t ht => ?_⟩
      · rcases eq_or_ne t lock.sessionId with rfl | hts
        · rw [hout _ hnodup.1, Function.update_self]
          exact ho
        · have := hrel t
          rwa [Function.update_of_ne hts] at this
      · rw [List.map_cons, List.mem_cons, not_or] at ht
        rw [hout t ht.2, Function.update_of_ne ht.1]

theorem Owned.recoverProcessRestart (h : db.Owned m) {verdicts : RestartVerdicts}
    {started now : ℤ} {result : TurnProcessRestartRecoveryResult}
    (hok : db.recoverProcessRestartInTransaction verdicts started now = .ok (db', result)) :
    ∃ m', db'.Owned m' ∧ ∀ s, m' s = m s ∨ m' s = (m s).restart verdicts s now := by
  have hperm : (db.orphanedLocks started).Perm (db.sessionLocks.rows.filter fun l =>
      l.ownerKind.isProcessRestart && decide (l.acquiredAtMs < started)) :=
    List.mergeSort_perm _ _
  have hnodup : ((db.orphanedLocks started).map (·.sessionId)).Nodup := by
    refine (hperm.map _).nodup_iff.2 ?_
    have hkeys := db.sessionLocks.holds
    simp only [sessionLocksIndex, Constraint.unique, List.filterMap_eq_map'] at hkeys
    exact hkeys.sublist (List.filter_sublist.map _)
  have hlocks : ∀ lock ∈ db.orphanedLocks started,
      db.findSessionLock lock.sessionId = some lock :=
    fun lock hl => lock_of_mem (List.mem_filter.1 (hperm.mem_iff.1 hl)).1
  obtain ⟨m', hm', hrel, -⟩ := h.recoverOrphanedLocks hnodup hlocks hok
  exact ⟨m', hm', hrel⟩

end TurnTables

end Kinetick
