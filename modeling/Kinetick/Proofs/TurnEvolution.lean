import Kinetick.Proofs.TurnDeletion

/-!
# Rows keep the status they end with

A call finishes accepted rows, drops rows or adds one under a sequence never used before, so a row
under a sequence already handed out is the row it was, with its status unless it was accepted.
-/

namespace Kinetick

namespace TurnTables

variable {db db' : TurnTables} {m : String → Ownership} {s : String}

/-- Rows under sequences already handed out were there, and kept the status they ended with. A
sequence that was there still has its row, and a new one is past those handed out. -/
structure Evolves (db db' : TurnTables) : Prop where
  last : db.lastSequence ≤ db'.lastSequence
  rows : ∀ r' ∈ db'.turnIngress.rows,
    (db.lastSequence < r'.acceptedSequence ∧ r'.acceptedSequence ≤ db'.lastSequence) ∨
      ∃ r ∈ db.turnIngress.rows, r.acceptedSequence = r'.acceptedSequence ∧
        (r.status ≠ .accepted → r'.status = r.status)
  sequences : ∀ q ∈ db'.turnIngressSequences.rows,
    (db.lastSequence < q.sequence ∧ q.sequence ≤ db'.lastSequence ∧
        ∃ r ∈ db'.turnIngress.rows, r.turnId = q.turnId) ∨
      (q ∈ db.turnIngressSequences.rows ∧ ((∃ r ∈ db.turnIngress.rows, r.turnId = q.turnId) →
        ∃ r ∈ db'.turnIngress.rows, r.turnId = q.turnId))

theorem Evolves.refl (db : TurnTables) : Evolves db db :=
  ⟨le_rfl, fun r hr => .inr ⟨r, hr, rfl, fun _ => rfl⟩, fun _ hq => .inr ⟨hq, id⟩⟩

theorem Evolves.trans {a b c : TurnTables} (h : Evolves a b) (h' : Evolves b c) :
    Evolves a c := by
  refine ⟨h.last.trans h'.last, fun r hr => ?_, fun q hq => ?_⟩
  · rcases h'.rows r hr with hnew | ⟨r₁, hr₁, hseq, hstatus⟩
    · exact .inl ⟨h.last.trans_lt hnew.1, hnew.2⟩
    · rcases h.rows r₁ hr₁ with hnew | ⟨r₀, hr₀, hseq₀, hstatus₀⟩
      · exact .inl (hseq ▸ ⟨hnew.1, hnew.2.trans h'.last⟩)
      · refine .inr ⟨r₀, hr₀, hseq₀.trans hseq, fun hend => ?_⟩
        have := hstatus₀ hend
        rw [hstatus (this ▸ hend), this]
  · rcases h'.sequences q hq with ⟨hlt, hle, hrow⟩ | ⟨hq₁, hkeep⟩
    · exact .inl ⟨h.last.trans_lt hlt, hle, hrow⟩
    · rcases h.sequences q hq₁ with ⟨hlt, hle, hrow⟩ | ⟨hq₀, hkeep₀⟩
      · exact .inl ⟨hlt, hle.trans h'.last, hkeep hrow⟩
      · exact .inr ⟨hq₀, fun hrow => hkeep (hkeep₀ hrow)⟩

/-- A write that rewrites rows under their own Turn ids and sequences. -/
theorem evolves_of_map {f : TurnIngress → TurnIngress}
    (hlast : db'.lastSequence = db.lastSequence)
    (hsequences : db'.turnIngressSequences = db.turnIngressSequences)
    (hrows : db'.turnIngress.rows = db.turnIngress.rows.map f)
    (hturn : ∀ r, (f r).turnId = r.turnId)
    (hseq : ∀ r, (f r).acceptedSequence = r.acceptedSequence)
    (hstatus : ∀ r ∈ db.turnIngress.rows, r.status ≠ .accepted → (f r).status = r.status) :
    Evolves db db' := by
  refine ⟨hlast.ge, fun r' hr' => ?_, fun q hq => .inr ⟨hsequences ▸ hq, ?_⟩⟩
  · rw [hrows] at hr'
    obtain ⟨r, hr, rfl⟩ := List.mem_map.1 hr'
    exact .inr ⟨r, hr, (hseq r).symm, hstatus r hr⟩
  · rintro ⟨r, hr, hrq⟩
    exact ⟨f r, hrows ▸ List.mem_map_of_mem hr, (hturn r).trans hrq⟩

theorem evolves_finishTurns {p : TurnIngress → Bool} {status : TurnStatus} {now : ℤ}
    (hp : ∀ r ∈ db.turnIngress.rows, p r → r.status = .accepted) :
    Evolves db (db.finishTurns p status now).1 := by
  refine evolves_of_map rfl rfl rfl (fun r => ?_) (fun r => ?_) fun r hr hend => ?_
  · dsimp only
    split_ifs <;> rfl
  · dsimp only
    split_ifs <;> rfl
  · dsimp only
    rw [if_neg fun h => hend (hp r hr h)]

theorem evolves_acknowledgeTurns (p : TurnIngress → Bool) (now : ℤ) :
    Evolves db (db.acknowledgeTurns p now).1 := by
  refine evolves_of_map rfl rfl rfl (fun r => ?_) (fun r => ?_) fun r _ _ => ?_
  all_goals
    dsimp only
    split_ifs <;> rfl

/-- A write that leaves the rows and their sequences. -/
theorem evolves_of_same (hlast : db'.lastSequence = db.lastSequence)
    (hrows : db'.turnIngress = db.turnIngress)
    (hsequences : db'.turnIngressSequences = db.turnIngressSequences) : Evolves db db' :=
  evolves_of_map hlast hsequences (by rw [hrows, List.map_id']) (fun _ => rfl) (fun _ => rfl)
    fun _ _ _ => rfl

/-- A write that deletes rows, and the sequences of the Turns it deletes. -/
theorem evolves_of_delete (hlast : db'.lastSequence = db.lastSequence)
    (hrows : ∀ r ∈ db'.turnIngress.rows, r ∈ db.turnIngress.rows)
    (hsequences : ∀ q ∈ db'.turnIngressSequences.rows, q ∈ db.turnIngressSequences.rows ∧
      ∀ r ∈ db.turnIngress.rows, r.turnId = q.turnId → r ∈ db'.turnIngress.rows) :
    Evolves db db' :=
  ⟨hlast.ge, fun r hr => .inr ⟨r, hrows r hr, rfl, fun _ => rfl⟩, fun q hq =>
    .inr ⟨(hsequences q hq).1, fun ⟨r, hr, hrq⟩ => ⟨r, (hsequences q hq).2 r hr hrq, hrq⟩⟩⟩

theorem evolves_releaseOrPromote {leaseId : String} {ownerKind : OwnerKind} {now : ℤ} :
    Evolves db (db.releaseOrPromoteDeletionFence s leaseId ownerKind now).1 := by
  unfold releaseOrPromoteDeletionFence
  split_ifs <;> exact evolves_of_same rfl rfl rfl

theorem evolves_insertAdmission {input : AdmitTurnInput} {leaseId : String} {now leaseMs : ℤ}
    {res : AdmitTurnResult} (hok : db.insertAdmission input leaseId now leaseMs = .ok (db', res)) :
    Evolves db db' := by
  obtain ⟨-, hsequences, hingress, -, hlast, -⟩ := insertAdmission_cases hok
  have hrows := Table.insert_eq_some hingress
  refine ⟨by omega, fun r hr => ?_, fun q hq => ?_⟩
  · rw [hrows, List.mem_append, List.mem_singleton] at hr
    rcases hr with hr | rfl
    · exact .inr ⟨r, hr, rfl, fun _ => rfl⟩
    · exact .inl ⟨Nat.lt_succ_self _, hlast.ge⟩
  · rw [Table.insert_eq_some hsequences, List.mem_append, List.mem_singleton] at hq
    rw [hrows]
    rcases hq with hq | rfl
    · exact .inr ⟨hq, fun ⟨r, hr, hrq⟩ => ⟨r, List.mem_append_left _ hr, hrq⟩⟩
    · exact .inl ⟨Nat.lt_succ_self _, hlast.ge, _,
        List.mem_append_right _ (List.mem_singleton_self _), rfl⟩

theorem evolves_settle {input : SettleTurnInput} {now : ℤ} {res : SettleTurnResult}
    (hok : db.settleInTransaction input now = .ok (db', res)) : Evolves db db' := by
  rcases settle_cases hok with ⟨rfl, -, -⟩ | ⟨lock, -, -, -, rfl⟩
  · exact Evolves.refl _
  · refine (evolves_finishTurns fun r _ hr => ?_).trans evolves_releaseOrPromote
    exact beq_iff_eq.1 (Bool.and_eq_true_iff.1 hr).2

theorem evolves_recoverPending (pending : PendingSettlement) (now : ℤ) :
    Evolves db (db.recoverPendingSettlementInTransaction pending now).1 := by
  rcases recoverPending_cases db pending now with ⟨heq, -⟩ | ⟨lock, -, -, -, heq⟩ <;> rw [heq]
  · exact Evolves.refl _
  · refine (evolves_finishTurns fun r _ hr => ?_).trans evolves_releaseOrPromote
    exact beq_iff_eq.1 (Bool.and_eq_true_iff.1 hr).2

theorem evolves_releaseRecovered (lock : SessionLock) (now : ℤ) (reason : TurnRecoveryReason) :
    Evolves db (db.releaseRecoveredLockInTransaction lock now reason).1 := by
  unfold releaseRecoveredLockInTransaction
  rcases horphan : db.latestAcceptedTurn lock.sessionId with _ | orphan <;> dsimp only
  · exact evolves_of_same rfl rfl rfl
  · have hrow := mem_acceptedTurns.1 (latestAcceptedTurn_mem horphan)
    refine (evolves_finishTurns fun r hr hp => ?_).trans (evolves_of_same rfl rfl rfl)
    rw [turn_unique hr hrow.1 (beq_iff_eq.1 hp), hrow.2.2]

theorem evolves_recoverExpired (now : ℤ) :
    Evolves db (db.recoverExpiredInTransaction s now).1 := by
  unfold recoverExpiredInTransaction
  dsimp only
  split
  · exact Evolves.refl _
  · exact evolves_releaseRecovered _ _ _

theorem evolves_recoverDeadLegacyOwner (killProbe : ℕ → Option Bool) (now : ℤ) :
    Evolves db (db.recoverDeadLegacyOwnerInTransaction killProbe s now).1 := by
  unfold recoverDeadLegacyOwnerInTransaction
  split
  · exact Evolves.refl _
  · split_ifs
    · exact Evolves.refl _
    · exact evolves_releaseRecovered _ _ _

theorem evolves_recoverAdmission (pending : Option PendingSettlement)
    (killProbe : ℕ → Option Bool) (now : ℤ) :
    Evolves db (db.recoverAdmissionTerminalFacts s pending killProbe now).1 := by
  unfold recoverAdmissionTerminalFacts
  rcases pending with _ | pending
  · exact (evolves_recoverExpired now).trans (evolves_recoverDeadLegacyOwner _ _)
  · exact ((evolves_recoverPending pending now).trans (evolves_recoverExpired now)).trans
      (evolves_recoverDeadLegacyOwner _ _)

theorem evolves_admitTurn {input : AdmitTurnInput} {pending : Option PendingSettlement}
    {verdicts : AdmitVerdicts} {now leaseMs : ℤ} {res : AdmitTurnResult}
    (hok : db.admitTransaction input pending verdicts now leaseMs = .ok (db', res)) :
    Evolves db db' := by
  rcases admit_cases hok with ⟨_, -, rfl, -⟩ | ⟨-, ⟨rfl, -⟩ | ⟨-, -, -, _, hins⟩⟩
  · exact Evolves.refl _
  · exact evolves_recoverAdmission _ _ _
  · exact (evolves_recoverAdmission _ _ _).trans (evolves_insertAdmission hins)

theorem evolves_revoke (turnId leaseId : String) :
    Evolves db (db.revokeAdmission s turnId leaseId).1 := by
  rcases revoke_cases db s turnId leaseId with ⟨heq, -⟩ | ⟨lock, -, -, -, -, heq⟩ <;> rw [heq]
  · exact Evolves.refl _
  · refine evolves_of_delete rfl (fun r hr => (List.mem_filter.1 hr).1) fun q hq => ?_
    have hq := List.mem_filter.1 hq
    exact ⟨hq.1, fun r hr hrq => List.mem_filter.2 ⟨hr, by simpa [hrq] using hq.2⟩⟩

theorem evolves_tryAcquireMaintenance {rejection : Option SessionRejection} {leaseId : String}
    {now leaseMs : ℤ} {lease : Option (String × List TurnRecoveryTerminalFact)}
    (hok : db.tryAcquireSessionMaintenance s rejection leaseId now leaseMs = .ok (db', lease)) :
    Evolves db db' := by
  unfold tryAcquireSessionMaintenance at hok
  dsimp only at hok
  have hrec : Evolves db (db.recoverExpiredInTransaction s now).1 := evolves_recoverExpired now
  by_cases hrejection : rejection.isSome = true
  · rw [if_pos hrejection] at hok
    cases hok
    exact Evolves.refl _
  rw [if_neg hrejection] at hok
  by_cases hlock : ((db.recoverExpiredInTransaction s now).1.findSessionLock s).isSome = true
  · rw [if_pos hlock] at hok
    cases hok
    exact hrec
  rw [if_neg hlock] at hok
  simp only [bind, Except.bind] at hok
  split at hok <;> cases hok
  exact hrec.trans (evolves_of_same rfl rfl rfl)

theorem evolves_releaseMaintenance (leaseId : String) (now : ℤ) :
    Evolves db (db.releaseSessionMaintenance s leaseId now) := by
  unfold releaseSessionMaintenance
  dsimp only
  split
  · exact Evolves.refl _
  · split_ifs <;> exact evolves_of_same rfl rfl rfl

theorem evolves_expireForDeletion {now : ℤ}
    (hok : db.recoverExpiredDeletionTurnInTransaction s now = .ok db') : Evolves db db' := by
  unfold recoverExpiredDeletionTurnInTransaction at hok
  rcases hl : db.findSessionLock s with _ | lock <;> rw [hl] at hok <;> dsimp only at hok
  · cases hok
    exact Evolves.refl _
  by_cases hkeep : lock.ownerKind.deletionPending.isNone ∨ now < lock.expiresAtMs
  · rw [if_pos hkeep] at hok
    cases hok
    exact Evolves.refl _
  rw [if_neg hkeep] at hok
  by_cases hmaintenance : lock.ownerKind = .maintenanceDeleting
  · rw [if_pos hmaintenance] at hok
    cases hok
    exact evolves_of_same rfl rfl rfl
  rw [if_neg hmaintenance] at hok
  rcases hreq : db.requireAcceptedTurnId s with e | turnId <;>
    simp only [hreq, bind, Except.bind] at hok
  · cases hok
  split_ifs at hok
  cases hok
  refine (evolves_finishTurns fun r _ hr => ?_).trans evolves_releaseOrPromote
  exact beq_iff_eq.1 (Bool.and_eq_true_iff.1 hr).2

theorem evolves_raiseFence {now : ℤ} {verdicts : DeletionVerdicts} {state : SessionDeletionState}
    (hok : db.raiseDeletionFence s now verdicts = .ok (db', state)) : Evolves db db' := by
  have hsame : db'.turnIngress = db.turnIngress ∧ db'.lastSequence = db.lastSequence ∧
      db'.turnIngressSequences = db.turnIngressSequences := by
    unfold raiseDeletionFence at hok
    split at hok
    · simp only [bind, Except.bind] at hok
      split at hok <;> cases hok
      exact ⟨rfl, rfl, rfl⟩
    · split at hok
      · dsimp only at hok
        split_ifs at hok <;> cases hok <;> exact ⟨rfl, rfl, rfl⟩
      · split at hok
        · cases hok
        · dsimp only at hok
          split at hok
          · cases hok
            split_ifs <;> exact ⟨rfl, rfl, rfl⟩
          · simp only [bind, Except.bind] at hok
            split at hok <;> cases hok
            split_ifs <;> exact ⟨rfl, rfl, rfl⟩
  exact evolves_of_same hsame.2.1 hsame.1 hsame.2.2

theorem evolves_beginDeletion {pending : Option PendingSettlement} {now : ℤ}
    {verdicts : DeletionVerdicts} {state : SessionDeletionState}
    (hok : db.beginSessionDeletion s pending now verdicts = .ok (db', state)) : Evolves db db' := by
  have hbegin : ∀ {d : TurnTables}, d.beginSessionDeletionInTransaction s now verdicts =
      .ok (db', state) → Evolves d db' := by
    intro d hok
    unfold beginSessionDeletionInTransaction at hok
    rcases hexp : d.recoverExpiredDeletionTurnInTransaction s now with e | d₁ <;>
      simp only [hexp, bind, Except.bind] at hok
    · cases hok
    · exact (evolves_expireForDeletion hexp).trans (evolves_raiseFence hok)
  unfold beginSessionDeletion at hok
  rcases pending with _ | pending
  · exact hbegin hok
  · exact (evolves_recoverPending pending now).trans (hbegin hok)

theorem evolves_deleteSessionData (hok : db.deleteSessionData s = .ok db') : Evolves db db' := by
  unfold deleteSessionData at hok
  dsimp only at hok
  split_ifs at hok <;> cases hok
  · exact Evolves.refl _
  · refine evolves_of_delete rfl (fun r hr => (List.mem_filter.1 hr).1) fun q hq => ?_
    have hq := List.mem_filter.1 hq
    refine ⟨hq.1, fun r hr hrq => List.mem_filter.2 ⟨hr, ?_⟩⟩
    -- a sequence left behind is of no Turn of the Session
    have hnot : q.turnId ∉ (db.turnIngress.rows.filter (·.sessionId == s)).map (·.turnId) := by
      simpa using hq.2
    simpa using fun hs => hnot (List.mem_map.2 ⟨r, List.mem_filter.2 ⟨hr, by simpa using hs⟩, hrq⟩)

theorem evolves_completeDeletion {isLeaseOwnerCurrent : String → Bool}
    (hok : db.completeSessionDeletion s isLeaseOwnerCurrent = .ok db') : Evolves db db' := by
  unfold completeSessionDeletion at hok
  split at hok
  · cases hok
    exact Evolves.refl _
  · split_ifs at hok
    split at hok <;> cases hok
    exact evolves_of_same rfl rfl rfl

theorem evolves_failLatest {now : ℤ} {turnId : Option String}
    (hok : db.failLatestAcceptedTurnInTransaction s now = .ok (db', turnId)) : Evolves db db' := by
  unfold failLatestAcceptedTurnInTransaction at hok
  split at hok
  · cases hok
    exact Evolves.refl _
  · dsimp only at hok
    split_ifs at hok
    cases hok
    refine evolves_finishTurns fun r _ hr => ?_
    exact beq_iff_eq.1 (Bool.and_eq_true_iff.1 hr).2

theorem evolves_recoverOrphaned {verdicts : RestartVerdicts} {now : ℤ}
    {result result' : TurnProcessRestartRecoveryResult} {lock : SessionLock}
    (hok : recoverOrphanedLock verdicts now (db, result) lock = .ok (db', result')) :
    Evolves db db' := by
  unfold recoverOrphanedLock at hok
  dsimp only at hok
  split_ifs at hok
  · cases hok
    exact Evolves.refl _
  · cases hok
    exact evolves_of_same rfl rfl rfl
  · rcases hrec : db.recoverProcessRestartLockInTransaction lock now with e | ⟨d, entry⟩ <;>
      simp only [hrec, bind, Except.bind] at hok <;> cases hok
    obtain ⟨d, t, hd, rfl⟩ := recoverRestartLock_cases hrec
    rcases hd with ⟨-, hfail⟩ | ⟨-, rfl⟩
    · exact (evolves_failLatest hfail).trans (evolves_of_same rfl rfl rfl)
    · exact evolves_of_same rfl rfl rfl

theorem evolves_recoverProcessRestart {verdicts : RestartVerdicts} {started now : ℤ}
    {result : TurnProcessRestartRecoveryResult}
    (hok : db.recoverProcessRestartInTransaction verdicts started now = .ok (db', result)) :
    Evolves db db' := by
  have hfold : ∀ (locks : List SessionLock) (d : TurnTables) (r : TurnProcessRestartRecoveryResult),
      locks.foldlM (recoverOrphanedLock verdicts now) (d, r) = .ok (db', result) →
        Evolves d db' := by
    intro locks
    induction locks with
    | nil =>
      intro d r hok
      cases hok
      exact Evolves.refl _
    | cons lock locks ih =>
      intro d r hok
      rw [List.foldlM_cons] at hok
      rcases hstep : recoverOrphanedLock verdicts now (d, r) lock with e | ⟨d', r'⟩ <;>
        simp only [hstep, bind, Except.bind] at hok
      · cases hok
      · exact (evolves_recoverOrphaned hstep).trans (ih d' r' hok)
  exact hfold _ _ _ hok

end TurnTables

end Kinetick
