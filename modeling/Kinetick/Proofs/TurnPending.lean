import Kinetick.Proofs.TurnFence

/-!
# The settlement to be retried

A settlement that threw stays recorded while its Turn is accepted under its lease, in every call
but the two that forget it too early. A Turn that is not held by a lease is never held by it again,
since a lease is drawn once, and an admission that is not blocked retries what is recorded.
-/

namespace Kinetick

variable {m : String → Ownership} {s turnId leaseId : String}

namespace Ownership

variable {o : Ownership}

theorem not_heldBy_settle (o : Ownership) (turnId leaseId : String) (now : ℤ) :
    ¬ (o.settle turnId leaseId now).HeldBy turnId leaseId := by
  unfold settle
  split_ifs with hheld
  · rcases o with _ | ⟨busyReason, _ | _, lease, row⟩ | ⟨deleting, lease⟩ | lease <;> exact id
  · exact hheld

theorem heldBy_of_settle {t l : String} {now : ℤ} (h : (o.settle t l now).HeldBy turnId leaseId) :
    o.HeldBy turnId leaseId := by
  unfold settle at h
  split_ifs at h
  · rcases o with _ | ⟨busyReason, _ | _, lease, row⟩ | ⟨deleting, lease⟩ | lease <;>
      exact h.elim
  · exact h

theorem heldBy_of_recoverExpired {now : ℤ} (h : (o.recoverExpired now).HeldBy turnId leaseId) :
    o.HeldBy turnId leaseId := by
  unfold recoverExpired at h
  split_ifs at h
  · exact h.elim
  · exact h

theorem heldBy_of_recovered {pending : Option PendingSettlement} {now : ℤ}
    (h : (o.recovered pending now).HeldBy turnId leaseId) : o.HeldBy turnId leaseId := by
  rcases pending with _ | pending
  · exact heldBy_of_recoverExpired h
  · exact heldBy_of_settle (heldBy_of_recoverExpired h)

/-- An admission's recoveries end the Turn a recorded settlement names. -/
theorem not_heldBy_recovered (o : Ownership) (pending : PendingSettlement) (now : ℤ) :
    ¬ (o.recovered (some pending) now).HeldBy pending.turnId pending.leaseId :=
  fun h => not_heldBy_settle o _ _ now (heldBy_of_recoverExpired h)

theorem heldBy_of_expireForDeletion {now : ℤ}
    (h : (o.expireForDeletion now).HeldBy turnId leaseId) : o.HeldBy turnId leaseId := by
  rcases o with _ | ⟨busyReason, _ | _, lease, row⟩ | ⟨_ | _, lease⟩ | lease <;>
    simp only [expireForDeletion] at h
  · exact h
  · split_ifs at h
    · exact h
    · exact h.elim
  · split_ifs at h
    · exact h
    · exact h.elim
  · exact h
  · split_ifs at h <;> exact h.elim
  · exact h

theorem heldBy_of_raiseFence {now : ℤ} {verdicts : DeletionVerdicts}
    (h : (o.raiseFence now verdicts).HeldBy turnId leaseId) : o.HeldBy turnId leaseId := by
  rcases o with _ | ⟨busyReason, deleting, lease, row⟩ | ⟨deleting, lease⟩ | lease <;>
    simp only [raiseFence] at h
  · exact h.elim
  · exact h
  · exact h.elim
  · split_ifs at h <;> exact h.elim

theorem heldBy_of_beginDeletion {pending : Option PendingSettlement} {now : ℤ}
    {verdicts : DeletionVerdicts} (h : (o.beginDeletion pending now verdicts).HeldBy turnId leaseId) :
    o.HeldBy turnId leaseId := by
  have h := heldBy_of_expireForDeletion (heldBy_of_raiseFence h)
  rcases pending with _ | pending
  · exact h
  · exact heldBy_of_settle h

/-- A deletion that begins ends the Turn a recorded settlement names. -/
theorem not_heldBy_beginDeletion (o : Ownership) (pending : PendingSettlement) (now : ℤ)
    (verdicts : DeletionVerdicts) :
    ¬ (o.beginDeletion (some pending) now verdicts).HeldBy pending.turnId pending.leaseId :=
  fun h => not_heldBy_settle o _ _ now (heldBy_of_expireForDeletion (heldBy_of_raiseFence h))

end Ownership

variable {leaseMs now : ℤ} {pending : Option PendingSettlement} {e : TurnEvent}
  {response : TurnResponse} {o o' : Ownership}

/-- Only an admission that draws the lease makes a Turn held by it. -/
theorem OwnerStep.heldBy (h : OwnerStep leaseMs pending now e response o o')
    (hlease : e.drawnLease ≠ some leaseId) (hheld : o'.HeldBy turnId leaseId) :
    o.HeldBy turnId leaseId := by
  cases h with
  | threw => exact hheld
  | admitBlocked => exact hheld
  | admitRefused => exact Ownership.heldBy_of_recovered hheld
  | admitted => exact absurd (congrArg some hheld.1) hlease
  | renew s l once =>
    have howner : ∀ lease : Lease, (lease.renew l now leaseMs).ownerId = lease.ownerId := by
      intro lease
      unfold Lease.renew
      split_ifs <;> rfl
    cases o with
    | turn busyReason deleting lease row => exact ⟨(howner lease).symm.trans hheld.1, hheld.2⟩
    | free => exact hheld
    | maintenance => exact hheld
    | deletion => exact hheld
  | settle => exact Ownership.heldBy_of_settle hheld
  | recoverExpired => exact Ownership.heldBy_of_recoverExpired hheld
  | restartKept => exact hheld
  | restarted => cases o <;> exact hheld.elim
  | revoke =>
    rcases o with _ | ⟨_ | _, _ | _, lease, row⟩ | ⟨deleting, lease⟩ | lease <;> try exact hheld
    simp only [Ownership.revoke] at hheld
    split_ifs at hheld
    · exact hheld.elim
    · exact hheld
  | maintenanceBlocked => exact hheld
  | maintenanceRefused => exact Ownership.heldBy_of_recoverExpired hheld
  | maintenanceAcquired => exact hheld.elim
  | renewMaintenance => cases o <;> exact hheld
  | releaseMaintenance =>
    rcases o with _ | _ | ⟨_ | _, lease⟩ | lease <;> try exact hheld
    all_goals
      simp only [Ownership.releaseMaintenance] at hheld
      split_ifs at hheld <;> exact hheld.elim
  | beginDeletion => exact Ownership.heldBy_of_beginDeletion hheld
  | deleteData => exact hheld
  | completeDeletion => exact hheld.elim
  | reserve => exact hheld
  | releaseReceipt => exact hheld
  | acknowledge _ hf =>
    cases o with
    | turn busyReason deleting lease row => exact ⟨hheld.1, (hf row).symm.trans hheld.2⟩
    | free => exact hheld
    | maintenance => exact hheld
    | deletion => exact hheld

namespace TurnRepository

variable {r : TurnRepository} {options : TurnRepositoryOptions} {p : PendingSettlement}

theorem transaction_pending {α : Type} (result : Except TurnError (TurnTables × α))
    (answer : α → TurnResponse) :
    (r.transaction result answer).1.pendingSettlements = r.pendingSettlements := by
  unfold transaction
  split <;> rfl

theorem pending_of_not_names (h : ¬ e.names s) :
    (r.step options e).1.pendingSettlements s = r.pendingSettlements s := by
  cases e with
  | setClock => rfl
  | admitTurn input verdicts =>
    have hne : s ≠ input.sessionId := fun heq => h (by simp [TurnEvent.names, heq])
    simp only [step, admitTurn]
    split
    · rfl
    · rw [forgetPending_pending, if_neg hne]
  | settle input thrown =>
    have hne : s ≠ input.sessionId := fun heq => h (by simp [TurnEvent.names, heq])
    simp only [step, settle]
    split
    · rw [recordPending_pending, if_neg hne]
    · split_ifs
      · rw [forgetPending_pending, if_neg hne]
      · rfl
  | beginSessionDeletion t verdicts =>
    have hne : s ≠ t := fun heq => h (by simp [TurnEvent.names, heq])
    simp only [step, beginSessionDeletion]
    split
    · rfl
    · rw [forgetPending_pending, if_neg hne]
  | deleteSessionData t =>
    have hne : s ≠ t := fun heq => h (by simp [TurnEvent.names, heq])
    simp only [step, deleteSessionData]
    split
    · rfl
    · rw [forgetPending_pending, if_neg hne]
  | _ => exact congrFun (transaction_pending _ _) s

/-- A recorded settlement stays recorded, or its Turn is not held by its lease any more. -/
theorem Moves.keeps {m' : String → Ownership} (h : Moves options r e m m') (hm : r.tables.Owned m)
    (hk : r.Keyed) (hp : r.pendingSettlements s = some p) (hlose : ¬ r.LosesRetry s e)
    (hlease : e.drawnLease ≠ some p.leaseId) :
    (r.step options e).1.pendingSettlements s = some p ∨
      ¬ (m' s).HeldBy p.turnId p.leaseId := by
  have hawaits : (m s).HeldBy p.turnId p.leaseId → r.AwaitsRetry s := fun hheld =>
    (awaitsRetry_iff hm hk).2 ⟨p, hp, hheld⟩
  by_cases hnames : e.names s
  swap
  · exact .inl ((pending_of_not_names hnames).trans hp)
  have hmove := h.moves.named hnames
  rw [hp] at hmove
  cases e with
  | admitTurn input verdicts =>
    have hs : input.sessionId = s := beq_iff_eq.1 hnames
    simp only [step, admitTurn] at hmove ⊢
    split at hmove <;> simp only []
    · exact .inl hp
    · refine .inr fun hheld => ?_
      generalize m' s = o' at hmove hheld
      cases hmove with
      | admitBlocked _ hblock => exact hlose ⟨hawaits hheld, hs, by rw [hblock]; rfl⟩
      | admitRefused => exact Ownership.not_heldBy_recovered _ p _ hheld
      | admitted => exact hlease (congrArg some hheld.1)
  | settle input thrown =>
    obtain rfl : s = input.sessionId := (beq_iff_eq.1 hnames).symm
    simp only [step, settle] at hmove ⊢
    split at hmove
    · rename_i error hsettle
      rw [recordPending_pending, if_pos rfl]
      by_cases hsame : r.pendingSettlements input.sessionId =
          some ⟨input.sessionId, input.turnId, input.leaseId⟩
      · exact .inl (hsame.symm.trans hp)
      · refine .inr fun hheld => ?_
        generalize m' input.sessionId = o' at hmove hheld
        cases hmove
        refine hlose ⟨hawaits hheld, rfl, ?_, hsame⟩
        by_contra hthrown
        rw [if_neg hthrown] at hsettle
        obtain ⟨x, hx⟩ := hm.settle_ok input r.nowMs
        rw [hx] at hsettle
        cases hsettle
    · by_cases hsame : r.pendingSettlements input.sessionId =
          some ⟨input.sessionId, input.turnId, input.leaseId⟩
      · refine .inr fun hheld => ?_
        have hpin := Option.some.inj (hp.symm.trans hsame)
        generalize m' input.sessionId = o' at hmove hheld
        cases hmove
        rw [hpin] at hheld
        exact Ownership.not_heldBy_settle _ _ _ _ hheld
      · rw [if_neg hsame]
        exact .inl hp
  | beginSessionDeletion t verdicts =>
    simp only [step, beginSessionDeletion] at hmove ⊢
    split at hmove <;> simp only []
    · exact .inl hp
    · refine .inr fun hheld => ?_
      generalize m' s = o' at hmove hheld
      cases hmove
      exact Ownership.not_heldBy_beginDeletion _ p _ _ hheld
  | deleteSessionData t =>
    simp only [step, deleteSessionData] at hmove ⊢
    split at hmove <;> simp only []
    · exact .inl hp
    · refine .inr fun hheld => ?_
      generalize m' s = o' at hmove hheld
      cases hmove with
      | deleteData _ hempty =>
        obtain ⟨busyReason, deleting, lease, row, ho, -, -⟩ := TurnTables.HeldBy.turn hheld
        rw [ho] at hempty
        cases hempty
  | setClock => exact .inl hp
  | _ => exact .inl ((congrFun (transaction_pending _ _) s).trans hp)

/-- The settlement is recorded, or its Turn is not held by its lease. -/
def Kept (s : String) (p : PendingSettlement) (r : TurnRepository) : Prop :=
  ∃ m, r.tables.Owned m ∧ r.Keyed ∧
    (r.pendingSettlements s = some p ∨ ¬ (m s).HeldBy p.turnId p.leaseId)

theorem Kept.step (h : Kept s p r) (hlose : ¬ r.LosesRetry s e)
    (hlease : e.drawnLease ≠ some p.leaseId) : Kept s p (r.step options e).1 := by
  obtain ⟨m, hm, hk, hkept⟩ := h
  obtain ⟨m', hmoves⟩ := step_moves options hm hk e
  refine ⟨m', hmoves.owned, hmoves.keyed, ?_⟩
  rcases hkept with hp | hheld
  · exact hmoves.keeps hm hk hp hlose hlease
  · refine .inr fun hheld' => hheld ?_
    have hmove := hmoves.moves s
    split_ifs at hmove
    · exact hmove.heldBy hlease hheld'
    · exact hmove ▸ hheld'

theorem pending_of_thrown {input : SettleTurnInput} {thrown : Bool} {error : TurnError}
    (h : (r.step options (.settle input thrown)).2 = .threw error) :
    (r.step options (.settle input thrown)).1.pendingSettlements input.sessionId =
      some ⟨input.sessionId, input.turnId, input.leaseId⟩ := by
  simp only [step, settle] at h ⊢
  split at h
  · rw [recordPending_pending, if_pos rfl]
  · cases h

/-- An admission that is not blocked finds the lock without the Turn of the recorded settlement. -/
theorem Kept.recovered (h : Kept s p r) (hs : p.sessionId = s) (killProbe : ℕ → Option Bool) :
    ¬ (r.tables.recoverAdmissionTerminalFacts s (r.pendingSettlements s) killProbe
      r.nowMs).1.Holds p := by
  obtain ⟨m, hm, hk, hkept⟩ := h
  rw [holds_iff (hm.recoverAdmission _ (hk s) killProbe r.nowMs), hs, Function.update_self]
  rcases hkept with hp | hheld
  · rw [hp]
    exact Ownership.not_heldBy_recovered _ p _
  · exact fun h => hheld (Ownership.heldBy_of_recovered h)

end TurnRepository

/-- A settlement that threw is not forgotten in a run none of whose calls loses it. -/
theorem settlement_kept (options : TurnRepositoryOptions) :
    SettlementKept options fun r s e => ¬ r.LosesRetry s e := by
  intro r hr input thrown error hthrew pending thrownAt es hes r'
  have hthrown : TurnRepository.Kept input.sessionId pending thrownAt := by
    obtain ⟨⟨m, hm⟩, hk⟩ := TurnRepository.owned_of_reachable (hr.step (.settle input thrown))
    exact ⟨m, hm, hk, .inl (TurnRepository.pending_of_thrown hthrew)⟩
  have hkept : TurnRepository.Kept input.sessionId pending r' :=
    (turnMachine options).after_invariant (fun _ _ h hg => h.step hg.1 hg.2) hthrown hes
  refine ⟨?_, hkept.recovered rfl⟩
  obtain ⟨m, hm, -, hp⟩ := hkept
  exact hp.imp_right fun hheld => fun hholds => hheld ((TurnRepository.holds_iff hm pending).1 hholds)

/-- An admission that Session admission blocks forgets the settlement it did not retry. -/
theorem settlement_not_kept : ¬ SettlementKept ⟨none⟩ fun _ _ _ => True := by
  intro h
  have hkept := (h _ ⟨[.admitTurn (plainTurn "s" "t") (.granting "lease")], rfl⟩
    ⟨"s", "t", "lease", .completed⟩ true .thrown rfl
    [.admitTurn (plainTurn "s" "u") { AdmitVerdicts.granting "other" with
      sessionRejection := some .sessionMutating }]
    ⟨⟨trivial, by decide⟩, trivial⟩).1
  rcases hkept with hp | hholds
  · exact absurd hp (by decide)
  · exact hholds ⟨⟨_, rfl, rfl⟩, _, List.mem_singleton_self _, rfl⟩

/-- A settlement that threw is still recorded when the clock has moved on. -/
theorem settlement_kept_later :
    let r := (turnMachine ⟨none⟩).after .initial [.admitTurn (plainTurn "s" "t") (.granting "lease")]
    let r' := (turnMachine ⟨none⟩).after
      (r.step ⟨none⟩ (.settle ⟨"s", "t", "lease", .completed⟩ true)).1 [.setClock 5]
    ¬ (r'.tables.recoverAdmissionTerminalFacts "s" (r'.pendingSettlements "s") (fun _ => none)
      r'.nowMs).1.Holds ⟨"s", "t", "lease"⟩ :=
  (settlement_kept ⟨none⟩ _ ⟨_, rfl⟩ ⟨"s", "t", "lease", .completed⟩ true .thrown rfl [.setClock 5]
    ⟨⟨fun h => h.2, by decide⟩, trivial⟩).2 _

end Kinetick
