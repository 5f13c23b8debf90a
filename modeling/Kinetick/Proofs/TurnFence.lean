import Kinetick.Turn.Guarantees
import Kinetick.Proofs.TurnInvariant

/-!
# The deletion fence

A Session owned by a deletion stays so in every call that does not lower its fence: the owner is
marked, the Turn or the maintenance lease under the mark ends in the fence, and the fence goes
only with the deletion it belongs to or a restart.
-/

namespace Kinetick

variable {m : String → Ownership} {s : String}

namespace Ownership

variable {o o' : Ownership} {leaseMs now : ℤ} {pending : Option PendingSettlement}

/-- A deletion that holds the Session by itself has no end. -/
def Endless (o : Ownership) : Prop :=
  ∀ lease, o = deletion lease → lease.expiresAtMs = deletionFenceExpiresAtMs

/-- The calls that take the fence of an owner down or give it an end. -/
def Lowers (pending : Option PendingSettlement) (now : ℤ) (o : Ownership) (e : TurnEvent) : Prop :=
  o.isDeleting ∧ match e with
    | .recoverExpired _ => o.recoverExpired now = free
    | .tryAcquireSessionMaintenance _ rejection _ =>
      rejection = none ∧ o.recoverExpired now = free
    | .admitTurn input verdicts =>
      TurnTables.blocksAdmission verdicts.sessionRejection input.bypassSessionMutation = none ∧
        o.recovered pending now = free
    | .renew _ leaseId =>
      ∃ lease, o = deletion lease ∧ lease.ownerId = leaseId ∧ now < lease.expiresAtMs
    | _ => False

theorem endless_fence (ownerId : String) (now : ℤ) : (deletion (.fence ownerId now)).Endless := by
  rintro _ ⟨⟩
  rfl

theorem endless_free : (free : Ownership).Endless := by
  rintro _ ⟨⟩

theorem endless_turn (busyReason : TurnBusyReason) (deleting : Bool) (lease : Lease)
    (row : TurnIngress) : (turn busyReason deleting lease row).Endless := by
  rintro _ ⟨⟩

theorem endless_maintenance (deleting : Bool) (lease : Lease) :
    (maintenance deleting lease).Endless := by
  rintro _ ⟨⟩

theorem Endless.finish (h : o.Endless) (now : ℤ) : (o.finish now).Endless := by
  rcases o with _ | ⟨busyReason, _ | _, lease, row⟩ | ⟨deleting, lease⟩ | lease
  · exact h
  · exact endless_free
  · exact endless_fence _ _
  · exact h
  · exact h

theorem Endless.settle (h : o.Endless) (turnId leaseId : String) (now : ℤ) :
    (o.settle turnId leaseId now).Endless := by
  unfold Ownership.settle
  split_ifs
  · exact h.finish now
  · exact h

theorem Endless.recoverExpired (h : o.Endless) (now : ℤ) : (o.recoverExpired now).Endless := by
  unfold Ownership.recoverExpired
  split_ifs
  · exact endless_free
  · exact h

theorem Endless.recovered (h : o.Endless) (pending : Option PendingSettlement) (now : ℤ) :
    (o.recovered pending now).Endless := by
  rcases pending with _ | pending
  · exact h.recoverExpired now
  · exact (h.settle pending.turnId pending.leaseId now).recoverExpired now

theorem Endless.expireForDeletion (h : o.Endless) (now : ℤ) :
    (o.expireForDeletion now).Endless := by
  rcases o with _ | ⟨busyReason, deleting, lease, row⟩ | ⟨_ | _, lease⟩ | lease
  · exact h
  · simp only [Ownership.expireForDeletion]
    split_ifs
    · exact h
    · exact h.finish now
  · exact h
  · simp only [Ownership.expireForDeletion]
    split_ifs
    · exact h
    · exact endless_fence _ _
  · exact h

/-- Beginning a deletion raises the fence on any owner. -/
theorem Endless.raiseFence (h : o.Endless) (now : ℤ) (verdicts : DeletionVerdicts) :
    (o.raiseFence now verdicts).isDeleting ∧ (o.raiseFence now verdicts).Endless := by
  rcases o with _ | ⟨busyReason, deleting, lease, row⟩ | ⟨deleting, lease⟩ | lease
  · exact ⟨rfl, endless_fence _ _⟩
  · exact ⟨rfl, endless_turn _ _ _ _⟩
  · exact ⟨rfl, endless_maintenance _ _⟩
  · simp only [Ownership.raiseFence]
    split_ifs
    · exact ⟨rfl, h⟩
    · exact ⟨rfl, endless_fence _ _⟩

theorem Endless.beginDeletion (h : o.Endless) (pending : Option PendingSettlement) (now : ℤ)
    (verdicts : DeletionVerdicts) : (o.beginDeletion pending now verdicts).isDeleting ∧
      (o.beginDeletion pending now verdicts).Endless := by
  rcases pending with _ | pending
  · exact (h.expireForDeletion now).raiseFence now verdicts
  · exact ((h.settle pending.turnId pending.leaseId now).expireForDeletion now).raiseFence now
      verdicts

theorem isDeleting_settle (h : o.isDeleting) (turnId leaseId : String) (now : ℤ) :
    (o.settle turnId leaseId now).isDeleting := by
  unfold Ownership.settle
  split_ifs
  · rcases o with _ | ⟨busyReason, _ | _, lease, row⟩ | ⟨deleting, lease⟩ | lease
    · exact h
    · exact nomatch h
    · rfl
    · exact h
    · exact h
  · exact h

theorem isDeleting_recoverExpired (h : o.isDeleting) (hfree : o.recoverExpired now ≠ free) :
    (o.recoverExpired now).isDeleting := by
  unfold Ownership.recoverExpired at hfree ⊢
  split_ifs at hfree ⊢
  · exact absurd rfl hfree
  · exact h

theorem isDeleting_recovered (h : o.isDeleting) (hfree : o.recovered pending now ≠ free) :
    (o.recovered pending now).isDeleting := by
  rcases pending with _ | pending
  · exact isDeleting_recoverExpired h hfree
  · exact isDeleting_recoverExpired (isDeleting_settle h _ _ _) hfree

end Ownership

variable {leaseMs now : ℤ} {pending : Option PendingSettlement} {e : TurnEvent}
  {response : TurnResponse} {o o' : Ownership}

/-- No call but a late renewal gives a fence an end. -/
theorem OwnerStep.endless (h : OwnerStep leaseMs pending now e response o o') (ho : o.Endless)
    (hlow : ¬ o.Lowers pending now e) : o'.Endless := by
  cases h with
  | threw => exact ho
  | admitBlocked => exact ho
  | admitRefused => exact ho.recovered pending now
  | admitted => exact Ownership.endless_turn _ _ _ _
  | renew s leaseId once =>
    rcases o with _ | ⟨busyReason, deleting, lease, row⟩ | ⟨deleting, lease⟩ | lease
    · exact ho
    · exact Ownership.endless_turn _ _ _ _
    · exact Ownership.endless_maintenance _ _
    · have hkeep : lease.renew leaseId now leaseMs = lease :=
        if_neg fun hrenew => hlow ⟨rfl, lease, rfl, hrenew⟩
      rw [Ownership.mapLease, hkeep]
      exact ho
  | settle input => exact ho.settle _ _ _
  | recoverExpired => exact ho.recoverExpired now
  | restartKept => exact ho
  | restarted s =>
    cases o with
    | deletion lease => exact Ownership.endless_fence _ _
    | free => exact Ownership.endless_free
    | turn => exact Ownership.endless_free
    | maintenance => exact Ownership.endless_free
  | revoke s turnId leaseId =>
    rcases o with _ | ⟨_ | _, _ | _, lease, row⟩ | ⟨deleting, lease⟩ | lease <;> try exact ho
    simp only [Ownership.revoke]
    split_ifs
    all_goals first | exact Ownership.endless_free | exact Ownership.endless_turn _ _ _ _
  | maintenanceBlocked => exact ho
  | maintenanceRefused => exact ho.recoverExpired now
  | maintenanceAcquired => exact Ownership.endless_maintenance _ _
  | renewMaintenance =>
    cases o with
    | maintenance => exact Ownership.endless_maintenance _ _
    | free => exact ho
    | turn => exact ho
    | deletion => exact ho
  | releaseMaintenance s leaseId =>
    rcases o with _ | _ | ⟨deleting, lease⟩ | lease <;> try exact ho
    simp only [Ownership.releaseMaintenance]
    split_ifs
    · exact ho
    · exact Ownership.endless_fence _ _
    · exact Ownership.endless_free
  | beginDeletion s verdicts => exact (ho.beginDeletion pending now verdicts).2
  | deleteData => exact ho
  | completeDeletion => exact Ownership.endless_free
  | reserve => exact ho
  | releaseReceipt => exact ho
  | acknowledge =>
    cases o with
    | turn => exact Ownership.endless_turn _ _ _ _
    | free => exact ho
    | maintenance => exact ho
    | deletion => exact ho

/-- A Session owned by a deletion stays so, and is taken by nobody, unless its fence is lowered or
its deletion ends. -/
theorem OwnerStep.isDeleting (h : OwnerStep leaseMs pending now e response o o')
    (ho : o.isDeleting) (hlow : ¬ o.Lowers pending now e)
    (hs : e.names s) (hend : e.endsDeletion s response = false) :
    o'.isDeleting ∧ e.takes s response = false := by
  cases h with
  | threw => exact ⟨ho, by cases e <;> rfl⟩
  | admitBlocked _ hblock hresult => exact ⟨ho, by simp [TurnEvent.takes, hresult]⟩
  | admitRefused _ hblock hresult =>
    exact ⟨Ownership.isDeleting_recovered ho fun hfree => hlow ⟨ho, hblock, hfree⟩,
      by simp [TurnEvent.takes, hresult]⟩
  | admitted _ hblock hresult hfree => exact absurd ⟨ho, hblock, hfree⟩ hlow
  | renew => exact ⟨by cases o <;> exact ho, rfl⟩
  | settle => exact ⟨Ownership.isDeleting_settle ho _ _ _, rfl⟩
  | recoverExpired => exact ⟨Ownership.isDeleting_recoverExpired ho fun hfree => hlow ⟨ho, hfree⟩, rfl⟩
  | restartKept => exact nomatch hend
  | restarted => exact nomatch hend
  | revoke =>
    rcases o with _ | ⟨_ | _, _ | _, lease, row⟩ | ⟨deleting, lease⟩ | lease <;>
      first | exact ⟨ho, rfl⟩ | exact nomatch ho
  | maintenanceBlocked => exact ⟨ho, by simp [TurnEvent.takes]⟩
  | maintenanceRefused =>
    exact ⟨Ownership.isDeleting_recoverExpired ho fun hfree => hlow ⟨ho, rfl, hfree⟩,
      by simp [TurnEvent.takes]⟩
  | maintenanceAcquired _ hfree => exact absurd ⟨ho, rfl, hfree⟩ hlow
  | renewMaintenance => exact ⟨by cases o <;> exact ho, rfl⟩
  | releaseMaintenance =>
    refine ⟨?_, rfl⟩
    rcases o with _ | _ | ⟨_ | _, lease⟩ | lease
    · exact ho
    · exact ho
    · exact nomatch ho
    · simp only [Ownership.releaseMaintenance]
      split_ifs <;> rfl
    · exact ho
  | beginDeletion s verdicts =>
    refine ⟨?_, rfl⟩
    unfold Ownership.beginDeletion
    cases Ownership.expireForDeletion now _ with
    | deletion lease =>
      simp only [Ownership.raiseFence]
      split_ifs <;> rfl
    | free => rfl
    | turn => rfl
    | maintenance => rfl
  | deleteData => exact ⟨ho, rfl⟩
  | completeDeletion => exact absurd hs (by simpa [TurnEvent.endsDeletion, TurnEvent.names] using hend)
  | reserve => exact ⟨ho, rfl⟩
  | releaseReceipt => exact ⟨ho, rfl⟩
  | acknowledge => exact ⟨by cases o <;> exact ho, rfl⟩

namespace TurnRepository

variable {r : TurnRepository} {options : TurnRepositoryOptions}

theorem fenceUp_iff (h : r.tables.Owned m) :
    r.FenceUp s ↔ (m s).isDeleting ∧ (m s).Endless := by
  unfold FenceUp
  rw [(h s).1]
  rcases m s with _ | ⟨_ | _, _ | _, lease, row⟩ | ⟨_ | _, lease⟩ | lease <;>
    simp [Ownership.lock, Lease.lock, Ownership.isDeleting, Ownership.Endless,
      TurnBusyReason.lockKind, TurnBusyReason.ownerKind, OwnerKind.isDeletion]

theorem deleting_iff (h : r.tables.Owned m) : r.Deleting s ↔ (m s).isDeleting := by
  unfold Deleting
  rw [(h s).1]
  rcases m s with _ | ⟨_ | _, _ | _, lease, row⟩ | ⟨_ | _, lease⟩ | lease <;>
    simp [Ownership.lock, Lease.lock, Ownership.isDeleting, TurnBusyReason.lockKind,
      TurnBusyReason.ownerKind, OwnerKind.isDeletion]

theorem fenceExpired_iff (h : r.tables.Owned m) :
    r.FenceExpired s ↔ (m s).isDeleting ∧ (m s).recoverExpired r.nowMs = .free := by
  unfold FenceExpired
  rw [(h s).1]
  rcases m s with _ | ⟨_ | _, _ | _, lease, row⟩ | ⟨_ | _, lease⟩ | lease <;>
    simp [Ownership.lock, Lease.lock, Ownership.isDeleting, Ownership.recoverExpired,
      Ownership.lease?, TurnBusyReason.lockKind, TurnBusyReason.ownerKind, OwnerKind.isDeletion]

theorem holds_iff {db : TurnTables} (h : db.Owned m) (pending : PendingSettlement) :
    db.Holds pending ↔ (m pending.sessionId).HeldBy pending.turnId pending.leaseId := by
  unfold TurnTables.Holds
  rw [(h _).1, (h _).2]
  rcases m pending.sessionId with _ | ⟨busyReason, deleting, lease, row⟩ | ⟨deleting, lease⟩ |
    lease <;> simp [Ownership.lock, Lease.lock, Ownership.accepted, Ownership.HeldBy]

theorem awaitsRetry_iff (h : r.tables.Owned m) (hk : r.Keyed) :
    r.AwaitsRetry s ↔ ∃ pending, r.pendingSettlements s = some pending ∧
      (m s).HeldBy pending.turnId pending.leaseId := by
  refine exists_congr fun pending => and_congr_right fun hp => ?_
  rw [holds_iff h, hk s pending hp]

/-- A recorded settlement that names the owner promotes the fence before anything expires. -/
theorem recovered_eq_free_iff {o : Ownership} (ho : o.isDeleting)
    {pending : Option PendingSettlement} {now : ℤ} :
    o.recovered pending now = .free ↔
      ((∃ p, pending = some p ∧ o.HeldBy p.turnId p.leaseId) ∧ deletionFenceExpiresAtMs ≤ now) ∨
      (¬ (∃ p, pending = some p ∧ o.HeldBy p.turnId p.leaseId) ∧
        o.recoverExpired now = .free) := by
  rcases pending with _ | pending
  · simp [Ownership.recovered]
  · by_cases hheld : o.HeldBy pending.turnId pending.leaseId
    · obtain ⟨busyReason, deleting, lease, row, rfl, -, -⟩ := TurnTables.HeldBy.turn hheld
      obtain rfl : deleting = true := ho
      simp [Ownership.recovered, Ownership.settle, hheld, Ownership.finish,
        Ownership.recoverExpired, Ownership.lease?, Lease.fence]
    · simp [Ownership.recovered, Ownership.settle, hheld]

theorem lowersFence_iff (h : r.tables.Owned m) (hk : r.Keyed) (e : TurnEvent) :
    r.LowersFence s e ↔
      e.names s ∧ (m s).Lowers (r.pendingSettlements s) r.nowMs e := by
  unfold Ownership.Lowers
  cases e with
  | recoverExpired t =>
    simp only [LowersFence, TurnEvent.names, beq_iff_eq, fenceExpired_iff h]
  | tryAcquireSessionMaintenance t rejection leaseId =>
    simp only [LowersFence, TurnEvent.names, beq_iff_eq, fenceExpired_iff h]
    tauto
  | admitTurn input verdicts =>
    simp only [LowersFence, TurnEvent.names, beq_iff_eq, deleting_iff h, fenceExpired_iff h,
      awaitsRetry_iff h hk]
    by_cases hdeleting : (m s).isDeleting
    · rw [recovered_eq_free_iff hdeleting]
      simp [hdeleting]
    · simp [hdeleting]
  | renew t leaseId =>
    simp only [LowersFence, TurnEvent.names, beq_iff_eq, (h s).1]
    rcases m s with _ | ⟨_ | _, _ | _, lease, row⟩ | ⟨_ | _, lease⟩ | lease <;>
      simp [Ownership.lock, Lease.lock, Ownership.isDeleting, TurnBusyReason.lockKind,
        TurnBusyReason.ownerKind]
  | _ => simp [LowersFence]

/-- A deletion that holds `s` by itself has no end. -/
def FenceEndless (s : String) (r : TurnRepository) : Prop :=
  ∃ m, r.tables.Owned m ∧ r.Keyed ∧ (m s).Endless

theorem FenceEndless.step (h : FenceEndless s r) {e : TurnEvent} (hlow : ¬ r.LowersFence s e) :
    FenceEndless s (r.step options e).1 := by
  obtain ⟨m, hm, hk, hs⟩ := h
  obtain ⟨m', hmoves⟩ := step_moves options hm hk e
  refine ⟨m', hmoves.owned, hmoves.keyed, ?_⟩
  have hmove := hmoves.moves s
  split_ifs at hmove with hnames
  · exact hmove.endless hs fun h => hlow ((lowersFence_iff hm hk e).2 ⟨hnames, h⟩)
  · rw [hmove]
    exact hs

theorem takes_of_not_names {e : TurnEvent} {response : TurnResponse} (h : ¬ e.names s) :
    e.takes s response = false := by
  cases e <;> cases response <;> try rfl
  all_goals
    simp only [TurnEvent.names, Bool.not_eq_true] at h
    simp [TurnEvent.takes, h]

/-- A call that neither lowers the fence nor ends the deletion keeps the fence up, and its answer
does not take the Session. -/
theorem FenceUp.step (hr : FenceEndless s r) (h : r.FenceUp s) {e : TurnEvent}
    (hlow : ¬ r.LowersFence s e) (hend : e.endsDeletion s (r.step options e).2 = false) :
    (r.step options e).1.FenceUp s ∧ e.takes s (r.step options e).2 = false := by
  obtain ⟨m, hm, hk, -⟩ := hr
  obtain ⟨hdeleting, hs⟩ := (fenceUp_iff hm).1 h
  obtain ⟨m', hmoves⟩ := step_moves options hm hk e
  rw [fenceUp_iff hmoves.owned]
  have hmove := hmoves.moves s
  split_ifs at hmove with hnames
  · have hlow' : ¬ (m s).Lowers (r.pendingSettlements s) r.nowMs e :=
      fun h => hlow ((lowersFence_iff hm hk e).2 ⟨hnames, h⟩)
    obtain ⟨hdeleting', htakes⟩ := hmove.isDeleting hdeleting hlow' hnames hend
    exact ⟨⟨hdeleting', hmove.endless hs hlow'⟩, htakes⟩
  · rw [hmove]
    exact ⟨⟨hdeleting, hs⟩, takes_of_not_names hnames⟩

/-- A deletion that has begun has its fence up. -/
theorem fenceUp_begin (hr : FenceEndless s r) {verdicts : DeletionVerdicts}
    {state : SessionDeletionState}
    (hbegun : (r.step options (.beginSessionDeletion s verdicts)).2 = .deleting state) :
    (r.step options (.beginSessionDeletion s verdicts)).1.FenceUp s := by
  obtain ⟨m, hm, hk, hs⟩ := hr
  obtain ⟨m', hmoves⟩ := step_moves options hm hk (.beginSessionDeletion s verdicts)
  rw [fenceUp_iff hmoves.owned]
  have hmove := hmoves.moves.named (beq_self_eq_true s)
  rw [hbegun] at hmove
  generalize m' s = o' at hmove
  cases hmove
  exact hs.beginDeletion _ _ _

end TurnRepository

/-- The fence of a deletion is sticky in every run none of whose calls lowers it. -/
theorem fence_sticky (options : TurnRepositoryOptions) :
    FenceSticky options fun r s e => ¬ r.LowersFence s e := by
  intro s before verdicts state es r begun hbefore hbegun hes
  have hinitial : TurnRepository.FenceEndless s .initial :=
    ⟨_, TurnRepository.initial_owned, TurnRepository.initial_keyed,
      Ownership.endless_free⟩
  have hr : TurnRepository.FenceEndless s r :=
    (turnMachine options).after_invariant (fun _ _ h hlow => h.step hlow) hinitial hbefore
  have hlow : ¬ r.LowersFence s (.beginSessionDeletion s verdicts) := id
  have hup : TurnRepository.FenceEndless s begun.1 ∧ begun.1.FenceUp s :=
    ⟨hr.step hlow, TurnRepository.fenceUp_begin hr hbegun⟩
  have hstep : ∀ r e, TurnRepository.FenceEndless s r ∧ r.FenceUp s →
      (¬ r.LowersFence s e ∧ e.endsDeletion s (r.step options e).2 = false) →
      (TurnRepository.FenceEndless s (r.step options e).1 ∧ (r.step options e).1.FenceUp s) ∧
        r.FenceUp s ∧ e.takes s (r.step options e).2 = false := by
    rintro r e ⟨hend, hup⟩ ⟨hlow, hends⟩
    obtain ⟨hup', htakes⟩ := hup.step hend hlow hends
    exact ⟨⟨hend.step hlow, hup'⟩, hup, htakes⟩
  exact ⟨((turnMachine options).after_invariant (fun r e h hg => (hstep r e h hg).1) hup hes).2,
    Machine.Along.of_invariant hstep hup hes⟩

/-- The lease of a Turn that ends while its Session waits to be deleted takes the fence along. -/
theorem fence_not_sticky : ¬ FenceSticky ⟨none⟩ fun _ _ e => e.sessionAdmits := by
  intro h
  have htaken := (h "s" [.admitTurn (plainTurn "s" "t") (.granting "lease")] (.current "deletion")
    (.active "t") [.setClock 1800000, .admitTurn (plainTurn "s" "u") (.granting "other")]
    ⟨rfl, trivial⟩ rfl ⟨⟨rfl, rfl⟩, ⟨rfl, rfl⟩, trivial⟩).2.2.1.2
  exact absurd htaken (by decide)

/-- The settlement of a Turn whose Session waits to be deleted promotes the fence. -/
theorem fence_sticky_promoted :
    ((turnMachine ⟨none⟩).after (((turnMachine ⟨none⟩).after .initial
      [.admitTurn (plainTurn "s" "t") (.granting "lease")]).step ⟨none⟩
        (.beginSessionDeletion "s" (.current "deletion"))).1
          [.settle ⟨"s", "t", "lease", .completed⟩ false]).FenceUp "s" := by
  have hadmission : ¬ TurnRepository.initial.LowersFence "s"
      (.admitTurn (plainTurn "s" "t") (.granting "lease")) := by
    rintro ⟨-, -, ⟨lock, hl, -⟩, -⟩
    cases hl
  exact (fence_sticky ⟨none⟩ "s" [.admitTurn (plainTurn "s" "t") (.granting "lease")]
    (.current "deletion") (.active "t") [.settle ⟨"s", "t", "lease", .completed⟩ false]
    ⟨hadmission, trivial⟩ rfl ⟨⟨id, rfl⟩, trivial⟩).1

end Kinetick
