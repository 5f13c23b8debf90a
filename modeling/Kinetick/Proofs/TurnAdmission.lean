import Kinetick.Proofs.TurnFence

/-!
# Admitting again

The recoveries of an admission fail accepted rows of its Session and change nothing else a lookup
reads, so a Turn admitted before is found again and answered with its receipt. A Turn that is not
found under any of its three ids takes keys no row holds.
-/

namespace Kinetick

/-- The rows differ in how their Turn ended only. -/
def SameReceipt (a b : TurnIngress) : Prop :=
  b = { a with status := b.status, completedAtMs := b.completedAtMs }

theorem SameReceipt.trans {a b c : TurnIngress} (h : SameReceipt a b) (h' : SameReceipt b c) :
    SameReceipt a c := by
  unfold SameReceipt at *
  rw [h', h]

namespace TurnTables

variable {db db' : TurnTables} {m : String → Ownership} {s : String}

/-- The tables after recoveries of the Session: its accepted rows may have failed. -/
structure Recovers (s : String) (db db' : TurnTables) : Prop where
  sequences : db'.turnIngressSequences = db.turnIngressSequences
  last : db'.lastSequence = db.lastSequence
  requests : db'.turnIngressClientRequests = db.turnIngressClientRequests
  rows : ∃ f : TurnIngress → TurnIngress, db'.turnIngress.rows = db.turnIngress.rows.map f ∧
    (∀ r, SameReceipt r (f r)) ∧ ∀ r ∈ db.turnIngress.rows, r ∉ db.acceptedTurns s → f r = r

theorem Recovers.refl (s : String) (db : TurnTables) : Recovers s db db :=
  ⟨rfl, rfl, rfl, id, (List.map_id _).symm, fun _ => rfl, fun _ _ _ => rfl⟩

theorem Recovers.trans {a b c : TurnTables} (h : Recovers s a b) (h' : Recovers s b c) :
    Recovers s a c := by
  obtain ⟨f, hf, hsame, hkeep⟩ := h.rows
  obtain ⟨g, hg, hsame', hkeep'⟩ := h'.rows
  refine ⟨h'.sequences.trans h.sequences, h'.last.trans h.last, h'.requests.trans h.requests,
    g ∘ f, by rw [hg, hf, List.map_map], fun r => (hsame r).trans (hsame' _), fun r hr hno => ?_⟩
  have hfr := hkeep r hr hno
  rw [Function.comp_apply, hfr]
  refine hkeep' r ?_ fun hacc => hno (mem_acceptedTurns.2 ⟨hr, (mem_acceptedTurns.1 hacc).2⟩)
  rw [hf]
  exact List.mem_map.2 ⟨r, hr, hfr⟩

theorem recovers_of_locks (hrows : db'.turnIngress = db.turnIngress)
    (hsequences : db'.turnIngressSequences = db.turnIngressSequences)
    (hlast : db'.lastSequence = db.lastSequence)
    (hrequests : db'.turnIngressClientRequests = db.turnIngressClientRequests) :
    Recovers s db db' :=
  ⟨hsequences, hlast, hrequests, id, by rw [hrows, List.map_id], fun _ => rfl, fun _ _ _ => rfl⟩

theorem recovers_finishTurns {p : TurnIngress → Bool} {status : TurnStatus} {now : ℤ}
    (hp : ∀ r ∈ db.turnIngress.rows, p r → r ∈ db.acceptedTurns s) :
    Recovers s db (db.finishTurns p status now).1 := by
  refine ⟨rfl, rfl, rfl, _, rfl, fun r => ?_, fun r hr hno => if_neg fun h => hno (hp r hr h)⟩
  dsimp only
  split_ifs <;> rfl

theorem recovers_releaseOrPromote {leaseId : String} {ownerKind : OwnerKind} {now : ℤ} :
    Recovers s db (db.releaseOrPromoteDeletionFence s leaseId ownerKind now).1 := by
  unfold releaseOrPromoteDeletionFence
  split_ifs <;> exact recovers_of_locks rfl rfl rfl rfl

theorem recovers_recoverPending (db : TurnTables) (pending : PendingSettlement) (now : ℤ) :
    Recovers pending.sessionId db (db.recoverPendingSettlementInTransaction pending now).1 := by
  rcases recoverPending_cases db pending now with ⟨heq, -⟩ | ⟨lock, -, -, -, heq⟩ <;> rw [heq]
  · exact Recovers.refl _ _
  · refine (recovers_finishTurns fun r hr hp => mem_acceptedTurns.2 ⟨hr, ?_⟩).trans
      recovers_releaseOrPromote
    simp only [Bool.and_eq_true, beq_iff_eq] at hp
    exact ⟨hp.1.1, hp.2⟩

theorem recovers_releaseRecovered {lock : SessionLock} (hs : lock.sessionId = s) (now : ℤ)
    (reason : TurnRecoveryReason) :
    Recovers s db (db.releaseRecoveredLockInTransaction lock now reason).1 := by
  unfold releaseRecoveredLockInTransaction
  rcases horphan : db.latestAcceptedTurn lock.sessionId with _ | orphan <;> dsimp only
  · exact recovers_of_locks rfl rfl rfl rfl
  · have hmem := latestAcceptedTurn_mem horphan
    refine (recovers_finishTurns fun r hr hp => ?_).trans (recovers_of_locks rfl rfl rfl rfl)
    rw [turn_unique hr (mem_acceptedTurns.1 hmem).1 (beq_iff_eq.1 hp), ← hs]
    exact hmem

theorem recovers_recoverExpired (now : ℤ) :
    Recovers s db (db.recoverExpiredInTransaction s now).1 := by
  unfold recoverExpiredInTransaction
  dsimp only
  split
  · exact Recovers.refl _ _
  · rename_i lock hl
    have hkey := List.find?_some hl
    exact recovers_releaseRecovered (beq_iff_eq.1 (Bool.and_eq_true_iff.1 hkey).1) _ _

theorem recovers_recoverDeadLegacyOwner (killProbe : ℕ → Option Bool) (now : ℤ) :
    Recovers s db (db.recoverDeadLegacyOwnerInTransaction killProbe s now).1 := by
  unfold recoverDeadLegacyOwnerInTransaction
  split
  · exact Recovers.refl _ _
  · rename_i lock hl
    split_ifs
    · exact Recovers.refl _ _
    · exact recovers_releaseRecovered (lock_session hl) _ _

theorem recovers_recoverAdmission (db : TurnTables) {pending : Option PendingSettlement}
    (hpending : ∀ p, pending = some p → p.sessionId = s) (killProbe : ℕ → Option Bool) (now : ℤ) :
    Recovers s db (db.recoverAdmissionTerminalFacts s pending killProbe now).1 := by
  unfold recoverAdmissionTerminalFacts
  rcases pending with _ | pending
  · exact (recovers_recoverExpired now).trans (recovers_recoverDeadLegacyOwner _ _)
  · have hp := recovers_recoverPending db pending now
    rw [hpending pending rfl] at hp
    exact (hp.trans (recovers_recoverExpired now)).trans (recovers_recoverDeadLegacyOwner _ _)

/-! ## A Turn that is not found -/

theorem findDuplicate_none {input : AdmitTurnInput} (h : db.findDuplicate input = none) :
    (∀ r ∈ db.turnIngress.rows, r.turnId ≠ input.turnId) ∧
      (∀ id, truthy input.clientRequestId = some id → ∀ r ∈ db.turnIngress.rows,
        r.sessionId = input.sessionId → r.clientRequestId ≠ some id) ∧
      ∀ id, truthy (input.queueIngress.map (·.claimId)) = some id →
        ∀ r ∈ db.turnIngress.rows, r.claimId ≠ some id := by
  unfold findDuplicate at h
  dsimp only at h
  split at h <;> cases h
  rename_i hturn hclient hclaim
  rw [List.find?_eq_none] at hturn
  refine ⟨fun r hr heq => hturn r hr (beq_iff_eq.2 heq), fun id hid r hr hs hc => ?_,
    fun id hid r hr hc => ?_⟩
  · rw [hid, Option.bind_some, List.find?_eq_none] at hclient
    exact hclient r hr (by simp [hs, hc])
  · rw [hid, Option.bind_some, List.find?_eq_none] at hclaim
    exact hclaim r hr (by simp [hc])

/-- Each sequence was handed out to a Turn that still has its row. -/
def Sequenced (db : TurnTables) : Prop :=
  (∀ r ∈ db.turnIngress.rows, r.acceptedSequence ≤ db.lastSequence) ∧
    ∀ q ∈ db.turnIngressSequences.rows, q.sequence ≤ db.lastSequence ∧
      ∃ r ∈ db.turnIngress.rows, r.turnId = q.turnId

theorem Evolves.sequenced (h : Evolves db db') (hdb : db.Sequenced) : db'.Sequenced := by
  refine ⟨fun r hr => ?_, fun q hq => ?_⟩
  · rcases h.rows r hr with hnew | ⟨r₀, hr₀, hseq, -⟩
    · exact hnew.2
    · rw [← hseq]
      exact (hdb.1 r₀ hr₀).trans h.last
  · rcases h.sequences q hq with ⟨-, hle, hrow⟩ | ⟨hq₀, hkeep⟩
    · exact ⟨hle, hrow⟩
    · exact ⟨(hdb.2 q hq₀).1.trans h.last, hkeep (hdb.2 q hq₀).2⟩

/-- A Turn that is found under none of its ids is admitted to a Session without a lock. -/
theorem insertAdmission_ok (hdb : db.Sequenced) {input : AdmitTurnInput} {leaseId : String}
    {now leaseMs : ℤ} (hlock : db.findSessionLock input.sessionId = none)
    (hdup : db.findDuplicate input = none) (hkeys : db.LookedUp input) :
    ∃ x, db.insertAdmission input leaseId now leaseMs = .ok x := by
  obtain ⟨hturn, hclient, hclaim⟩ := findDuplicate_none hdup
  have hlocks : sessionLocksIndex.Holds
      (db.sessionLocks.rows ++ [admissionLock input leaseId now leaseMs]) := by
    refine Constraint.unique_append.2 ⟨db.sessionLocks.holds, fun k hk l hl hlk => ?_⟩
    unfold findSessionLock at hlock
    rw [List.find?_eq_none] at hlock
    have hk := Option.some.inj (hlk.trans hk.symm)
    exact hlock l hl (beq_iff_eq.2 hk)
  have hsequences : turnIngressSequencesIndex.Holds
      (db.turnIngressSequences.rows ++ [⟨db.lastSequence + 1, input.turnId⟩]) := by
    refine ⟨Constraint.unique_append.2 ⟨db.turnIngressSequences.holds.1, fun k hk q hq hqk => ?_⟩,
      Constraint.unique_append.2 ⟨db.turnIngressSequences.holds.2, fun k hk q hq hqk => ?_⟩⟩
    · have hle := (hdb.2 q hq).1
      have heq : q.sequence = db.lastSequence + 1 := Option.some.inj (hqk.trans hk.symm)
      omega
    · obtain ⟨r, hr, hrq⟩ := (hdb.2 q hq).2
      have heq : q.turnId = input.turnId := Option.some.inj (hqk.trans hk.symm)
      exact hturn r hr (hrq.trans heq)
  have hingress : turnIngressIndex.Holds
      (db.turnIngress.rows ++ [admissionRow input now (db.lastSequence + 1)]) := by
    obtain ⟨h1, h2, h3, h4⟩ := db.turnIngress.holds
    refine ⟨Constraint.unique_append.2 ⟨h1, fun k hk r hr hrk => ?_⟩,
      Constraint.unique_append.2 ⟨h2, fun k hk r hr hrk => ?_⟩,
      Constraint.unique_append.2 ⟨h3, fun k hk r hr hrk => ?_⟩,
      Constraint.unique_append.2 ⟨h4, fun k hk r hr hrk => ?_⟩⟩
    · exact hturn r hr (Option.some.inj (hrk.trans hk.symm))
    · obtain ⟨ingress, hingress, rfl⟩ := Option.map_eq_some_iff.1 hk
      refine hclaim ingress.claimId ?_ r hr hrk
      rw [hingress, Option.map_some, truthy,
        Option.filter_some_pos (by simpa using hkeys.1 ingress hingress)]
    · simp only [TurnIngress.clientKey, Option.map_eq_some_iff] at hk hrk
      obtain ⟨id, hid, rfl⟩ := hk
      obtain ⟨id', hid', hrid⟩ := hrk
      rw [Prod.mk.injEq] at hrid
      exact hclient id hid r hr hrid.1 (hrid.2 ▸ hid')
    · have hle := hdb.1 r hr
      have heq : r.acceptedSequence = db.lastSequence + 1 := Option.some.inj (hrk.trans hk.symm)
      omega
  have hrequests : ∃ requests, db.insertClientRequest input = .ok requests := by
    unfold insertClientRequest
    rcases hid : truthy input.clientRequestId with _ | id
    · exact ⟨_, rfl⟩
    · have hholds : turnIngressClientRequestsIndex.Holds (db.turnIngressClientRequests.rows ++
          [⟨input.sessionId, id, input.turnId⟩]) := by
        refine Constraint.unique_append.2
          ⟨db.turnIngressClientRequests.holds, fun k hk c hc hck => ?_⟩
        have heq := Option.some.inj (hck.trans hk.symm)
        simp only [Prod.mk.injEq] at heq
        obtain ⟨r, hr, hrs, hrc⟩ := hkeys.2 c hc heq.1 (by rw [hid, heq.2])
        exact hclient id hid r hr hrs (heq.2 ▸ hrc)
      obtain ⟨requests, hins, -⟩ := Table.insert_of_holds hholds
      exact ⟨requests, by dsimp only; rw [hins]; rfl⟩
  obtain ⟨locks, hlocks, -⟩ := Table.insert_of_holds hlocks
  obtain ⟨sequences, hsequences, -⟩ := Table.insert_of_holds hsequences
  obtain ⟨ingress, hingress, -⟩ := Table.insert_of_holds hingress
  obtain ⟨requests, hrequests⟩ := hrequests
  unfold insertAdmission
  simp only [hlocks, hsequences, hingress, hrequests, orUnique, bind, Except.bind]
  exact ⟨_, rfl⟩

theorem Recovers.sequenced (h : Recovers s db db') (hdb : db.Sequenced) : db'.Sequenced := by
  obtain ⟨f, hf, hsame, -⟩ := h.rows
  have hseq : ∀ r, (f r).acceptedSequence = r.acceptedSequence := fun r => by rw [hsame r]
  have hturn : ∀ r, (f r).turnId = r.turnId := fun r => by rw [hsame r]
  refine ⟨fun r' hr' => ?_, fun q hq => ?_⟩
  · rw [hf] at hr'
    obtain ⟨r, hr, rfl⟩ := List.mem_map.1 hr'
    rw [hseq, h.last]
    exact hdb.1 r hr
  · rw [h.sequences] at hq
    obtain ⟨hle, r, hr, hrq⟩ := hdb.2 q hq
    exact ⟨h.last ▸ hle, f r, hf ▸ List.mem_map_of_mem hr, (hturn r).trans hrq⟩

theorem Recovers.lookedUp (h : Recovers s db db') {input : AdmitTurnInput}
    (hdb : db.LookedUp input) : db'.LookedUp input := by
  obtain ⟨f, hf, hsame, -⟩ := h.rows
  refine ⟨hdb.1, fun c hc hcs hci => ?_⟩
  rw [h.requests] at hc
  obtain ⟨r, hr, hrs, hrc⟩ := hdb.2 c hc hcs hci
  refine ⟨f r, hf ▸ List.mem_map_of_mem hr, ?_, ?_⟩
  · rw [hsame r]
    exact hrs
  · rw [hsame r]
    exact hrc

theorem admitRecovered_ok (hdb : db.Sequenced) {input : AdmitTurnInput}
    (hkeys : db.LookedUp input) (verdicts : AdmitVerdicts) (now leaseMs : ℤ) :
    ∃ x, db.admitRecovered input verdicts now leaseMs = .ok x := by
  unfold admitRecovered
  dsimp only
  by_cases hdeletion : (db.findSessionLock input.sessionId).any (·.ownerKind.isDeletion)
  · rw [if_pos hdeletion]
    exact ⟨_, rfl⟩
  · rw [if_neg hdeletion]
    rcases hdup : db.findDuplicate input with _ | duplicate
    · rcases hlock : db.findSessionLock input.sessionId with _ | lock <;> dsimp only
      · by_cases hfence : (!input.bypassPriorityFence && verdicts.priorityBlocks) = true
        · rw [if_pos hfence]
          exact ⟨_, rfl⟩
        · rw [if_neg hfence]
          rcases verdicts.policyRejection with _ | reason
          · exact insertAdmission_ok hdb hlock hdup hkeys
          · exact ⟨_, rfl⟩
      · exact ⟨_, rfl⟩
    · exact ⟨_, rfl⟩

/-- An admission whose ids are looked up commits, unless its accepted effect throws. -/
theorem admit_ok (hdb : db.Sequenced) {input : AdmitTurnInput} (hkeys : db.LookedUp input)
    {pending : Option PendingSettlement}
    (hpending : ∀ p, pending = some p → p.sessionId = input.sessionId) (verdicts : AdmitVerdicts)
    (now leaseMs : ℤ) :
    (∃ x, db.admitTransaction input pending verdicts now leaseMs = .ok x) ∨
      (verdicts.acceptedEffect = none ∧
        db.admitTransaction input pending verdicts now leaseMs = .error .thrown) := by
  unfold admitTransaction admitTurnInTransaction
  rcases blocksAdmission verdicts.sessionRejection input.bypassSessionMutation with _ | rejection
  · have hrec := recovers_recoverAdmission db hpending verdicts.killProbe now
    obtain ⟨x, hx⟩ := admitRecovered_ok (hrec.sequenced hdb) (hrec.lookedUp hkeys) verdicts now
      leaseMs
    simp only [hx, bind, Except.bind]
    split_ifs
    · exact .inl ⟨_, rfl⟩
    · rcases verdicts.acceptedEffect with _ | token
      · exact .inr ⟨rfl, rfl⟩
      · exact .inl ⟨_, rfl⟩
  · exact .inl ⟨_, rfl⟩

/-! ## A Turn that is found -/

theorem findDuplicate_of_mem {input : AdmitTurnInput} {receipt : TurnIngress}
    (hmem : receipt ∈ db.turnIngress.rows) (hof : receipt.IsOf input) :
    db.findDuplicate input = some (.duplicate receipt.turnId []) := by
  have hfind : (db.turnIngress.rows.find? fun r => r.turnId == input.turnId) = some receipt := by
    rcases hf : db.turnIngress.rows.find? fun r => r.turnId == input.turnId with _ | r
    · rw [List.find?_eq_none] at hf
      exact absurd (beq_iff_eq.2 hof.turnId) (hf receipt hmem)
    · have hr := List.find?_some hf
      rw [beq_iff_eq] at hr
      exact hf.trans (congrArg some
        (turn_unique (List.mem_of_find?_eq_some hf) hmem (hr.trans hof.turnId.symm)))
  unfold findDuplicate
  simp only [hfind]
  rw [classifyDuplicate, if_pos ⟨hof.sessionId, hof.busyReason, hof.inputDigest, hof.claimId,
    hof.claimSource, hof.queueItemIds⟩]

theorem Recovers.isOf (h : Recovers s db db') {input : AdmitTurnInput} {receipt : TurnIngress}
    (hmem : receipt ∈ db.turnIngress.rows) (hof : receipt.IsOf input) :
    ∃ receipt' ∈ db'.turnIngress.rows, receipt'.turnId = receipt.turnId ∧
      receipt'.IsOf input := by
  obtain ⟨f, hf, hsame, -⟩ := h.rows
  refine ⟨f receipt, hf ▸ List.mem_map_of_mem hmem, ?_, ?_⟩ <;> rw [hsame receipt]
  exact ⟨hof.turnId, hof.sessionId, hof.busyReason, hof.inputDigest, hof.claimId,
    hof.claimSource, hof.queueItemIds⟩

/-- A Turn admitted before is answered with its receipt after the recoveries, which are all that
changes. -/
theorem admit_duplicate {input : AdmitTurnInput} {receipt : TurnIngress}
    (hmem : receipt ∈ db.turnIngress.rows) (hof : receipt.IsOf input)
    {pending : Option PendingSettlement}
    (hpending : ∀ p, pending = some p → p.sessionId = input.sessionId) {verdicts : AdmitVerdicts}
    (hblock : blocksAdmission verdicts.sessionRejection input.bypassSessionMutation = none)
    {now : ℤ} (hfence : ((db.recoverAdmissionTerminalFacts input.sessionId pending
      verdicts.killProbe now).1.findSessionLock input.sessionId).any (·.ownerKind.isDeletion) =
        false) (leaseMs : ℤ) :
    ∃ facts, db.admitTransaction input pending verdicts now leaseMs =
      .ok ((db.recoverAdmissionTerminalFacts input.sessionId pending verdicts.killProbe now).1,
        .duplicate receipt.turnId facts) := by
  obtain ⟨receipt', hmem', hturn, hof'⟩ :=
    (recovers_recoverAdmission db hpending verdicts.killProbe now).isOf hmem hof
  have hdup := findDuplicate_of_mem hmem' hof'
  unfold admitTransaction admitTurnInTransaction
  rw [hblock]
  simp only [admitRecovered, hfence, Bool.false_eq_true, if_false, hdup, bind, Except.bind,
    AdmitTurnResult.withRecoveredTerminalFacts, AdmitTurnResult.isAccepted, Bool.not_false,
    if_true, hturn]
  exact ⟨_, rfl⟩

end TurnTables

namespace Ownership

variable {o : Ownership} {now : ℤ}

theorem isDeleting_of_recoverExpired (h : (o.recoverExpired now).isDeleting) : o.isDeleting := by
  unfold recoverExpired at h
  split_ifs at h
  · cases h
  · exact h

theorem isDeleting_of_settle {turnId leaseId : String}
    (h : (o.settle turnId leaseId now).isDeleting) : o.isDeleting := by
  unfold settle at h
  split_ifs at h
  · rcases o with _ | ⟨busyReason, _ | _, lease, row⟩ | ⟨deleting, lease⟩ | lease <;> exact h
  · exact h

/-- A recovery takes no Session for a deletion. -/
theorem isDeleting_of_recovered {pending : Option PendingSettlement}
    (h : (o.recovered pending now).isDeleting) : o.isDeleting := by
  rcases pending with _ | pending
  · exact isDeleting_of_recoverExpired h
  · exact isDeleting_of_settle (isDeleting_of_recoverExpired h)

end Ownership

namespace TurnRepository

variable {r : TurnRepository} {options : TurnRepositoryOptions} {m : String → Ownership}
  {s : String}

theorem sequenced_of_reachable (h : (turnMachine options).Reachable r) : r.tables.Sequenced := by
  obtain ⟨es, rfl⟩ := h
  refine (evolves_of_run (turnMachine options).reachable_initial es).sequenced ⟨?_, ?_⟩
  · exact fun _ hr => absurd hr List.not_mem_nil
  · exact fun _ hq => absurd hq List.not_mem_nil

/-- Where no settlement awaits its retry and no lease is over, an admission recovers nothing. -/
theorem recoverAdmission_none (hm : r.tables.Owned m) (hawaits : ¬ r.AwaitsRetry s)
    (hlease : ∀ lock, r.tables.findSessionLock s = some lock → r.nowMs < lock.expiresAtMs)
    (killProbe : ℕ → Option Bool) :
    (r.tables.recoverAdmissionTerminalFacts s (r.pendingSettlements s) killProbe r.nowMs).1 =
      r.tables := by
  have hexpired : (r.tables.recoverExpiredInTransaction s r.nowMs).1 = r.tables := by
    unfold TurnTables.recoverExpiredInTransaction
    dsimp only
    split
    · rfl
    · rename_i lock hl
      have hkey := List.find?_some hl
      simp only [Bool.and_eq_true, beq_iff_eq, decide_eq_true_eq] at hkey
      have hlive := hlease lock (hkey.1 ▸ TurnTables.lock_of_mem (List.mem_of_find?_eq_some hl))
      omega
  unfold TurnTables.recoverAdmissionTerminalFacts
  rcases hp : r.pendingSettlements s with _ | pending <;> dsimp only
  · rw [hexpired, hm.recoverDeadLegacyOwner]
  · have hpending : (r.tables.recoverPendingSettlementInTransaction pending r.nowMs).1 =
        r.tables := by
      rcases TurnTables.recoverPending_cases r.tables pending r.nowMs with
        ⟨heq, -⟩ | ⟨lock, hl, hlease, hrow, -⟩
      · exact heq
      · exact absurd ⟨pending, hp, ⟨lock, hl, hlease⟩, hrow⟩ hawaits
    rw [hpending, hexpired, hm.recoverDeadLegacyOwner]

end TurnRepository

/-- An admission whose ids are looked up is answered, unless its accepted effect throws. A Turn
admitted before, when Session admission lets it through and no deletion fence is up, is answered
with its receipt, and the recoveries of its Session are all that changes: rows other than its
accepted one stay, and every row does where no lease is over and no settlement awaits its retry. A
queue claim has one row, and so has a client request of a Session. -/
theorem admission_idempotent {options : TurnRepositoryOptions} {r : TurnRepository}
    (h : (turnMachine options).Reachable r) (input : AdmitTurnInput) (verdicts : AdmitVerdicts) :
    (r.tables.LookedUp input →
      (∃ result, (r.step options (.admitTurn input verdicts)).2 = .admitted result) ∨
        (verdicts.acceptedEffect = none ∧
          (r.step options (.admitTurn input verdicts)).2 = .threw .thrown)) ∧
      (∀ receipt ∈ r.tables.turnIngress.rows, receipt.IsOf input →
        TurnTables.blocksAdmission verdicts.sessionRejection input.bypassSessionMutation = none →
        ¬ r.Deleting input.sessionId →
        (∃ facts, (r.step options (.admitTurn input verdicts)).2 =
            .admitted (.duplicate receipt.turnId facts)) ∧
          (∀ row ∈ r.tables.turnIngress.rows, row ∉ r.tables.acceptedTurns input.sessionId →
            row ∈ (r.step options (.admitTurn input verdicts)).1.tables.turnIngress.rows) ∧
          (¬ r.AwaitsRetry input.sessionId →
            (∀ lock, r.tables.findSessionLock input.sessionId = some lock →
              r.nowMs < lock.expiresAtMs) →
            (r.step options (.admitTurn input verdicts)).1.tables = r.tables)) ∧
      (∀ a ∈ r.tables.turnIngress.rows, ∀ b ∈ r.tables.turnIngress.rows, ∀ claimId,
        a.claimId = some claimId → b.claimId = some claimId → a = b) ∧
      ∀ a ∈ r.tables.turnIngress.rows, ∀ b ∈ r.tables.turnIngress.rows, ∀ clientRequestId,
        a.sessionId = b.sessionId → a.clientRequestId = some clientRequestId →
          b.clientRequestId = some clientRequestId → a = b := by
  obtain ⟨⟨m, hm⟩, hk⟩ := TurnRepository.owned_of_reachable h
  refine ⟨fun hkeys => ?_, fun receipt hmem hof hblock hfence => ?_, fun a ha b hb id hia hib => ?_,
    fun a ha b hb id hs hia hib => ?_⟩
  · rcases TurnTables.admit_ok (TurnRepository.sequenced_of_reachable h) hkeys
      (hk input.sessionId) verdicts r.nowMs options.lease with ⟨x, hx⟩ | ⟨heffect, hx⟩
    · exact .inl ⟨x.2, by rw [TurnRepository.step, TurnRepository.admitTurn, hx]⟩
    · exact .inr ⟨heffect, by rw [TurnRepository.step, TurnRepository.admitTurn, hx]⟩
  · have hrec := hm.recoverAdmission _ (hk input.sessionId) verdicts.killProbe r.nowMs
    have hdown : ((r.tables.recoverAdmissionTerminalFacts input.sessionId
        (r.pendingSettlements input.sessionId) verdicts.killProbe r.nowMs).1.findSessionLock
          input.sessionId).any (·.ownerKind.isDeletion) = false := by
      rw [Bool.eq_false_iff]
      intro hup
      have hdeleting := (TurnRepository.deleting_iff (r := { r with tables := _ }) hrec).1
        ((Option.any_eq_true _ _).1 hup)
      rw [Function.update_self] at hdeleting
      exact hfence ((TurnRepository.deleting_iff hm).2
        (Ownership.isDeleting_of_recovered hdeleting))
    obtain ⟨facts, hadmission⟩ := TurnTables.admit_duplicate hmem hof (hk input.sessionId) hblock hdown
      options.lease
    have hstep : r.step options (.admitTurn input verdicts) =
        ({ r with tables := (r.tables.recoverAdmissionTerminalFacts input.sessionId
            (r.pendingSettlements input.sessionId) verdicts.killProbe r.nowMs).1 }.forgetPending
              input.sessionId, .admitted (.duplicate receipt.turnId facts)) := by
      rw [TurnRepository.step, TurnRepository.admitTurn, hadmission]
    rw [hstep]
    refine ⟨⟨facts, rfl⟩, fun row hrow hno => ?_, fun hawaits hlease => ?_⟩
    · obtain ⟨f, hf, -, hkeep⟩ := (TurnTables.recovers_recoverAdmission r.tables
        (hk input.sessionId) verdicts.killProbe r.nowMs).rows
      rw [TurnRepository.forgetPending_tables, hf]
      exact List.mem_map.2 ⟨row, hrow, hkeep row hrow hno⟩
    · exact TurnRepository.recoverAdmission_none hm hawaits hlease _
  · exact Constraint.unique_inj r.tables.turnIngress.holds.2.1 ha hb hia hib
  · refine Constraint.unique_inj r.tables.turnIngress.holds.2.2.1 ha hb
      (k := (a.sessionId, id)) ?_ ?_
    · simp [TurnIngress.clientKey, hia]
    · simp [TurnIngress.clientKey, hib, hs]

/-- The lease of an accepted Turn that ends before its input is admitted again fails its row. -/
theorem admission_not_idempotent : ¬ AdmissionIdempotent ⟨none⟩ := by
  intro h
  have hsame := ((h _ ⟨[.admitTurn (plainTurn "s" "t") (.granting "lease"), .setClock 1800000], rfl⟩
    (plainTurn "s" "t") (.granting "other") rfl).2 _ (List.mem_singleton_self _)
      ⟨rfl, rfl, rfl, rfl, rfl, rfl, rfl⟩ ?_).2
  · exact absurd (congrArg (fun T => T.rows.map (·.status)) hsame) (by decide)
  · rintro ⟨lock, hl, hkind⟩
    cases hl
    exact absurd hkind (by decide)

/-- A Turn that is admitted again while it runs changes nothing. -/
theorem admission_idempotent_running :
    let r := (turnMachine ⟨none⟩).after .initial [.admitTurn (plainTurn "s" "t") (.granting "lease")]
    (r.step ⟨none⟩ (.admitTurn (plainTurn "s" "t") (.granting "other"))).1.tables = r.tables := by
  intro r
  refine ((admission_idempotent ⟨_, rfl⟩ (plainTurn "s" "t") (.granting "other")).2.1 _
    (List.mem_singleton_self _) ⟨rfl, rfl, rfl, rfl, rfl, rfl, rfl⟩ rfl ?_).2.2 ?_ ?_
  · rintro ⟨lock, hl, hkind⟩
    cases hl
    exact absurd hkind (by decide)
  · rintro ⟨pending, hp, -⟩
    cases hp
  · rintro lock hl
    cases hl
    decide

end Kinetick
