import Kinetick.Proofs.TurnOwnership

/-!
# Admission, leases and deletion move the owners of the Sessions

The calls that take, renew, release and hand over the lock of a Session. An admission takes the
lock of a free Session only; a deletion takes a free one or marks its owner; a restart takes the
locks it recovers one at a time.
-/

namespace Kinetick

namespace TurnTables

variable {db db' : TurnTables} {m : String → Ownership} {s : String}

/-! ## Admission -/

theorem orUnique_eq_ok {α : Type} {table : TurnTableName} {o : Option α} {a : α}
    (h : orUnique table o = .ok a) : o = some a := by
  cases o <;> cases h
  rfl

theorem insertAdmission_cases {input : AdmitTurnInput} {leaseId : String} {now leaseMs : ℤ}
    {res : AdmitTurnResult} (hok : db.insertAdmission input leaseId now leaseMs = .ok (db', res)) :
    db.sessionLocks.insert (admissionLock input leaseId now leaseMs) = some db'.sessionLocks ∧
      db.turnIngressSequences.insert { sequence := db.lastSequence + 1, turnId := input.turnId } =
        some db'.turnIngressSequences ∧
      db.turnIngress.insert (admissionRow input now (db.lastSequence + 1)) = some db'.turnIngress ∧
      db.insertClientRequest input = .ok db'.turnIngressClientRequests ∧
      db'.lastSequence = db.lastSequence + 1 ∧
      res = .accepted leaseId (db.lastSequence + 1) now false none [] := by
  unfold insertAdmission at hok
  rcases hlocks : orUnique .sessionLocks (db.sessionLocks.insert
      (admissionLock input leaseId now leaseMs)) with e | locks <;> rw [hlocks] at hok
  · cases hok
  rcases hsequences : orUnique .turnIngressSequences (db.turnIngressSequences.insert
      { sequence := db.lastSequence + 1, turnId := input.turnId }) with e | sequences
  all_goals
    simp only [bind, Except.bind, hsequences] at hok
  · cases hok
  rcases hingress : orUnique .turnIngress (db.turnIngress.insert
      (admissionRow input now (db.lastSequence + 1))) with e | ingress
  all_goals
    simp only [hingress] at hok
  · cases hok
  rcases hrequests : db.insertClientRequest input with e | requests
  all_goals
    simp only [hrequests] at hok
  · cases hok
  · cases hok
    exact ⟨orUnique_eq_ok hlocks, orUnique_eq_ok hsequences, orUnique_eq_ok hingress, rfl, rfl, rfl⟩

theorem acceptedTurns_insert {row : TurnIngress} {ingress : Table turnIngressIndex}
    (h : db.turnIngress.insert row = some ingress) (hrow : row.status = .accepted) :
    (ingress.rows.filter fun r => r.sessionId == s && r.status == .accepted) =
      db.acceptedTurns s ++ if row.sessionId = s then [row] else [] := by
  rw [Table.insert_eq_some h, List.filter_append, acceptedTurns]
  congr 1
  split_ifs with hs
  · simp [hs, hrow]
  · simp [hs]

/-- An admission takes the lock of a free Session and its one accepted row. -/
theorem Owned.insertAdmission (h : db.Owned m) {input : AdmitTurnInput} {leaseId : String}
    {now leaseMs : ℤ} {res : AdmitTurnResult}
    (hok : db.insertAdmission input leaseId now leaseMs = .ok (db', res)) :
    m input.sessionId = .free ∧ db'.Owned (Function.update m input.sessionId
      (.turn input.busyReason false ⟨leaseId, now, now + leaseMs⟩
        (admissionRow input now (db.lastSequence + 1)))) := by
  obtain ⟨hlocks, -, hingress, -, -, -⟩ := insertAdmission_cases hok
  obtain ⟨hnone, hfind⟩ := lock_insert hlocks
  have hfree : m input.sessionId = .free := h.free hnone
  have hacc : ∀ t, db'.acceptedTurns t = db.acceptedTurns t ++
      if input.sessionId = t then [admissionRow input now (db.lastSequence + 1)] else [] :=
    fun t => acceptedTurns_insert hingress rfl
  refine ⟨hfree, h.move (fun t ht => ⟨?_, ?_⟩) ?_ ?_⟩
  · exact (hfind t).trans (if_neg ht)
  · rw [hacc, if_neg ht.symm, List.append_nil]
  · refine (hfind _).trans ?_
    rw [show (admissionLock input leaseId now leaseMs).sessionId = input.sessionId from rfl,
      if_pos rfl]
    cases hb : input.busyReason <;>
      simp [Ownership.lock, Lease.lock, admissionLock, TurnBusyReason.lockKind,
        TurnBusyReason.ownerKind, hb]
  · rw [hacc, if_pos rfl, (h _).2, hfree]
    rfl

/-- After its recoveries an admission leaves the tables, or takes the lock of a free Session. -/
theorem admitRecovered_cases {input : AdmitTurnInput} {verdicts : AdmitVerdicts}
    {now leaseMs : ℤ} {res : AdmitTurnResult}
    (hok : db.admitRecovered input verdicts now leaseMs = .ok (db', res)) :
    (db' = db ∧ res.isAccepted = false) ∨
      (db.findSessionLock input.sessionId = none ∧ db.findDuplicate input = none ∧
        db.insertAdmission input verdicts.leaseId now leaseMs = .ok (db', res)) := by
  unfold admitRecovered at hok
  dsimp only at hok
  by_cases hdeletion : (db.findSessionLock input.sessionId).any (·.ownerKind.isDeletion)
  · rw [if_pos hdeletion] at hok
    cases hok
    exact .inl ⟨rfl, rfl⟩
  · rw [if_neg hdeletion] at hok
    have hdup : ∀ r, db.findDuplicate input = some r → r.isAccepted = false := by
      intro r hr
      have hclassify : ∀ receipt, (classifyDuplicate receipt input).isAccepted = false := by
        intro receipt
        unfold classifyDuplicate
        split_ifs <;> rfl
      unfold findDuplicate at hr
      dsimp only at hr
      split at hr <;> cases hr <;> exact hclassify _
    rcases hd : db.findDuplicate input with _ | duplicate
    · rcases hl : db.findSessionLock input.sessionId with _ | lock <;> simp only [hd, hl] at hok
      · by_cases hfence : (!input.bypassPriorityFence && verdicts.priorityBlocks) = true
        · rw [if_pos hfence] at hok
          cases hok
          exact .inl ⟨rfl, rfl⟩
        · rw [if_neg hfence] at hok
          rcases hpolicy : verdicts.policyRejection with _ | reason <;> rw [hpolicy] at hok
          · exact .inr ⟨rfl, rfl, hok⟩
          · cases hok
            exact .inl ⟨rfl, rfl⟩
      · cases hok
        exact .inl ⟨rfl, rfl⟩
    · simp only [hd] at hok
      cases hok
      exact .inl ⟨rfl, hdup _ hd⟩

/-- An admission is refused before anything is recovered, leaves the recovered tables, or takes
the lock of a Session that is free after the recoveries. -/
theorem admit_cases {input : AdmitTurnInput} {pending : Option PendingSettlement}
    {verdicts : AdmitVerdicts} {now leaseMs : ℤ} {res : AdmitTurnResult}
    (hok : db.admitTransaction input pending verdicts now leaseMs = .ok (db', res)) :
    (∃ rejection, blocksAdmission verdicts.sessionRejection input.bypassSessionMutation =
        some rejection ∧ db' = db ∧ res = .rejected rejection.reason []) ∨
      (blocksAdmission verdicts.sessionRejection input.bypassSessionMutation = none ∧
        let recovered := (db.recoverAdmissionTerminalFacts input.sessionId pending
          verdicts.killProbe now).1
        (db' = recovered ∧ res.isAccepted = false) ∨
          (recovered.findSessionLock input.sessionId = none ∧
            recovered.findDuplicate input = none ∧ res.isAccepted ∧
            ∃ res', recovered.insertAdmission input verdicts.leaseId now leaseMs =
              .ok (db', res'))) := by
  unfold admitTransaction admitTurnInTransaction at hok
  rcases hblock : blocksAdmission verdicts.sessionRejection input.bypassSessionMutation
    with _ | rejection <;> rw [hblock] at hok
  · refine .inr ⟨rfl, ?_⟩
    dsimp only at hok ⊢
    have hfacts : ∀ (r : AdmitTurnResult) f, (r.withRecoveredTerminalFacts f).isAccepted =
        r.isAccepted := fun r f => by cases r <;> rfl
    have haccept : ∀ (r : AdmitTurnResult) b t, (r.withAcceptance b t).isAccepted =
        r.isAccepted := fun r b t => by cases r <;> rfl
    rcases hr : (db.recoverAdmissionTerminalFacts input.sessionId pending verdicts.killProbe now
      ).1.admitRecovered input verdicts now leaseMs with e | ⟨db₁, res₁⟩ <;>
        simp only [hr, bind, Except.bind, hfacts] at hok
    · cases hok
    · rcases admitRecovered_cases hr with ⟨rfl, hres⟩ | ⟨hl, hd, hins⟩
      · rw [hres] at hok
        simp only [Bool.not_false, if_true, Except.ok.injEq, Prod.mk.injEq] at hok
        exact .inl ⟨hok.1.symm, by rw [← hok.2, hfacts, hres]⟩
      · have hres : res₁.isAccepted = true := by
          rw [(insertAdmission_cases hins).2.2.2.2.2]
          rfl
        rw [hres] at hok
        simp only [Bool.not_true, Bool.false_eq_true, if_false] at hok
        split at hok
        · cases hok
        · simp only [Except.ok.injEq, Prod.mk.injEq] at hok
          refine .inr ⟨hl, hd, by rw [← hok.2, haccept, hfacts, hres], res₁, ?_⟩
          rw [← hok.1]
          exact hins
  · simp only [bind, Except.bind, AdmitTurnResult.isAccepted, Bool.not_false, if_true] at hok
    cases hok
    exact .inl ⟨rejection, rfl, rfl, rfl⟩

/-- The owner after an admission that committed. -/
theorem Owned.admitTurn (h : db.Owned m) {input : AdmitTurnInput}
    {pending : Option PendingSettlement}
    (hpending : ∀ p, pending = some p → p.sessionId = input.sessionId)
    {verdicts : AdmitVerdicts} {now leaseMs : ℤ} {res : AdmitTurnResult}
    (hok : db.admitTransaction input pending verdicts now leaseMs = .ok (db', res)) :
    (∃ rejection, blocksAdmission verdicts.sessionRejection input.bypassSessionMutation =
        some rejection ∧ db' = db ∧ res.isAccepted = false) ∨
      (blocksAdmission verdicts.sessionRejection input.bypassSessionMutation = none ∧
        res.isAccepted = false ∧ db'.Owned (Function.update m input.sessionId
          ((m input.sessionId).recovered pending now))) ∨
      (blocksAdmission verdicts.sessionRejection input.bypassSessionMutation = none ∧
        res.isAccepted ∧ (m input.sessionId).recovered pending now = .free ∧
        ∃ row, row.turnId = input.turnId ∧ db'.Owned (Function.update m input.sessionId
          (.turn input.busyReason false ⟨verdicts.leaseId, now, now + leaseMs⟩ row))) := by
  have hrec := h.recoverAdmission pending hpending verdicts.killProbe now
  rcases admit_cases hok with ⟨rejection, hblock, hdb, hres⟩ | ⟨hblock, ⟨hdb, hres⟩ |
    ⟨-, -, hres, res', hins⟩⟩
  · exact .inl ⟨rejection, hblock, hdb, by rw [hres]; rfl⟩
  · exact .inr (.inl ⟨hblock, hres, hdb ▸ hrec⟩)
  · obtain ⟨hfree, howned⟩ := hrec.insertAdmission hins
    rw [Function.update_self] at hfree
    rw [Function.update_idem] at howned
    exact .inr (.inr ⟨hblock, hres, hfree, _, rfl, howned⟩)

/-! ## Leases -/

theorem Owned.updateLease (h : db.Owned m) {p : SessionLock → Bool} {f : SessionLock → SessionLock}
    (hf : ∀ l, (f l).sessionId = l.sessionId) (hp : ∀ l, p l → l.sessionId = s) {o : Ownership}
    (hacc : o.accepted = (m s).accepted)
    (hlock : ((m s).lock s).map (fun l => if p l then f l else l) = o.lock s) :
    (db.updateLocks p f hf).1.Owned (Function.update m s o) := by
  refine h.move (sameExcept_updateLocks hf hp) ?_ ?_
  · rw [lock_updateLocks, (h s).1, hlock]
  · rw [acceptedTurns_updateLocks, (h s).2, hacc]

theorem Owned.renew (h : db.Owned m) (leaseId : String) (now leaseMs : ℤ) :
    (db.renew s leaseId now leaseMs).1.Owned
      (Function.update m s ((m s).mapLease (Lease.renew leaseId now leaseMs))) := by
  refine h.updateLease (by intro; rfl) (fun l hl => ?_) ?_ ?_
  · simpa using (Bool.and_eq_true_iff.1 (Bool.and_eq_true_iff.1 hl).1).1
  · cases m s <;> rfl
  · cases m s <;> simp only [Ownership.lock, Ownership.mapLease, Lease.renew, Lease.lock,
      Option.map_none, Option.map_some, Bool.and_eq_true, beq_iff_eq, decide_eq_true_eq, true_and, Option.some.injEq]
    all_goals split_ifs <;> rfl

theorem Owned.renewMaintenance (h : db.Owned m) (leaseId : String) (now leaseMs : ℤ) :
    (db.renewSessionMaintenance s leaseId now leaseMs).1.Owned
      (Function.update m s ((m s).renewMaintenance leaseId now leaseMs)) := by
  refine h.updateLease (by intro; rfl) (fun l hl => ?_) ?_ ?_
  · have hl := (Bool.and_eq_true_iff.1 (Bool.and_eq_true_iff.1 (Bool.and_eq_true_iff.1 hl).1).1).1
    exact beq_iff_eq.1 hl
  · cases m s <;> rfl
  · rcases m s with _ | ⟨busyReason, deleting, lease, row⟩ | ⟨deleting, lease⟩ | lease
    · rfl
    · cases busyReason <;> cases deleting <;>
        simp [Ownership.lock, Ownership.renewMaintenance, Lease.lock, TurnBusyReason.lockKind,
          TurnBusyReason.ownerKind]
    · cases deleting <;>
        simp only [Ownership.lock, Ownership.renewMaintenance, Lease.lock, Lease.renew,
          Option.map_some, Option.some.injEq] <;>
        simp <;> split_ifs <;> rfl
    · simp [Ownership.lock, Ownership.renewMaintenance, Lease.lock]

theorem Owned.releaseMaintenance (h : db.Owned m) (leaseId : String) (now : ℤ) :
    (db.releaseSessionMaintenance s leaseId now).Owned
      (Function.update m s ((m s).releaseMaintenance leaseId now)) := by
  have hp : ∀ l : SessionLock, (l.sessionId == s && l.ownerId == leaseId) = true →
      l.sessionId = s := fun l hl => beq_iff_eq.1 (Bool.and_eq_true_iff.1 hl).1
  unfold releaseSessionMaintenance
  rw [(h s).1]
  rcases hm : m s with _ | ⟨busyReason, deleting, lease, row⟩ | ⟨deleting, lease⟩ | lease <;>
    simp only [Ownership.lock, Ownership.releaseMaintenance] <;> rw [← hm]
  · exact h.same
  · have hkind : busyReason.lockKind deleting ≠ .maintenanceDeleting ∧
        busyReason.lockKind deleting ≠ .maintenance := by
      cases busyReason <;> cases deleting <;> decide
    split_ifs with h1 h2 h3
    · exact h.same
    · exact absurd h2 hkind.1
    · exact absurd h3 hkind.2
    · exact h.same
  · by_cases howner : lease.ownerId = leaseId
    · rw [if_neg (by simpa [Lease.lock] using howner), if_neg (not_not.2 howner)]
      cases deleting
      · simp only [Lease.lock, Bool.false_eq_true, if_false, reduceCtorEq, if_true]
        refine h.move (sameExcept_deleteLocks hp) ?_ ?_
        · rw [lock_deleteLocks, (h s).1, hm]
          simp [Ownership.lock, Lease.lock, howner]
        · rw [acceptedTurns_deleteLocks, (h s).2, hm]
          rfl
      · simp only [Lease.lock, if_true]
        refine h.updateLease (by intro; rfl) hp (by rw [hm]; rfl) ?_
        simp [hm, Ownership.lock, Lease.lock, Lease.fence, howner]
    · rw [if_pos (by simpa [Lease.lock] using howner), if_pos howner]
      exact h.same
  · split_ifs with h1 h2 h3
    · exact h.same
    · exact absurd h2 (by simp [Lease.lock])
    · exact absurd h3 (by simp [Lease.lock])
    · exact h.same

/-- Only the accepted Turn of a normal lease is revoked, with its lock, row and receipts. -/
theorem revoke_cases (db : TurnTables) (s turnId leaseId : String) :
    ((db.revokeAdmission s turnId leaseId).1 = db ∧
      ∀ lock, db.findSessionLock s = some lock → lock.ownerId = leaseId → lock.ownerKind = .turn →
        ∀ r ∈ db.acceptedTurns s, r.turnId ≠ turnId) ∨
    ∃ lock, db.findSessionLock s = some lock ∧ lock.ownerId = leaseId ∧ lock.ownerKind = .turn ∧
      (∃ r ∈ db.acceptedTurns s, r.turnId = turnId) ∧
      (db.revokeAdmission s turnId leaseId).1 = ((db.deleteTurn turnId).deleteLocks fun l =>
        l.sessionId == s && l.ownerId == leaseId && l.ownerKind == .turn).1 := by
  unfold revokeAdmission
  rcases hr : db.turnIngress.rows.find? fun r =>
      r.sessionId == s && r.turnId == turnId && r.status == .accepted with _ | receipt <;>
    simp only [hr]
  · refine .inl ⟨trivial, fun lock _ _ _ r hmem hturn => ?_⟩
    have hmem := mem_acceptedTurns.1 hmem
    rw [List.find?_eq_none] at hr
    exact hr r hmem.1 (by simp [hmem.2.1, hmem.2.2, hturn])
  · have hkey := List.find?_some hr
    simp only [Bool.and_eq_true, beq_iff_eq] at hkey
    have hmem := mem_acceptedTurns.2 ⟨List.mem_of_find?_eq_some hr, hkey.1.1, hkey.2⟩
    rcases hl : db.findSessionLock s with _ | lock <;> simp only []
    · exact .inl ⟨trivial, fun lock h => by simp at h⟩
    · split_ifs with hother
      · refine .inl ⟨rfl, fun l h hlease hkind => ?_⟩
        rw [Option.some.injEq] at h
        subst h
        exact absurd hkind (hother.resolve_left (not_not.2 hlease))
      · rw [not_or, not_not, not_not] at hother
        exact .inr ⟨lock, rfl, hother.1, hother.2, ⟨receipt, hmem, hkey.1.2⟩, rfl⟩

theorem acceptedTurns_deleteTurn {turnId : String} :
    (db.deleteTurn turnId).acceptedTurns s =
      (db.acceptedTurns s).filter fun r => !(r.turnId == turnId) := by
  simp only [acceptedTurns, deleteTurn, Table.rows_delete, List.filter_filter, Bool.and_comm]

theorem Owned.revoke (h : db.Owned m) (turnId leaseId : String) :
    (db.revokeAdmission s turnId leaseId).1.Owned
      (Function.update m s ((m s).revoke turnId leaseId)) := by
  rcases revoke_cases db s turnId leaseId with ⟨heq, hno⟩ | ⟨lock, hl, hlease, hkind, hr, heq⟩ <;>
    rw [heq]
  · have hsame : (m s).revoke turnId leaseId = m s := by
      rcases hm : m s with _ | ⟨_ | _, _ | _, lease, row⟩ | _ | _ <;> try rfl
      refine if_neg fun hheld => ?_
      have hlock := (h s).1
      rw [hm] at hlock
      refine hno _ hlock hheld.1 rfl row ?_ hheld.2
      rw [(h s).2, hm]
      exact List.mem_singleton_self row
    rw [hsame]
    exact h.same
  · obtain ⟨r, hr, hturn⟩ := hr
    have hlock := lock_some h hl
    rw [(h s).2] at hr
    rcases hm : m s with _ | ⟨busyReason, deleting, lease, row⟩ | ⟨deleting, lease⟩ | lease <;>
      rw [hm] at hr hlock <;>
      simp only [Ownership.accepted, List.not_mem_nil, List.mem_singleton] at hr
    subst hr
    have hnormal : busyReason = .turn ∧ deleting = false := by
      rw [← Option.some.inj hlock] at hkind
      revert hkind
      cases busyReason <;> cases deleting <;> simp [Lease.lock, TurnBusyReason.lockKind,
        TurnBusyReason.ownerKind]
    obtain ⟨rfl, rfl⟩ := hnormal
    have hheld : lease.ownerId = leaseId ∧ r.turnId = turnId := by
      rw [← Option.some.inj hlock] at hlease
      exact ⟨hlease, hturn⟩
    rw [Ownership.revoke, if_pos hheld]
    have hrow := h.turn_mem hm
    refine h.move (fun t ht => ⟨?_, ?_⟩) ?_ ?_
    · refine (sameExcept_deleteLocks (fun l hl => ?_) t ht).1
      exact beq_iff_eq.1 (Bool.and_eq_true_iff.1 (Bool.and_eq_true_iff.1 hl).1).1
    · rw [acceptedTurns_deleteLocks, acceptedTurns_deleteTurn, List.filter_eq_self]
      intro r' hr'
      have hr' := mem_acceptedTurns.1 hr'
      have hne : r'.turnId ≠ turnId := fun heq =>
        ht (hr'.2.1.symm.trans ((turn_unique hr'.1 hrow.1 (heq.trans hturn.symm)) ▸ hrow.2.1))
      simpa using hne
    · rw [lock_deleteLocks, show (db.deleteTurn turnId).findSessionLock s = db.findSessionLock s
        from rfl, hl]
      simp [lock_session hl, hlease, hkind, Ownership.lock]
    · rw [acceptedTurns_deleteLocks, acceptedTurns_deleteTurn, (h s).2, hm]
      simp [Ownership.accepted, hturn]

end TurnTables

end Kinetick
