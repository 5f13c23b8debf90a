import Kinetick.Proofs.TurnEvolution

/-!
# One owner for each Session

Each call of the repository moves the owner of the Session it names by `OwnerStep` and leaves the
others, a restart aside, so a run keeps every Session owned: one accepted row under a Turn's lock,
none otherwise. A row that ended keeps its status in every run.
-/

namespace Kinetick

variable {m : String → Ownership} {s : String}

namespace Ownership

@[simp] theorem lock_mapRow (f : TurnIngress → TurnIngress) (o : Ownership) :
    (o.mapRow f).lock s = o.lock s := by
  cases o <;> rfl

@[simp] theorem accepted_mapRow (f : TurnIngress → TurnIngress) (o : Ownership) :
    (o.mapRow f).accepted = o.accepted.map f := by
  cases o <;> rfl

end Ownership

namespace TurnTables

theorem Owned.markAcknowledged {db db' : TurnTables} (h : db.Owned m)
    {query : QueueClaimAcceptanceQuery} {now : ℤ} (hok : db.markAcknowledged query now = .ok db') :
    ∃ f : TurnIngress → TurnIngress, (∀ r, (f r).turnId = r.turnId) ∧ Evolves db db' ∧
      db'.Owned (Function.update m query.sessionId ((m query.sessionId).mapRow f)) := by
  unfold TurnTables.markAcknowledged at hok
  rcases hfind : db.findAcceptedQueueTurn query with _ | receipt <;> rw [hfind] at hok <;>
    cases hok
  have hreceipt : receipt ∈ db.turnIngress.rows ∧ receipt.sessionId = query.sessionId := by
    unfold findAcceptedQueueTurn at hfind
    rw [Option.filter_eq_some_iff] at hfind
    have hkey := List.find?_some hfind.1
    rw [Bool.and_eq_true] at hkey
    exact ⟨List.mem_of_find?_eq_some hfind.1, beq_iff_eq.1 hkey.1⟩
  refine ⟨fun r => if r.turnId == receipt.turnId then { r with queueAcknowledgedAtMs := some now }
    else r, fun r => by dsimp only; split_ifs <;> rfl, evolves_acknowledgeTurns _ _,
    h.move (fun t ht => ⟨rfl, ?_⟩) ?_ ?_⟩
  · rw [acceptedTurns_acknowledgeTurns]
    refine (List.map_congr_left fun r hr => ?_).trans (List.map_id _)
    have hr := mem_acceptedTurns.1 hr
    refine if_neg fun heq => ht ?_
    rw [← hr.2.1, turn_unique hr.1 hreceipt.1 (beq_iff_eq.1 heq), hreceipt.2]
  · rw [lock_acknowledgeTurns, (h _).1, Ownership.lock_mapRow]
  · rw [acceptedTurns_acknowledgeTurns, (h _).2, Ownership.accepted_mapRow]

end TurnTables

namespace TurnRepository

/-- A settlement to be retried is kept under its own Session. -/
def Keyed (r : TurnRepository) : Prop :=
  ∀ s p, r.pendingSettlements s = some p → p.sessionId = s

variable {r : TurnRepository} {options : TurnRepositoryOptions}

theorem Keyed.recordPending (h : r.Keyed) (p : PendingSettlement) : (r.recordPending p).Keyed := by
  intro s q hq
  rw [recordPending_pending] at hq
  split_ifs at hq with hs
  · rw [hs, Option.some.inj hq]
  · exact h s q hq

theorem Keyed.forgetPending (h : r.Keyed) (t : String) : (r.forgetPending t).Keyed := by
  intro s q hq
  rw [forgetPending_pending] at hq
  split_ifs at hq
  exact h s q hq

/-- The owners after a call: the Sessions it names move by `OwnerStep` and the others stay. -/
def OwnersMove (options : TurnRepositoryOptions) (r : TurnRepository) (e : TurnEvent)
    (response : TurnResponse) (m m' : String → Ownership) : Prop :=
  ∀ s, if e.names s then
      OwnerStep options.lease (r.pendingSettlements s) r.nowMs e response (m s) (m' s)
    else m' s = m s

theorem OwnersMove.named {e : TurnEvent} {response : TurnResponse} {m' : String → Ownership}
    (h : OwnersMove options r e response m m') (hs : e.names s) :
    OwnerStep options.lease (r.pendingSettlements s) r.nowMs e response (m s) (m' s) := by
  have := h s
  rwa [if_pos hs] at this

theorem ownersMove_update {e : TurnEvent} {response : TurnResponse} {o : Ownership}
    (hs : ∀ t, e.names t = (s == t))
    (h : OwnerStep options.lease (r.pendingSettlements s) r.nowMs e response (m s) o) :
    OwnersMove options r e response m (Function.update m s o) := by
  intro t
  rw [hs t]
  rcases eq_or_ne t s with rfl | hts
  · rw [if_pos (beq_self_eq_true t), Function.update_self]
    exact h
  · rw [if_neg (by simpa using hts.symm), Function.update_of_ne hts]

theorem ownersMove_same {e : TurnEvent} {response : TurnResponse}
    (h : ∀ s, e.names s →
      OwnerStep options.lease (r.pendingSettlements s) r.nowMs e response (m s) (m s)) :
    OwnersMove options r e response m m := by
  intro t
  split_ifs with ht
  · exact h t ht
  · rfl

/-- What a call does: the tables evolve, the owners move, and the retry record stays keyed. -/
structure Moves (options : TurnRepositoryOptions) (r : TurnRepository) (e : TurnEvent)
    (m m' : String → Ownership) : Prop where
  evolves : r.tables.Evolves (r.step options e).1.tables
  owned : (r.step options e).1.tables.Owned m'
  keyed : (r.step options e).1.Keyed
  moves : OwnersMove options r e (r.step options e).2 m m'

theorem Moves.threw {e : TurnEvent} {error : TurnError} (h : r.tables.Owned m) (hk : r.Keyed)
    (hstep : r.step options e = (r, .threw error)) : Moves options r e m m where
  evolves := by rw [hstep]; exact TurnTables.Evolves.refl _
  owned := by rw [hstep]; exact h
  keyed := by rw [hstep]; exact hk
  moves := by rw [hstep]; exact ownersMove_same fun s _ => .threw e error _

/-- A call that commits tables and leaves the retry record. -/
theorem Moves.commit {e : TurnEvent} {response : TurnResponse} {tables : TurnTables}
    {m' : String → Ownership} (hk : r.Keyed)
    (hstep : r.step options e = ({ r with tables }, response))
    (hevolves : r.tables.Evolves tables) (howned : tables.Owned m')
    (hmoves : OwnersMove options r e response m m') : Moves options r e m m' where
  evolves := by rw [hstep]; exact hevolves
  owned := by rw [hstep]; exact howned
  keyed := by rw [hstep]; exact hk
  moves := by rw [hstep]; exact hmoves

/-- A call that commits tables and forgets the settlement to be retried. -/
theorem Moves.forget {e : TurnEvent} {response : TurnResponse} {tables : TurnTables}
    {m' : String → Ownership} (hk : r.Keyed)
    (hstep : r.step options e = ({ r with tables }.forgetPending s, response))
    (hevolves : r.tables.Evolves tables) (howned : tables.Owned m')
    (hmoves : OwnersMove options r e response m m') : Moves options r e m m' where
  evolves := by rw [hstep]; exact hevolves
  owned := by rw [hstep]; exact howned
  keyed := by rw [hstep]; exact Keyed.forgetPending (r := { r with tables }) hk s
  moves := by rw [hstep]; exact hmoves

theorem moves_admitTurn (h : r.tables.Owned m) (hk : r.Keyed) (input : AdmitTurnInput)
    (verdicts : AdmitVerdicts) : ∃ m', Moves options r (.admitTurn input verdicts) m m' := by
  rcases hadmission : r.tables.admitTransaction input (r.pendingSettlements input.sessionId) verdicts
      r.nowMs options.lease with error | ⟨tables, result⟩
  · have hstep : r.step options (.admitTurn input verdicts) = (r, .threw error) := by
      rw [step, admitTurn, hadmission]
    exact ⟨m, .threw h hk hstep⟩
  · have hstep : r.step options (.admitTurn input verdicts) =
        ({ r with tables }.forgetPending input.sessionId, .admitted result) := by
      rw [step, admitTurn, hadmission]
    have hev := TurnTables.evolves_admitTurn hadmission
    rcases h.admitTurn (hk _) hadmission with ⟨rejection, hblock, rfl, hresult⟩ |
      ⟨hblock, hresult, howned⟩ | ⟨hblock, hresult, hfree, row, hrow, howned⟩
    · exact ⟨m, .forget hk hstep hev h (ownersMove_same fun s hs => .admitBlocked _ hblock hresult)⟩
    · exact ⟨_, .forget hk hstep hev howned
        (ownersMove_update (fun _ => rfl) (.admitRefused _ hblock hresult))⟩
    · exact ⟨_, .forget hk hstep hev howned
        (ownersMove_update (fun _ => rfl) (.admitted _ hblock hresult hfree hrow))⟩

theorem moves_settle (h : r.tables.Owned m) (hk : r.Keyed) (input : SettleTurnInput)
    (thrown : Bool) : ∃ m', Moves options r (.settle input thrown) m m' := by
  rcases hsettle : (if thrown then .error .thrown else r.tables.settleInTransaction input r.nowMs :
    Except TurnError (TurnTables × SettleTurnResult)) with error | ⟨tables, result⟩
  · have hstep : r.step options (.settle input thrown) =
        (r.recordPending ⟨input.sessionId, input.turnId, input.leaseId⟩, .threw error) := by
      simp only [step, settle, hsettle]
    refine ⟨m, ⟨?_, ?_, ?_, ?_⟩⟩ <;> rw [hstep]
    · exact TurnTables.Evolves.refl _
    · exact h
    · exact hk.recordPending _
    · exact ownersMove_same fun s _ => .threw _ _ _
  · have hnot : thrown = false := by
      cases thrown
      · rfl
      · cases hsettle
    subst hnot
    have hstep : r.step options (.settle input false) =
        (if r.pendingSettlements input.sessionId =
            some ⟨input.sessionId, input.turnId, input.leaseId⟩ then
          { r with tables }.forgetPending input.sessionId
        else { r with tables }, .settled result) := by
      simp only [step, settle, hsettle]
    have hev := TurnTables.evolves_settle hsettle
    have howned := h.settle hsettle
    have hmoves : OwnersMove options r (.settle input false) (.settled result) m _ :=
      ownersMove_update (fun _ => rfl) (.settle input result _)
    split_ifs at hstep
    · exact ⟨_, .forget hk hstep hev howned hmoves⟩
    · exact ⟨_, .commit hk hstep hev howned hmoves⟩

/-- Each call moves the owners of the Sessions, and a restart leaves them owned. -/
theorem step_moves (options : TurnRepositoryOptions) (h : r.tables.Owned m) (hk : r.Keyed)
    (e : TurnEvent) :
    ∃ m', Moves options r e m m' := by
  cases e with
  | setClock nowMs =>
    exact ⟨m, TurnTables.Evolves.refl _, h, hk, ownersMove_same fun s hs => nomatch hs⟩
  | admitTurn input verdicts => exact moves_admitTurn h hk input verdicts
  | renew s leaseId =>
    exact ⟨_, .commit hk rfl (TurnTables.evolves_of_same rfl rfl rfl)
      (h.renew leaseId r.nowMs options.lease) (ownersMove_update (fun _ => rfl) (.renew s leaseId _ _))⟩
  | settle input thrown => exact moves_settle h hk input thrown
  | recoverExpired s =>
    exact ⟨_, .commit hk rfl (TurnTables.evolves_recoverExpired r.nowMs)
      (h.recoverExpired r.nowMs) (ownersMove_update (fun _ => rfl) (.recoverExpired s _ _))⟩
  | recoverProcessRestart started verdicts =>
    rcases hrestart : r.tables.recoverProcessRestartInTransaction verdicts started r.nowMs with
      error | ⟨tables, result⟩
    · exact ⟨m, .threw h hk (by rw [step, hrestart, transaction])⟩
    · have hstep : r.step options (.recoverProcessRestart started verdicts) =
          ({ r with tables }, .restarted result) := by rw [step, hrestart, transaction]
      obtain ⟨m', hm', hrel⟩ := h.recoverProcessRestart hrestart
      refine ⟨m', .commit hk hstep (TurnTables.evolves_recoverProcessRestart hrestart) hm'
        fun t => ?_⟩
      rw [if_pos (by rfl)]
      rcases hrel t with heq | heq <;> rw [heq]
      · exact .restartKept _
      · exact .restarted t _
  | revokeAdmission s turnId leaseId =>
    exact ⟨_, .commit hk rfl (TurnTables.evolves_revoke turnId leaseId) (h.revoke turnId leaseId)
      (ownersMove_update (fun _ => rfl) (.revoke s turnId leaseId _ _))⟩
  | tryAcquireSessionMaintenance s rejection leaseId =>
    rcases hacquire : r.tables.tryAcquireSessionMaintenance s rejection leaseId r.nowMs
      options.lease with error | ⟨tables, lease⟩
    · exact ⟨m, .threw h hk (by rw [step, hacquire, transaction])⟩
    · have hstep : r.step options (.tryAcquireSessionMaintenance s rejection leaseId) =
          ({ r with tables }, .acquired lease) := by rw [step, hacquire, transaction]
      have hev := TurnTables.evolves_tryAcquireMaintenance hacquire
      rcases h.tryAcquireMaintenance hacquire with ⟨hrejection, rfl, rfl⟩ | ⟨rfl, rfl, howned⟩ |
        ⟨rfl, hlease, hfree, howned⟩
      · exact ⟨m, .commit hk hstep hev h
          (ownersMove_same fun s _ => .maintenanceBlocked _ hrejection)⟩
      · exact ⟨_, .commit hk hstep hev howned (ownersMove_update (fun _ => rfl) (.maintenanceRefused _))⟩
      · obtain ⟨lease, rfl⟩ := Option.isSome_iff_exists.1 hlease
        exact ⟨_, .commit hk hstep hev howned
          (ownersMove_update (fun _ => rfl) (.maintenanceAcquired _ hfree))⟩
  | renewSessionMaintenance s leaseId =>
    exact ⟨_, .commit hk rfl (TurnTables.evolves_of_same rfl rfl rfl)
      (h.renewMaintenance leaseId r.nowMs options.lease)
      (ownersMove_update (fun _ => rfl) (.renewMaintenance s leaseId _ _))⟩
  | releaseSessionMaintenance s leaseId =>
    exact ⟨_, .commit hk rfl (TurnTables.evolves_releaseMaintenance leaseId r.nowMs)
      (h.releaseMaintenance leaseId r.nowMs)
      (ownersMove_update (fun _ => rfl) (.releaseMaintenance s leaseId _))⟩
  | beginSessionDeletion s verdicts =>
    rcases hbegin : r.tables.beginSessionDeletion s (r.pendingSettlements s) r.nowMs verdicts with
      error | ⟨tables, state⟩
    · exact ⟨m, .threw h hk (by rw [step, beginSessionDeletion, hbegin])⟩
    · have hstep : r.step options (.beginSessionDeletion s verdicts) =
          ({ r with tables }.forgetPending s, .deleting state) := by
        rw [step, beginSessionDeletion, hbegin]
      exact ⟨_, .forget hk hstep (TurnTables.evolves_beginDeletion hbegin)
        (h.beginDeletion (hk s) hbegin) (ownersMove_update (fun _ => rfl) (.beginDeletion s verdicts state _))⟩
  | deleteSessionData s =>
    rcases hdelete : r.tables.deleteSessionData s with error | tables
    · exact ⟨m, .threw h hk (by rw [step, deleteSessionData, hdelete])⟩
    · have hstep : r.step options (.deleteSessionData s) =
          ({ r with tables }.forgetPending s, .done) := by rw [step, deleteSessionData, hdelete]
      obtain ⟨howned, hempty⟩ := h.deleteSessionData hdelete
      refine ⟨m, .forget hk hstep (TurnTables.evolves_deleteSessionData hdelete) howned
        (ownersMove_same fun t ht => .deleteData _ ?_)⟩
      rw [← beq_iff_eq.1 ht]
      exact hempty
  | completeSessionDeletion s isLeaseOwnerCurrent =>
    rcases hcomplete : r.tables.completeSessionDeletion s isLeaseOwnerCurrent with error | tables
    · exact ⟨m, .threw h hk (by rw [step, hcomplete]; rfl)⟩
    · have hstep : r.step options (.completeSessionDeletion s isLeaseOwnerCurrent) =
          ({ r with tables }, .done) := by
        rw [step, hcomplete]
        rfl
      exact ⟨_, .commit hk hstep (TurnTables.evolves_completeDeletion hcomplete)
        (h.completeDeletion hcomplete) (ownersMove_update (fun _ => rfl) (.completeDeletion s _ _))⟩
  | reserveSteeringReceipt input =>
    rcases hreserve : r.tables.reserveSteeringReceipt input with error | ⟨tables, result⟩
    · exact ⟨m, .threw h hk (by rw [step, hreserve, transaction])⟩
    · have hstep : r.step options (.reserveSteeringReceipt input) =
          ({ r with tables }, .reserved result) := by rw [step, hreserve, transaction]
      have hsame : tables.turnIngress = r.tables.turnIngress ∧
          tables.lastSequence = r.tables.lastSequence ∧
          tables.sessionLocks = r.tables.sessionLocks ∧
          tables.turnIngressSequences = r.tables.turnIngressSequences := by
        unfold TurnTables.reserveSteeringReceipt at hreserve
        dsimp only at hreserve
        split at hreserve
        · cases hreserve
          exact ⟨rfl, rfl, rfl, rfl⟩
        · cases hreserve
          exact ⟨rfl, rfl, rfl, rfl⟩
        · simp only [bind, Except.bind] at hreserve
          split at hreserve <;> cases hreserve
          exact ⟨rfl, rfl, rfl, rfl⟩
      refine ⟨m, .commit hk hstep (TurnTables.evolves_of_same hsame.2.1 hsame.1 hsame.2.2.2)
        (fun t => ?_) (ownersMove_same fun s _ => .reserve input result _)⟩
      rw [TurnTables.findSessionLock, TurnTables.acceptedTurns, hsame.1, hsame.2.2.1]
      exact h t
  | releaseSteeringReceipt input =>
    exact ⟨m, .commit hk rfl (TurnTables.evolves_of_same rfl rfl rfl) h
      (ownersMove_same fun s _ => .releaseReceipt input _)⟩
  | markAcknowledged query =>
    rcases hmark : r.tables.markAcknowledged query r.nowMs with error | tables
    · exact ⟨m, .threw h hk (by rw [step, hmark]; rfl)⟩
    · have hstep : r.step options (.markAcknowledged query) = ({ r with tables }, .done) := by
        rw [step, hmark]
        rfl
      obtain ⟨f, hf, hev, howned⟩ := h.markAcknowledged hmark
      exact ⟨_, .commit hk hstep hev howned (ownersMove_update (fun _ => rfl) (.acknowledge _ hf))⟩

theorem initial_owned : TurnTables.Owned initial.tables fun _ => .free := fun _ => ⟨rfl, rfl⟩

theorem initial_keyed : initial.Keyed := by
  intro s p hp
  cases hp

/-- Every Session is owned and every settlement to be retried is kept under its own. -/
theorem owned_of_reachable (h : (turnMachine options).Reachable r) :
    (∃ m, r.tables.Owned m) ∧ r.Keyed := by
  refine h.invariant (P := fun r => (∃ m, r.tables.Owned m) ∧ r.Keyed) ?_ ?_
  · exact ⟨⟨_, initial_owned⟩, initial_keyed⟩
  · rintro r e ⟨⟨m, hm⟩, hk⟩
    obtain ⟨m', hmoves⟩ := step_moves options hm hk e
    exact ⟨⟨m', hmoves.owned⟩, hmoves.keyed⟩

theorem evolves_of_run (h : (turnMachine options).Reachable r) (es : List TurnEvent) :
    r.tables.Evolves ((turnMachine options).after r es).tables := by
  refine (turnMachine options).after_relation (R := fun a b => a.tables.Evolves b.tables)
    (P := (turnMachine options).Reachable) (fun _ => TurnTables.Evolves.refl _)
    (fun h h' => h.trans h') (fun _ e hr _ => hr.step e) (fun r e hr _ => ?_) h
    ((turnMachine options).along_true r es)
  obtain ⟨⟨m, hm⟩, hk⟩ := owned_of_reachable hr
  obtain ⟨m', hmoves⟩ := step_moves options hm hk e
  exact hmoves.evolves

/-- The sequence of a stored row was handed out. -/
theorem sequence_le_of_reachable (h : (turnMachine options).Reachable r) {row : TurnIngress}
    (hrow : row ∈ r.tables.turnIngress.rows) : row.acceptedSequence ≤ r.tables.lastSequence := by
  obtain ⟨es, rfl⟩ := h
  rcases (evolves_of_run (turnMachine options).reachable_initial es).rows row hrow with
    hnew | ⟨row₀, hrow₀, -⟩
  · exact hnew.2
  · exact absurd hrow₀ List.not_mem_nil

end TurnRepository

/-- A Session is owned by a Turn exactly when its lock is of a kind a Turn holds. -/
theorem TurnTables.Owned.length_accepted {db : TurnTables} (h : db.Owned m) :
    (db.acceptedTurns s).length =
      if (db.findSessionLock s).any (·.ownerKind.holdsTurn) then 1 else 0 := by
  rw [(h s).1, (h s).2]
  rcases m s with _ | ⟨_ | _, _ | _, lease, row⟩ | ⟨_ | _, lease⟩ | lease <;> rfl

/-- At every reachable state a Session has at most one accepted row, it has one exactly when its
lock is a Turn's, and a row that ended has the status it ended with in every run from there. A row
is known by its sequence, which is never handed out again. -/
theorem turn_ownership {options : TurnRepositoryOptions} {r : TurnRepository}
    (h : (turnMachine options).Reachable r) (s : String) :
    (r.tables.acceptedTurns s).length ≤ 1 ∧
      (r.tables.acceptedTurns s ≠ [] →
        ∃ lock, r.tables.findSessionLock s = some lock ∧ lock.ownerKind.holdsTurn) ∧
      (∀ lock, r.tables.findSessionLock s = some lock → lock.ownerKind.holdsTurn →
        (r.tables.acceptedTurns s).length = 1) ∧
      ∀ es, ∀ row ∈ r.tables.turnIngress.rows, row.status ≠ .accepted →
        ∀ row' ∈ ((turnMachine options).after r es).tables.turnIngress.rows,
          row'.acceptedSequence = row.acceptedSequence → row'.status = row.status := by
  obtain ⟨⟨m, hm⟩, hk⟩ := TurnRepository.owned_of_reachable h
  have hlength := hm.length_accepted (s := s)
  refine ⟨?_, fun hne => ?_, fun lock hl hkind => ?_, fun es row hrow hend row' hrow' hseq => ?_⟩
  · rw [hlength]
    split_ifs <;> omega
  · have hheld : (r.tables.findSessionLock s).any (·.ownerKind.holdsTurn) = true := by
      by_contra hno
      rw [if_neg hno] at hlength
      exact hne (List.length_eq_zero_iff.1 hlength)
    exact (Option.any_eq_true _ _).1 hheld
  · rw [hlength, hl, Option.any_some, if_pos hkind]
  · rcases (TurnRepository.evolves_of_run h es).rows row' hrow' with hnew | ⟨row₀, hrow₀, hseq₀, hkeep⟩
    · have := TurnRepository.sequence_le_of_reachable h hrow
      omega
    · have heq : row₀ = row := Constraint.unique_inj r.tables.turnIngress.holds.2.2.2 hrow₀ hrow rfl
        (congrArg some (hseq.symm.trans hseq₀.symm))
      rw [← heq]
      exact hkeep (heq ▸ hend)

/-- An admitted Turn is the one accepted row of its Session. -/
theorem turn_ownership_admitted :
    (((turnMachine ⟨none⟩).after .initial [.admitTurn (plainTurn "s" "t") (.granting "lease")]
      ).tables.acceptedTurns "s").length = 1 :=
  (turn_ownership ⟨_, rfl⟩ "s").2.2.1 ⟨"s", "lease", .turn, 0, 1800000⟩ rfl rfl

end Kinetick
