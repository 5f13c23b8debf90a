import Kinetick.Goal.Guarantees

/-!
# What an operation makes of a row

Every operation but a create rewrites rows of one Goal or none. `RowLaw` is what it may make of a
row: a decision moves an active row to a later epoch (`RowLaw.of_active`), a wait or a kickoff
leaves what is read at an epoch (`RowLaw.of_same`), and a charge and a patch have lemmas of their
own.
-/

namespace Kinetick.Goal

open Effect

/-- What a row reads as, of what may only change with its epoch. -/
structure SameReading (r r' : ThreadGoalDbRow) : Prop where
  status : readStatus r'.status = readStatus r.status
  statusReason : r'.statusReason = r.statusReason
  objective : r'.objective = r.objective
  objectiveResources : r'.objectiveResources = r.objectiveResources
  tokenBudget : r'.tokenBudget = r.tokenBudget
  replyFingerprint : r'.replyFingerprint = r.replyFingerprint
  noProgressStreak : r'.noProgressStreak = r.noProgressStreak
  noToolStreak : r'.noToolStreak = r.noToolStreak
  lastVerification : r'.lastVerification = r.lastVerification

/-- The row a patch rearms: limited by its tokens before, active with a budget that allows it. -/
def RearmsRow (e : StoreEvent) (r r' : ThreadGoalDbRow) : Prop :=
  ∃ input now, e = .patch r.goalId input now ∧ r.statusReason = some (.budgetLimited .token) ∧
    r'.status = some .active ∧
    (input.tokenBudget = some none ∧ r'.tokenBudget = none ∨
      ∃ budget, r'.tokenBudget = some budget ∧ r'.tokensUsed < budget)

structure RowLaw (e : StoreEvent) (r r' : ThreadGoalDbRow) : Prop where
  goalId : r'.goalId = r.goalId
  sessionId : r'.sessionId = r.sessionId
  objective : r.objective ≠ "" → r'.objective ≠ ""
  tokensUsed : r.tokensUsed ≤ r'.tokensUsed
  turnsUsed : r.turnsUsed ≤ r'.turnsUsed
  timeUsedSeconds : r.timeUsedSeconds ≤ r'.timeUsedSeconds
  updatedAtMs : r.updatedAtMs ≤ r'.updatedAtMs
  unmoved : r'.updatedAtMs = r.updatedAtMs → SameReading r r'
  complete : r.status = some .complete → r'.status = some .complete
  limited : r.status = some .budgetLimited →
    r'.status = some .budgetLimited ∨ r'.status = some .complete ∨ RearmsRow e r r'

theorem SameReading.refl (r : ThreadGoalDbRow) : SameReading r r :=
  ⟨rfl, rfl, rfl, rfl, rfl, rfl, rfl, rfl, rfl⟩

variable {e : StoreEvent} {r r' : ThreadGoalDbRow}

theorem RowLaw.refl (e : StoreEvent) (r : ThreadGoalDbRow) : RowLaw e r r where
  goalId := rfl
  sessionId := rfl
  objective := id
  tokensUsed := le_rfl
  turnsUsed := le_rfl
  timeUsedSeconds := le_rfl
  updatedAtMs := le_rfl
  unmoved _ := .refl r
  complete := id
  limited := Or.inl

/-- A decision on an active row, at a later epoch. -/
theorem RowLaw.of_active (hactive : r.status = some .active) (hgoal : r'.goalId = r.goalId)
    (hsession : r'.sessionId = r.sessionId) (hobjective : r'.objective = r.objective)
    (htokens : r'.tokensUsed = r.tokensUsed) (hturns : r'.turnsUsed = r.turnsUsed)
    (htime : r'.timeUsedSeconds = r.timeUsedSeconds) (hlater : r.updatedAtMs < r'.updatedAtMs) :
    RowLaw e r r' where
  goalId := hgoal
  sessionId := hsession
  objective h := by rwa [hobjective]
  tokensUsed := htokens.ge
  turnsUsed := hturns.ge
  timeUsedSeconds := htime.ge
  updatedAtMs := hlater.le
  unmoved h := absurd h hlater.ne'
  complete h := by simp [hactive] at h
  limited h := by simp [hactive] at h

/-- A write of columns that say nothing about the Goal at its epoch. -/
theorem RowLaw.of_same (hgoal : r'.goalId = r.goalId) (hsession : r'.sessionId = r.sessionId)
    (htokens : r'.tokensUsed = r.tokensUsed) (hturns : r'.turnsUsed = r.turnsUsed)
    (htime : r'.timeUsedSeconds = r.timeUsedSeconds) (hepoch : r'.updatedAtMs = r.updatedAtMs)
    (hstatus : r'.status = r.status) (hsame : SameReading r r') : RowLaw e r r' where
  goalId := hgoal
  sessionId := hsession
  objective h := by rwa [hsame.objective]
  tokensUsed := htokens.ge
  turnsUsed := hturns.ge
  timeUsedSeconds := htime.ge
  updatedAtMs := hepoch.ge
  unmoved _ := hsame
  complete h := by rwa [hstatus]
  limited h := Or.inl (by rwa [hstatus])

/-! ### Tables row by row -/

/-- The rows of two tables are related one by one. -/
abbrev RowByRow (R : ThreadGoalDbRow → ThreadGoalDbRow → Prop) (db db' : GoalTable) : Prop :=
  List.Forall₂ R db.rows db'.rows

theorem RowByRow.refl (db : GoalTable) : RowByRow (RowLaw e) db db :=
  List.forall₂_same.2 fun r _ => .refl e r

theorem rowByRow_update {p : ThreadGoalDbRow → Bool} {f : ThreadGoalDbRow → ThreadGoalDbRow}
    {db : GoalTable} {hf : goalKeys.Fixes f} (h : ∀ r ∈ db.rows, p r → RowLaw e r (f r)) :
    RowByRow (RowLaw e) db (db.update p f hf) := by
  rw [RowByRow, Table.rows_update, List.forall₂_map_right_iff]
  refine List.forall₂_same.2 fun r hr => ?_
  split_ifs with hp
  · exact h r hr hp
  · exact .refl e r

theorem mem_of_selected {db : GoalTable} {goalId : String} {row : ThreadGoalDbRow}
    (h : db.rows.find? (·.goalId = goalId) = some row) : row ∈ db.rows ∧ row.goalId = goalId :=
  ⟨List.mem_of_find?_eq_some h, by simpa using List.find?_some h⟩

/-- The row of a goal id is the one a query of it answers. -/
theorem selected_of_mem {db : GoalTable} {row : ThreadGoalDbRow} (h : row ∈ db.rows) :
    db.rows.find? (·.goalId = row.goalId) = some row := by
  cases hfind : db.rows.find? (·.goalId = row.goalId) with
  | none => simpa using List.find?_eq_none.1 hfind row h
  | some found =>
    obtain ⟨hmem, hid⟩ := mem_of_selected hfind
    rw [Constraint.unique_inj db.holds.1 hmem h rfl (by rw [hid])]

theorem activeAt_iff {goalId : String} {epoch : ℤ} :
    activeAt goalId epoch r = true ↔
      r.goalId = goalId ∧ r.updatedAtMs = epoch ∧ r.status = some .active := by
  simp [activeAt, and_assoc]

/-! ### Reading a row -/

/-- A row that reads as a Goal. -/
def Readable (row : ThreadGoalDbRow) : Prop :=
  row.goalId ≠ "" ∧ row.sessionId ≠ "" ∧ row.objective ≠ ""

theorem rowToThreadGoalState_isSome {row : ThreadGoalDbRow} :
    (rowToThreadGoalState row).isSome ↔ Readable row := by
  unfold rowToThreadGoalState Readable
  split_ifs with h
  · simp only [Option.isSome_none, Bool.false_eq_true, false_iff]
    tauto
  · simp only [Option.isSome_some, true_iff]
    tauto

/-! ### The operations -/

theorem selectById_bind {α : Type} (goalId : String) (k : Option ThreadGoalDbRow → StoreM α)
    (db : GoalTable) :
    (selectById goalId >>= k) db = k (db.rows.find? (·.goalId = goalId)) db := rfl

theorem getById_bind {α : Type} (goalId : String) (k : Option ThreadGoalState → StoreM α)
    (db : GoalTable) :
    (getById goalId >>= k) db =
      k ((db.rows.find? (·.goalId = goalId)).bind rowToThreadGoalState) db := rfl

theorem updateWhere_bind {α : Type} {p : ThreadGoalDbRow → Bool}
    {f : ThreadGoalDbRow → ThreadGoalDbRow} (hgoal : ∀ r, (f r).goalId = r.goalId)
    (hsession : ∀ r, (f r).sessionId = r.sessionId) (k : ℕ → StoreM α) (db : GoalTable) :
    (updateWhere p f hgoal hsession >>= k) db =
      k (db.rows.countP p) (db.update p f (goalKeys_fixes hgoal hsession)) := rfl

theorem atomically_snd {α : Type} {m : StoreM α} {db : GoalTable} :
    (atomically m db).2 = (m db).2 ∨ (atomically m db).2 = db := by
  unfold atomically
  rcases m db with ⟨_ | _, db'⟩
  · exact Or.inr rfl
  · exact Or.inl rfl

/-- Whichever of two computations comes after a write, it leaves what the write left. -/
theorem snd_ite {α : Type} {c : Prop} [Decidable c] {m m' : StoreM α} {db : GoalTable}
    (hm : (m db).2 = db) (hm' : (m' db).2 = db) : ((if c then m else m') db).2 = db := by
  split_ifs
  · exact hm
  · exact hm'

theorem pauseActiveBySession_rows (sessionId : String) (reason : ThreadGoalStatusReason) (now : ℤ)
    (db : GoalTable) : RowByRow (RowLaw e) db (pauseActiveBySession sessionId reason now db).2 := by
  unfold pauseActiveBySession
  rw [updateWhere_bind, snd_ite rfl rfl]
  refine rowByRow_update fun r _ hp => ?_
  simp only [Bool.and_eq_true, decide_eq_true_eq] at hp
  exact .of_active hp.2 rfl rfl rfl rfl rfl rfl (by simp)

/-- Nothing is written, or the row that is active at an epoch, and not its objective. -/
def WritesActiveAt (goalId : String) (epoch : ℤ) (db db' : GoalTable) : Prop :=
  db' = db ∨ ∃ f, ∃ hf : goalKeys.Fixes f, db' = db.update (activeAt goalId epoch) f hf ∧
    ∀ r ∈ db.rows, activeAt goalId epoch r → (∀ e, RowLaw e r (f r)) ∧
      (f r).objective = r.objective

theorem WritesActiveAt.rows {goalId : String} {epoch : ℤ} {db db' : GoalTable}
    (h : WritesActiveAt goalId epoch db db') : RowByRow (RowLaw e) db db' := by
  rcases h with rfl | ⟨f, hf, rfl, hrow⟩
  · exact .refl _
  · exact rowByRow_update fun r hr hp => (hrow r hr hp).1 e

theorem writes_atomically {α : Type} {m : StoreM α} {goalId : String} {epoch : ℤ} {db : GoalTable}
    (h : WritesActiveAt goalId epoch db (m db).2) :
    WritesActiveAt goalId epoch db (atomically m db).2 := by
  rcases @atomically_snd α m db with heq | heq <;> rw [heq]
  · exact h
  · exact Or.inl rfl

theorem transitionActiveAtEpoch_writes (goalId : String) (expectedEpoch : ℤ) (input : AdmissionStop)
    (now : ℤ) (db : GoalTable) :
    WritesActiveAt goalId expectedEpoch db
      (transitionActiveAtEpoch goalId expectedEpoch input now db).2 := by
  unfold transitionActiveAtEpoch
  rw [updateWhere_bind, snd_ite rfl rfl]
  refine Or.inr ⟨_, _, rfl, fun r _ hp => ⟨fun e => ?_, rfl⟩⟩
  obtain ⟨-, hepoch, hactive⟩ := activeAt_iff.1 hp
  exact .of_active hactive rfl rfl rfl rfl rfl rfl (by simp [hepoch])

theorem resetBreakerAtEpoch_writes (goalId : String) (expectedEpoch now : ℤ) (db : GoalTable) :
    WritesActiveAt goalId expectedEpoch db
      (resetBreakerAtEpoch goalId expectedEpoch now db).2 := by
  unfold resetBreakerAtEpoch
  rw [updateWhere_bind, snd_ite rfl rfl]
  refine Or.inr ⟨_, _, rfl, fun r _ hp => ⟨fun e => ?_, rfl⟩⟩
  obtain ⟨-, hepoch, hactive⟩ := activeAt_iff.1 hp
  exact .of_active hactive rfl rfl rfl rfl rfl rfl (by simp [hepoch])

theorem transitionKickoffState_rows (goalId : String) (expected next : ThreadGoalKickoffState)
    (db : GoalTable) :
    RowByRow (RowLaw e) db (transitionKickoffState goalId expected next db).2 := by
  unfold transitionKickoffState
  rw [updateWhere_bind, snd_ite rfl rfl]
  exact rowByRow_update fun r _ _ => .of_same rfl rfl rfl rfl rfl rfl rfl
        ⟨rfl, rfl, rfl, rfl, rfl, rfl, rfl, rfl, rfl⟩

/-- What a transaction leaves is what its body leaves, or nothing changed. -/
theorem rowByRow_atomically {α : Type} {m : StoreM α} {db : GoalTable}
    (h : RowByRow (RowLaw e) db (m db).2) : RowByRow (RowLaw e) db (atomically m db).2 := by
  rcases @atomically_snd α m db with heq | heq <;> rw [heq]
  · exact h
  · exact .refl db

theorem setThreadGoalExecutionWait_writes (goalId : String) (expectedUpdatedAt : ℤ)
    (reason : ThreadGoalWaitReason) (now : ℤ) (db : GoalTable) :
    WritesActiveAt goalId expectedUpdatedAt db
      (setThreadGoalExecutionWait goalId expectedUpdatedAt reason now db).2 := by
  unfold setThreadGoalExecutionWait
  refine writes_atomically ?_
  rw [selectById_bind]
  cases (db.rows.find? (·.goalId = goalId)).filter
      (fun r => r.status = some .active && r.updatedAtMs = expectedUpdatedAt) with
  | none => exact Or.inl rfl
  | some current =>
    dsimp only
    split_ifs with hvisible
    · exact Or.inl rfl
    · rw [updateWhere_bind, snd_ite rfl rfl]
      exact Or.inr ⟨_, _, rfl, fun r _ _ => ⟨fun e =>
        .of_same rfl rfl rfl rfl rfl rfl rfl ⟨rfl, rfl, rfl, rfl, rfl, rfl, rfl, rfl, rfl⟩, rfl⟩⟩

theorem clearThreadGoalExecutionWait_writes (goalId : String) (expectedUpdatedAt : ℤ)
    (db : GoalTable) :
    WritesActiveAt goalId expectedUpdatedAt db
      (clearThreadGoalExecutionWait goalId expectedUpdatedAt db).2 := by
  unfold clearThreadGoalExecutionWait
  refine writes_atomically ?_
  rw [selectById_bind]
  cases (db.rows.find? (·.goalId = goalId)).filter
      (fun r => r.status = some .active && r.updatedAtMs = expectedUpdatedAt) with
  | none => exact Or.inl rfl
  | some current =>
    dsimp only
    split_ifs with hvisible
    · exact Or.inl rfl
    · rw [updateWhere_bind, snd_ite rfl rfl]
      exact Or.inr ⟨_, _, rfl, fun r _ _ => ⟨fun e =>
        .of_same rfl rfl rfl rfl rfl rfl rfl ⟨rfl, rfl, rfl, rfl, rfl, rfl, rfl, rfl, rfl⟩, rfl⟩⟩

variable (digest : String → String) (fingerprint : List String → String)

theorem settleThreadGoalBoundTurn_writes (input : ThreadGoalSettleBoundTurnInput) (now : ℤ)
    (db : GoalTable) :
    WritesActiveAt input.goalId input.expectedEpoch db
      (settleThreadGoalBoundTurn digest input now db).2 := by
  unfold settleThreadGoalBoundTurn
  refine writes_atomically ?_
  rw [getById_bind]
  cases (db.rows.find? (·.goalId = input.goalId)).bind rowToThreadGoalState with
  | none => exact Or.inl rfl
  | some state =>
    dsimp only
    cases threadGoalStaleDecision digest (some state) input.expectedEpoch
        input.objectiveDigest with
    | some stale => exact Or.inl rfl
    | none =>
      dsimp only
      rw [updateWhere_bind]
      rw [snd_ite rfl rfl]
      refine Or.inr ⟨_, _, rfl, fun r _ hp => ⟨fun e => ?_, rfl⟩⟩
      obtain ⟨-, hepoch, hactive⟩ := activeAt_iff.1 hp
      exact .of_active hactive rfl rfl rfl rfl rfl rfl (by simp [hepoch])

theorem recordThreadGoalVerification_writes (input : ThreadGoalRecordVerificationInput) (now : ℤ)
    (db : GoalTable) :
    WritesActiveAt input.goalId input.expectedEpoch db
      (recordThreadGoalVerification digest fingerprint input now db).2 := by
  unfold recordThreadGoalVerification
  refine writes_atomically ?_
  rw [getById_bind]
  cases (db.rows.find? (·.goalId = input.goalId)).bind rowToThreadGoalState with
  | none => exact Or.inl rfl
  | some state =>
    dsimp only
    cases threadGoalStaleDecision digest (some state) input.expectedEpoch
        input.objectiveDigest with
    | some stale => exact Or.inl rfl
    | none =>
      dsimp only
      rw [updateWhere_bind, snd_ite rfl rfl]
      refine Or.inr ⟨_, _, rfl, fun r _ hp => ⟨fun e => ?_, rfl⟩⟩
      obtain ⟨-, hepoch, hactive⟩ := activeAt_iff.1 hp
      exact .of_active hactive rfl rfl rfl rfl rfl rfl (by simp [hepoch])

/-- The row a Goal was read from. -/
theorem selected_of_read {db : GoalTable} {goalId : String} {state : ThreadGoalState}
    (h : (db.rows.find? (·.goalId = goalId)).bind rowToThreadGoalState = some state) :
    ∃ row ∈ db.rows, row.goalId = goalId ∧ rowToThreadGoalState row = some state ∧
      ∀ r ∈ db.rows, r.goalId = goalId → r = row := by
  obtain ⟨row, hfind, hread⟩ := Option.bind_eq_some_iff.1 h
  obtain ⟨hmem, hid⟩ := mem_of_selected hfind
  refine ⟨row, hmem, hid, hread, fun r hr hrid => ?_⟩
  have hfound := selected_of_mem hr
  rw [hrid, hfind] at hfound
  exact (Option.some.inj hfound).symm

/-- What is read of the columns a charge writes. -/
theorem charge_of_read {row : ThreadGoalDbRow} {state : ThreadGoalState}
    (h : rowToThreadGoalState row = some state) :
    state.status = readStatus row.status ∧ state.statusReason = row.statusReason ∧
      state.tokensUsed = row.tokensUsed ∧ state.turnsUsed = row.turnsUsed ∧
      state.timeUsedSeconds = row.timeUsedSeconds := by
  unfold rowToThreadGoalState at h
  split_ifs at h
  obtain rfl := Option.some.inj h
  exact ⟨rfl, rfl, rfl, rfl, rfl⟩

theorem keys_of_read {row : ThreadGoalDbRow} {state : ThreadGoalState}
    (h : rowToThreadGoalState row = some state) :
    state.goalId = row.goalId ∧ state.sessionId = row.sessionId := by
  unfold rowToThreadGoalState at h
  split_ifs at h
  obtain rfl := Option.some.inj h
  exact ⟨rfl, rfl⟩

theorem objective_of_read {row : ThreadGoalDbRow} {state : ThreadGoalState}
    (h : rowToThreadGoalState row = some state) : state.objective = row.objective := by
  unfold rowToThreadGoalState at h
  split_ifs at h
  obtain rfl := Option.some.inj h
  rfl

theorem updatedAt_of_read {row : ThreadGoalDbRow} {state : ThreadGoalState}
    (h : rowToThreadGoalState row = some state) : state.updatedAt = row.updatedAtMs := by
  unfold rowToThreadGoalState at h
  split_ifs at h
  obtain rfl := Option.some.inj h
  rfl

theorem breakerStale_snd (goalId : String) (expectedEpoch : ℤ) (db : GoalTable) :
    (breakerStale goalId expectedEpoch db).2 = db := by
  unfold breakerStale
  rw [getById_bind]
  cases (db.rows.find? (·.goalId = goalId)).bind rowToThreadGoalState with
  | none => rfl
  | some current => exact snd_ite rfl rfl

theorem updateThreadGoalBreaker_writes (goalId : String) (input : ThreadGoalBreakerInput) (now : ℤ)
    (db : GoalTable) : WritesActiveAt goalId input.expectedEpoch db
      (updateThreadGoalBreaker goalId input now db).2 := by
  unfold updateThreadGoalBreaker
  refine writes_atomically ?_
  rw [getById_bind]
  cases hstate : (db.rows.find? (·.goalId = goalId)).bind rowToThreadGoalState with
  | none => exact Or.inl rfl
  | some state =>
    obtain ⟨row, -, -, hread, honly⟩ := selected_of_read hstate
    dsimp only
    by_cases hsame : (scoreBreaker state input).unchanged state = true
    · rw [if_pos hsame, snd_ite rfl (snd_ite rfl rfl)]
      exact Or.inl rfl
    · rw [if_neg hsame, updateWhere_bind, snd_ite (breakerStale_snd ..) rfl]
      refine Or.inr ⟨_, _, rfl, fun r hr hp => ⟨fun e => ?_, rfl⟩⟩
      obtain ⟨hid, -, hactive⟩ := activeAt_iff.1 hp
      obtain rfl := honly r hr hid
      exact .of_active hactive rfl rfl rfl rfl rfl rfl (by simp [updatedAt_of_read hread])

/-! ### Charging a Turn -/

section Charged

variable (state : ThreadGoalState) (staleReason : Option StaleReason)
  (delta : ThreadGoalBoundUsageDelta) (limits : ThreadGoalBudgetLimits) (now : ℤ)

theorem charged_of_inactive (h : state.status ≠ .active) :
    (charged state staleReason delta limits now).1.status = state.status ∧
      (charged state staleReason delta limits now).1.statusReason = state.statusReason := by
  simp [charged, h]

theorem charged_updatedAt :
    state.updatedAt ≤ (charged state staleReason delta limits now).1.updatedAt := by
  unfold charged
  dsimp only
  split_ifs <;> omega

/-- A charge that leaves the epoch decides nothing. -/
theorem charged_unmoved
    (h : (charged state staleReason delta limits now).1.updatedAt = state.updatedAt) :
    (charged state staleReason delta limits now).1.status = state.status ∧
      (charged state staleReason delta limits now).1.statusReason = state.statusReason := by
  by_cases hactive : state.status = .active
  · unfold charged at h ⊢
    simp only [hactive, reduceCtorEq, false_or, ↓reduceIte] at h ⊢
    cases hdimension : firstExceededBudget (state.tokensUsed + numericOrZero delta.tokens)
        (state.turnsUsed + delta.mainTurns)
        (state.timeUsedSeconds + numericOrZero delta.activeSeconds) limits with
    | none => simp
    | some dimension =>
      simp only [hdimension, Option.isNone_some, Bool.false_eq_true, and_false, ↓reduceIte] at h
      omega
  · exact charged_of_inactive state staleReason delta limits now hactive

end Charged

theorem rowLaw_charged {row : ThreadGoalDbRow} {state : ThreadGoalState}
    (hread : rowToThreadGoalState row = some state) (staleReason : Option StaleReason)
    (delta : ThreadGoalBoundUsageDelta) (limits : ThreadGoalBudgetLimits) (now : ℤ) :
    RowLaw e row { row with
      tokensUsed := (charged state staleReason delta limits now).1.tokensUsed
      turnsUsed := (charged state staleReason delta limits now).1.turnsUsed
      timeUsedSeconds := (charged state staleReason delta limits now).1.timeUsedSeconds
      status := some (charged state staleReason delta limits now).1.status
      statusReason := (charged state staleReason delta limits now).1.statusReason
      updatedAtMs := (charged state staleReason delta limits now).1.updatedAt } := by
  obtain ⟨hstatus, hreason, htokens, hturns, htime⟩ := charge_of_read hread
  have hinactive := charged_of_inactive state staleReason delta limits now
  have hepoch := updatedAt_of_read hread
  refine
    { goalId := rfl, sessionId := rfl, objective := id
      tokensUsed := ?_, turnsUsed := ?_, timeUsedSeconds := ?_
      updatedAtMs := hepoch ▸ charged_updatedAt state staleReason delta limits now
      unmoved := fun hsame => ?_
      complete := fun hcomplete => ?_
      limited := fun hlimited => Or.inl ?_ }
  · exact htokens ▸ Nat.le_add_right _ _
  · exact hturns ▸ Nat.le_add_right _ _
  · exact htime ▸ Nat.le_add_right _ _
  · obtain ⟨hs, hr⟩ := charged_unmoved state staleReason delta limits now (hsame.trans hepoch.symm)
    exact ⟨by simp [readStatus, hs, hstatus], hr.trans hreason, rfl, rfl, rfl, rfl, rfl, rfl, rfl⟩
  · have hread : state.status = .complete := by rw [hstatus, hcomplete]; rfl
    simp [(hinactive (by simp [hread])).1, hread]
  · have hread : state.status = .budgetLimited := by rw [hstatus, hlimited]; rfl
    simp [(hinactive (by simp [hread])).1, hread]

theorem bumpThreadGoalBoundUsage_rows (binding : GoalTurnBinding)
    (delta : ThreadGoalBoundUsageDelta) (limits : ThreadGoalBudgetLimits) (now : ℤ)
    (db : GoalTable) :
    RowByRow (RowLaw e) db (bumpThreadGoalBoundUsage digest binding delta limits now db).2 := by
  unfold bumpThreadGoalBoundUsage
  refine rowByRow_atomically ?_
  rw [getById_bind]
  cases hstate : (db.rows.find? (·.goalId = binding.goalId)).bind rowToThreadGoalState with
  | none => exact .refl db
  | some state =>
    obtain ⟨row, -, -, hread, honly⟩ := selected_of_read hstate
    dsimp only
    split_ifs with hnothing
    · exact .refl db
    · rw [updateWhere_bind, pure_apply]
      dsimp only
      refine rowByRow_update fun r hr hp => ?_
      obtain rfl := honly r hr (by simpa using hp)
      exact rowLaw_charged hread _ delta limits now

/-! ### Patching -/

section Patched

variable {row : ThreadGoalDbRow} {state : ThreadGoalState} {input : ThreadGoalPatchInput}

theorem tokenBudget_patched (now : ℤ) {budget : Option JsNumber}
    (h : input.tokenBudget = some budget) :
    (patched state input now).tokenBudget = budget.bind positiveOrNull := by
  simp [patched, h]

/-- What a patch that makes a Goal active was not refused for. -/
theorem of_not_refused (hrefusal : patchRefusal (some row) state input = none)
    (hactive : input.status = some .active) :
    (state.status = .budgetLimited → resumesTokenLimited state input = true) ∧
      state.status ≠ .complete := by
  unfold patchRefusal at hrefusal
  dsimp only at hrefusal
  by_cases hcurrent : some state.status = input.rejectIfCurrentStatus
  · simp [hcurrent] at hrefusal
  rw [if_neg hcurrent] at hrefusal
  split at hrefusal
  · cases hrefusal
  split at hrefusal
  · cases hrefusal
  split at hrefusal
  · cases hrefusal
  by_cases hlimited : state.status = .budgetLimited ∧ resumesTokenLimited state input = false
  · simp [hactive, hlimited] at hrefusal
  refine ⟨fun h => by simpa [h] using hlimited, fun hcomplete => ?_⟩
  simp only [hactive, hcomplete, true_and, reduceCtorEq, false_and, ↓reduceIte] at hrefusal
  split_ifs at hrefusal

theorem of_resumesTokenLimited (h : resumesTokenLimited state input = true) :
    state.statusReason = some (.budgetLimited .token) ∧
      (input.tokenBudget = some none ∨ ∃ budget, input.tokenBudget = some (some budget) ∧
        JsNumber.lt (.finite state.tokensUsed) budget = true) := by
  unfold resumesTokenLimited at h
  simp only [Bool.and_eq_true, decide_eq_true_eq] at h
  obtain ⟨⟨-, hreason⟩, hbudget⟩ := h
  refine ⟨hreason, ?_⟩
  rcases htoken : input.tokenBudget with _ | _ | budget <;> rw [htoken] at hbudget
  · cases hbudget
  · exact Or.inl rfl
  · exact Or.inr ⟨budget, rfl, hbudget⟩

end Patched

theorem goalId_of_patchable {goalId : String} {input : ThreadGoalPatchInput} {r : ThreadGoalDbRow}
    (h : patchable goalId input r = true) : r.goalId = goalId := by
  simp only [patchable, Bool.and_eq_true, decide_eq_true_eq] at h
  exact h.1.1.1

theorem patchConflict_snd (goalId : String) (input : ThreadGoalPatchInput) (db : GoalTable) :
    (patchConflict goalId input db).2 = db := by
  unfold patchConflict
  rw [getById_bind]
  cases (db.rows.find? (·.goalId = goalId)).bind rowToThreadGoalState with
  | none => rfl
  | some current =>
    dsimp only
    split_ifs
    · rfl
    · cases input.rejectIfObjectiveChangedFrom.filter (current.objective ≠ ·) with
      | some objective => rfl
      | none =>
        cases input.rejectIfUpdatedAtChangedFrom.filter (current.updatedAt ≠ ·) <;> rfl

/-- The table a patch leaves: the one it found, or the one its write makes. -/
theorem patchThreadGoal_snd (goalId : String) (input : ThreadGoalPatchInput) (now : ℤ)
    (db : GoalTable) :
    (patchThreadGoal goalId input now db).2 = db ∨ ∃ row ∈ db.rows, ∃ state,
      row.goalId = goalId ∧ rowToThreadGoalState row = some state ∧
      (∀ r ∈ db.rows, r.goalId = goalId → r = row) ∧
      patchRefusal (some row) state input = none ∧
      (patchThreadGoal goalId input now db).2.rows = db.rows.map fun r =>
        if patchable goalId input r then { r with
          status := some (patched state input now).status
          objective := (patched state input now).objective
          tokenBudget := (patched state input now).tokenBudget
          replyFingerprint := (patched state input now).replyFingerprint
          noProgressStreak := (patched state input now).noProgressStreak
          noToolStreak := (patched state input now).noToolStreak
          lastVerification := (patched state input now).lastVerification
          lastWorkerProposal := (patched state input now).lastWorkerProposal
          statusReason := (patched state input now).statusReason
          updatedAtMs := (patched state input now).updatedAt
          objectiveResources := (patched state input now).objectiveResources }
        else r := by
  unfold patchThreadGoal
  rw [selectById_bind]
  cases hstate : (db.rows.find? (·.goalId = goalId)).bind rowToThreadGoalState with
  | none => exact Or.inl rfl
  | some state =>
    obtain ⟨row, hmem, hid, hread, honly⟩ := selected_of_read hstate
    have hfind := selected_of_mem hmem
    rw [hid] at hfind
    rw [hfind]
    dsimp only
    cases hrefusal : patchRefusal (some row) state input with
    | some refusal => exact Or.inl rfl
    | none =>
      refine Or.inr ⟨row, hmem, state, hid, hread, honly, hrefusal, ?_⟩
      dsimp only
      rw [updateWhere_bind, snd_ite (patchConflict_snd ..) rfl]
      rfl

theorem patchThreadGoal_rows (goalId : String) (input : ThreadGoalPatchInput) (now : ℤ)
    (db : GoalTable) (issued : List String) (hobjective : input.objective ≠ some "")
    (hguarded : Guarded ⟨db, issued⟩ (.patch goalId input now)) :
    RowByRow (RowLaw (.patch goalId input now)) db (patchThreadGoal goalId input now db).2 := by
  rcases patchThreadGoal_snd goalId input now db with
    heq | ⟨row, hmem, state, hid, hread, honly, hrefusal, hrows⟩
  · rw [heq]
    exact .refl db
  · rw [RowByRow, hrows, List.forall₂_map_right_iff]
    refine List.forall₂_same.2 fun r hr => ?_
    split_ifs with hp
    swap
    · exact .refl _ r
    obtain rfl := honly r hr (goalId_of_patchable hp)
    obtain ⟨hstatus, hreason, htokens, -, -⟩ := charge_of_read hread
    have hepoch := updatedAt_of_read hread
    have hlater : r.updatedAtMs < (patched state input now).updatedAt := by
      simp [patched, hepoch]
    obtain ⟨hfinal, hlimit⟩ := hguarded state (List.mem_filterMap.2 ⟨r, hr, hread⟩)
      ((keys_of_read hread).1.trans hid)
    refine
      { goalId := rfl, sessionId := rfl, objective := fun h => ?_
        tokensUsed := le_rfl, turnsUsed := le_rfl, timeUsedSeconds := le_rfl
        updatedAtMs := hlater.le
        unmoved := fun h => absurd h hlater.ne'
        complete := fun hcomplete => ?_
        limited := fun hlimited => ?_ }
    · intro hempty
      rcases hinput : input.objective with _ | objective
      · exact h ((objective_of_read hread).symm.trans (by simpa [patched, hinput] using hempty))
      · exact hobjective (by simpa [patched, hinput] using hempty)
    · have hcomplete' : state.status = .complete := by rw [hstatus, hcomplete]; rfl
      rcases hinput : input.status with _ | status
      · simp [patched, hinput, hcomplete']
      · rcases hfinal hcomplete' status hinput with rfl | rfl
        · simp [patched, hinput]
        · exact absurd hcomplete' (of_not_refused hrefusal hinput).2
    · have hlimited' : state.status = .budgetLimited := by rw [hstatus, hlimited]; rfl
      rcases hinput : input.status with _ | status
      · exact Or.inl (by simp [patched, hinput, hlimited'])
      · rcases hlimit hlimited' status hinput with rfl | rfl | ⟨rfl, habove⟩
        · exact Or.inr (Or.inl (by simp [patched, hinput]))
        · exact Or.inl (by simp [patched, hinput])
        · obtain ⟨htoken, hbudget⟩ :=
            of_resumesTokenLimited ((of_not_refused hrefusal hinput).1 hlimited')
          refine Or.inr (Or.inr ⟨input, now, by rw [hid], hreason ▸ htoken,
            by simp [patched, hinput], ?_⟩)
          rcases hbudget with hnull | ⟨budget, hsome, hlt⟩
          · exact Or.inl ⟨hnull, tokenBudget_patched now hnull⟩
          · obtain ⟨limit, hpositive, hused⟩ := habove budget hsome hlt
            refine Or.inr ⟨limit, ?_, htokens ▸ hused⟩
            exact (tokenBudget_patched now hsome).trans hpositive

end Kinetick.Goal
