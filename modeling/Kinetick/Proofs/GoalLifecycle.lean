import Kinetick.Proofs.GoalWrites

/-!
# The lifecycle of a Goal along a run

A create puts a Goal with an id of its own in place of a complete one; any other operation takes
the table row by row. From what either makes of a table (`TableLaw`) follows what holds of one
operation, and by induction on the run that a complete Goal stays complete and that a limited one
is active again only once it was rearmed.
-/

namespace Kinetick.Goal

open Effect

variable {digest : String → String} {fingerprint : List String → String} {e : StoreEvent}

/-! ### One operation -/

/-- The row a create inserts. -/
def createdRow (input : ThreadGoalCreateInput) (goalId : String) (now : ℤ) : ThreadGoalDbRow where
  goalId
  sessionId := input.sessionId
  objective := input.objective
  status := some .active
  createdAtMs := now
  updatedAtMs := now
  tokenBudget := input.tokenBudget.bind positiveOrNull
  kickoffAttachments := input.kickoffAttachments
  kickoffState := .pending
  objectiveResources := input.objectiveResources

theorem selectBySession_bind {α : Type} (sessionId : String)
    (k : Option ThreadGoalDbRow → StoreM α) (db : GoalTable) :
    (selectBySession sessionId >>= k) db = k (db.rows.find? (·.sessionId = sessionId)) db := rfl

theorem change_bind {α : Type} (f : GoalTable → GoalTable) (k : Unit → StoreM α)
    (db : GoalTable) : (Effect.change f >>= k) db = k () (f db) := rfl

/-- A transaction leaves the table, or what an answer of its body leaves. -/
theorem atomically_cases {α : Type} {m : StoreM α} {db : GoalTable} :
    (atomically m db).2 = db ∨ ∃ a, m db = (.ok a, (atomically m db).2) := by
  unfold atomically
  rcases m db with ⟨_ | a, db'⟩
  · exact Or.inl rfl
  · exact Or.inr ⟨a, rfl⟩

/-- An insertion that is answered for has added the row. -/
theorem insertion_ok {α : Type} {row : ThreadGoalDbRow} {k : Option GoalTable → StoreM α} {a : α}
    {db db' : GoalTable} (h : (Effect.read (·.insert row) >>= k) db = (.ok a, db'))
    (hnone : k none db ≠ (.ok a, db')) (hsome : ∀ U, (k (some U) db).2 = U) :
    db'.rows = db.rows ++ [row] := by
  change k (db.insert row) db = (.ok a, db') at h
  cases hinsert : db.insert row with
  | none => exact absurd (hinsert ▸ h) hnone
  | some inserted =>
    rw [hinsert] at h
    have hdb := hsome inserted
    rw [h] at hdb
    obtain rfl := hdb
    exact Table.insert_eq_some hinsert

/-- A create leaves the table, or has put a new row in place of a complete Goal of the Session. -/
theorem create_rows (input : ThreadGoalCreateInput) (goalId : String) (now : ℤ) (db : GoalTable) :
    (create input goalId now db).2 = db ∨
      (∀ r ∈ db.rows, r.sessionId = input.sessionId → r.status = some .complete) ∧
      (create input goalId now db).2.rows =
        db.rows.filter (!·.sessionId = input.sessionId) ++ [createdRow input goalId now] := by
  unfold create
  rcases @atomically_cases _ _ db with heq | ⟨state, hok⟩
  · exact Or.inl heq
  refine Or.inr ?_
  rw [selectBySession_bind] at hok
  cases hfind : db.rows.find? (·.sessionId = input.sessionId) with
  | none =>
    rw [hfind] at hok
    have hnone : ∀ r ∈ db.rows, r.sessionId ≠ input.sessionId := by
      simpa using List.find?_eq_none.1 hfind
    refine ⟨fun r hr h => absurd h (hnone r hr), ?_⟩
    rw [insertion_ok hok nofun fun _ => rfl, List.filter_eq_self.2 (by simpa using hnone)]
    rfl
  | some row =>
    rw [hfind] at hok
    dsimp only at hok
    split_ifs at hok with hopen
    · cases hok
    · obtain ⟨hmem, hsession⟩ : row ∈ db.rows ∧ row.sessionId = input.sessionId :=
        ⟨List.mem_of_find?_eq_some hfind, by simpa using List.find?_some hfind⟩
      rw [change_bind] at hok
      refine ⟨fun r hr h => ?_, insertion_ok hok nofun fun _ => rfl⟩
      rw [Constraint.unique_inj db.holds.2 hr hmem rfl (by rw [h, hsession])]
      simpa using hopen

/-- What an operation makes of a table, after `issued` were issued: a row comes from one there was
or has an id of its own, and only a complete Goal is dropped. -/
structure TableLaw (e : StoreEvent) (issued : List String) (db db' : GoalTable) : Prop where
  source : ∀ r' ∈ db'.rows, (∃ r ∈ db.rows, RowLaw e r r') ∨
    r'.goalId ∉ issued ∧ r'.goalId ∈ e.issue issued
  kept : ∀ r ∈ db.rows, r.status = some .complete ∨ ∃ r' ∈ db'.rows, RowLaw e r r'

theorem RowByRow.tableLaw {issued : List String} {db db' : GoalTable}
    (h : RowByRow (RowLaw e) db db') : TableLaw e issued db db' where
  source r' hr' := Or.inl (by
    obtain ⟨i, hi, rfl⟩ := List.getElem_of_mem hr'
    exact ⟨_, List.getElem_mem (h.length_eq ▸ hi), h.get _ hi⟩)
  kept r hr := Or.inr (by
    obtain ⟨i, hi, rfl⟩ := List.getElem_of_mem hr
    exact ⟨_, List.getElem_mem (h.length_eq ▸ hi), h.get hi _⟩)

theorem create_tableLaw {issued : List String} (input : ThreadGoalCreateInput) (goalId : String)
    (now : ℤ) (db : GoalTable) (hfresh : goalId ∉ issued) :
    TableLaw (.create input goalId now) issued db (create input goalId now db).2 := by
  rcases create_rows input goalId now db with heq | ⟨hcomplete, hrows⟩
  · rw [heq]
    exact (RowByRow.refl db).tableLaw
  · constructor
    · intro r' hr'
      rw [hrows, List.mem_append, List.mem_singleton] at hr'
      rcases hr' with hr' | rfl
      · exact Or.inl ⟨r', List.mem_of_mem_filter hr', .refl _ r'⟩
      · exact Or.inr ⟨hfresh, List.mem_cons_self⟩
    · intro r hr
      by_cases hsession : r.sessionId = input.sessionId
      · exact Or.inl (hcomplete r hr hsession)
      · refine Or.inr ⟨r, ?_, .refl _ r⟩
        rw [hrows]
        exact List.mem_append_left _ (List.mem_filter.2 ⟨hr, by simpa using hsession⟩)

theorem apply_tableLaw {s : GoalStore} (hadmissible : Admissible s e) (hguarded : Guarded s e) :
    TableLaw e s.issued s.table (e.apply digest fingerprint s.table) := by
  cases e with
  | create input goalId now => exact create_tableLaw input goalId now s.table hadmissible
  | patch goalId input now =>
    exact (patchThreadGoal_rows goalId input now s.table s.issued hadmissible hguarded).tableLaw
  | pauseActiveBySession sessionId reason now =>
    exact (pauseActiveBySession_rows sessionId reason now s.table).tableLaw
  | transitionActiveAtEpoch goalId expectedEpoch input now =>
    exact (transitionActiveAtEpoch_writes goalId expectedEpoch input now s.table).rows.tableLaw
  | resetBreakerAtEpoch goalId expectedEpoch now =>
    exact (resetBreakerAtEpoch_writes goalId expectedEpoch now s.table).rows.tableLaw
  | bumpBoundUsage binding delta limits now =>
    exact (bumpThreadGoalBoundUsage_rows digest binding delta limits now s.table).tableLaw
  | settleBoundTurn input now =>
    exact (settleThreadGoalBoundTurn_writes digest input now s.table).rows.tableLaw
  | updateBreaker goalId input now =>
    exact (updateThreadGoalBreaker_writes goalId input now s.table).rows.tableLaw
  | recordVerification input now =>
    exact (recordThreadGoalVerification_writes digest fingerprint input now s.table).rows.tableLaw
  | setExecutionWaitAtEpoch goalId expectedUpdatedAt reason now =>
    exact (setThreadGoalExecutionWait_writes goalId expectedUpdatedAt reason now
      s.table).rows.tableLaw
  | clearExecutionWaitAtEpoch goalId expectedUpdatedAt =>
    exact (clearThreadGoalExecutionWait_writes goalId expectedUpdatedAt s.table).rows.tableLaw
  | transitionKickoffState goalId expected next =>
    exact (transitionKickoffState_rows goalId expected next s.table).tableLaw

theorem bound_writes {goalId : String} {epoch : ℤ} (h : e.bound = some (goalId, epoch))
    (db : GoalTable) : WritesActiveAt goalId epoch db (e.apply digest fingerprint db) := by
  cases e <;> cases h
  · exact transitionActiveAtEpoch_writes ..
  · exact resetBreakerAtEpoch_writes ..
  · exact settleThreadGoalBoundTurn_writes ..
  · exact updateThreadGoalBreaker_writes ..
  · exact recordThreadGoalVerification_writes ..
  · exact setThreadGoalExecutionWait_writes ..
  · exact clearThreadGoalExecutionWait_writes ..

/-! ### What the Goals of the store make of it -/

section Goals

variable {s : GoalStore} {g : ThreadGoalState} {r r' : ThreadGoalDbRow}

theorem mem_goals : g ∈ s.goals ↔ ∃ r ∈ s.table.rows, rowToThreadGoalState r = some g :=
  List.mem_filterMap

/-- A row that reads as a Goal reads as one after any operation. -/
theorem RowLaw.reads (h : RowLaw e r r') (hread : rowToThreadGoalState r = some g) :
    ∃ g', rowToThreadGoalState r' = some g' := by
  obtain ⟨hgoal, hsession, hobjective⟩ :=
    rowToThreadGoalState_isSome.1 (Option.isSome_iff_exists.2 ⟨g, hread⟩)
  exact Option.isSome_iff_exists.1 (rowToThreadGoalState_isSome.2
    ⟨h.goalId ▸ hgoal, h.sessionId ▸ hsession, h.objective hobjective⟩)

theorem RowLaw.evolves {g' : ThreadGoalState} (h : RowLaw e r r')
    (hread : rowToThreadGoalState r = some g) (hread' : rowToThreadGoalState r' = some g') :
    Evolves g g' := by
  unfold rowToThreadGoalState at hread hread'
  split_ifs at hread hread'
  obtain rfl := Option.some.inj hread
  obtain rfl := Option.some.inj hread'
  refine ⟨h.sessionId, h.tokensUsed, h.turnsUsed, h.timeUsedSeconds, h.updatedAtMs, fun hsame => ?_⟩
  obtain ⟨hstatus, hreason, hobjective, hresources, hbudget, hfingerprint, hprogress, htool,
    hverification⟩ := h.unmoved hsame
  exact ⟨hstatus, hreason, hobjective, hresources, by simp [hbudget], hfingerprint, hprogress,
    htool, by simp [hverification]⟩

theorem row_unique {db : GoalTable} (hr : r ∈ db.rows) (hr' : r' ∈ db.rows)
    (h : r'.goalId = r.goalId) : r' = r :=
  Constraint.unique_inj db.holds.1 hr' hr rfl (by rw [h])

theorem goals_single {g' : ThreadGoalState} (hg : g ∈ s.goals) (hg' : g' ∈ s.goals)
    (h : g.sessionId = g'.sessionId) : g = g' := by
  obtain ⟨r, hr, hread⟩ := mem_goals.1 hg
  obtain ⟨r', hr', hread'⟩ := mem_goals.1 hg'
  rw [(keys_of_read hread).2, (keys_of_read hread').2] at h
  obtain rfl := Constraint.unique_inj s.table.holds.2 hr' hr rfl (by rw [h])
  exact Option.some.inj (hread.symm.trans hread')

theorem status_of_read {status : ThreadGoalStatus} (hread : rowToThreadGoalState r = some g)
    (hstatus : status ≠ .paused) : g.status = status ↔ r.status = some status := by
  rw [(charge_of_read hread).1]
  rcases r.status with _ | _ <;> simp [readStatus, hstatus.symm]

/-- Where no Goal is active at the epoch, what is bound to it is read as if it had not run. -/
theorem WritesActiveAt.goals {goalId : String} {epoch : ℤ} {db : GoalTable}
    (h : WritesActiveAt goalId epoch s.table db)
    (hnone : ∀ g ∈ s.goals, g.goalId = goalId → g.updatedAt = epoch → g.status ≠ .active) :
    db.rows.filterMap rowToThreadGoalState = s.goals := by
  rcases h with rfl | ⟨f, hf, rfl, hrow⟩
  · rfl
  rw [Table.rows_update, List.filterMap_map]
  refine List.filterMap_congr fun r hr => ?_
  rw [Function.comp_apply]
  split_ifs with hp
  swap
  · rfl
  obtain ⟨hlaw, hobjective⟩ := hrow r hr hp
  obtain ⟨hid, hepoch, hactive⟩ := activeAt_iff.1 hp
  cases hread : rowToThreadGoalState r with
  | some g =>
    exact absurd ((status_of_read hread (by decide)).2 hactive)
      (hnone g (mem_goals.2 ⟨r, hr, hread⟩) ((keys_of_read hread).1.trans hid)
        ((updatedAt_of_read hread).trans hepoch))
  | none =>
    have hunreadable : ¬Readable r := by
      rw [← rowToThreadGoalState_isSome, hread]
      exact Bool.false_ne_true
    rw [← Option.not_isSome_iff_eq_none, rowToThreadGoalState_isSome]
    unfold Readable at hunreadable ⊢
    rwa [(hlaw (.clearExecutionWaitAtEpoch "" 0)).goalId,
      (hlaw (.clearExecutionWaitAtEpoch "" 0)).sessionId, hobjective]

/-- Where the epoch a patch is guarded by is not the Goal's, the patch writes nothing. -/
theorem patch_of_stale {goalId : String} {input : ThreadGoalPatchInput} {now epoch : ℤ}
    (hguard : input.rejectIfUpdatedAtChangedFrom = some epoch)
    (hnone : ∀ g ∈ s.goals, g.goalId = goalId → g.updatedAt ≠ epoch) :
    (patchThreadGoal goalId input now s.table).2 = s.table := by
  rcases patchThreadGoal_snd goalId input now s.table with
    heq | ⟨row, hmem, state, hid, hread, -, hrefusal, -⟩
  · exact heq
  · have hstale := hnone state (mem_goals.2 ⟨row, hmem, hread⟩) ((keys_of_read hread).1.trans hid)
    unfold patchRefusal at hrefusal
    dsimp only at hrefusal
    by_cases hcurrent : some state.status = input.rejectIfCurrentStatus
    · simp [hcurrent] at hrefusal
    rw [if_neg hcurrent] at hrefusal
    split at hrefusal
    · cases hrefusal
    · simp [hguard, Option.filter, hstale] at hrefusal

end Goals

/-- Every Goal has an id that was issued. -/
def Issued (s : GoalStore) : Prop := ∀ r ∈ s.table.rows, r.goalId ∈ s.issued

theorem issued_initial : Issued (storeMachine digest fingerprint).initial := by
  intro r hr
  cases hr

theorem issued_step {s : GoalStore} (h : Issued s) (hadmissible : Admissible s e)
    (hguarded : Guarded s e) : Issued ((storeMachine digest fingerprint).step s e).1 := by
  intro r' hr'
  rcases (apply_tableLaw hadmissible hguarded).source r' hr' with ⟨r, hr, hlaw⟩ | ⟨-, hissued⟩
  · rw [hlaw.goalId]
    have hr := h r hr
    cases e
    case create => exact List.mem_cons_of_mem _ hr
    all_goals exact hr
  · exact hissued

theorem lawful_step {s : GoalStore} (h : Issued s) (hadmissible : Admissible s e)
    (hguarded : Guarded s e) : Lawful digest fingerprint s e where
  single _ hg _ hg' := goals_single hg hg'
  kept g hg hopen := by
    obtain ⟨r, hr, hread⟩ := mem_goals.1 hg
    rcases (apply_tableLaw hadmissible hguarded).kept r hr with hcomplete | ⟨r', hr', hlaw⟩
    · exact absurd ((status_of_read hread (by decide)).2 hcomplete) hopen
    · obtain ⟨g', hread'⟩ := hlaw.reads hread
      refine ⟨g', mem_goals.2 ⟨r', hr', hread'⟩, ?_, (hlaw.evolves hread hread').sessionId⟩
      rw [(keys_of_read hread').1, (keys_of_read hread).1, hlaw.goalId]
  evolves g hg g' hg' hid := by
    obtain ⟨r, hr, hread⟩ := mem_goals.1 hg
    obtain ⟨r', hr', hread'⟩ := mem_goals.1 hg'
    rw [(keys_of_read hread').1, (keys_of_read hread).1] at hid
    rcases (apply_tableLaw hadmissible hguarded).source r' hr' with ⟨r₀, hr₀, hlaw⟩ | ⟨hnew, -⟩
    · obtain rfl := row_unique hr hr₀ (hlaw.goalId.symm.trans hid)
      exact hlaw.evolves hread hread'
    · exact absurd (hid ▸ h r hr) hnew
  bound _ _ hbound hnone := (bound_writes hbound s.table).goals hnone
  guardedPatch _ _ _ _ hpatch hguard hnone := by
    subst hpatch
    exact patch_of_stale hguard hnone

/-! ### Runs -/

/-- The Goal `goalId`, if it is there, reads as one and is in one of the `statuses`. -/
def Stays (statuses : List ThreadGoalStatus) (goalId : String) (s : GoalStore) : Prop :=
  goalId ∈ s.issued ∧ ∀ r ∈ s.table.rows, r.goalId = goalId →
    Readable r ∧ ∃ status ∈ statuses, r.status = some status

section Stays

variable {s : GoalStore} {goalId : String}

theorem stays_of_goal {statuses : List ThreadGoalStatus} {g : ThreadGoalState} (h : Issued s)
    (hg : g ∈ s.goals) (hstatus : g.status ∈ statuses) (hpaused : g.status ≠ .paused) :
    Stays statuses g.goalId s := by
  obtain ⟨r, hr, hread⟩ := mem_goals.1 hg
  rw [(keys_of_read hread).1]
  refine ⟨h r hr, fun r' hr' hid => ?_⟩
  obtain rfl := row_unique hr hr' hid
  exact ⟨rowToThreadGoalState_isSome.1 (Option.isSome_iff_exists.2 ⟨g, hread⟩), g.status, hstatus,
    (status_of_read hread hpaused).1 rfl⟩

theorem Stays.status {statuses : List ThreadGoalStatus} {g : ThreadGoalState}
    (h : Stays statuses goalId s) (hg : g ∈ s.goals) (hid : g.goalId = goalId) :
    g.status ∈ statuses := by
  obtain ⟨r, hr, hread⟩ := mem_goals.1 hg
  obtain ⟨-, status, hmem, hstatus⟩ := h.2 r hr ((keys_of_read hread).1.symm.trans hid)
  rwa [(charge_of_read hread).1, hstatus]

theorem RowLaw.readable {r r' : ThreadGoalDbRow} (h : RowLaw e r r') (hr : Readable r) :
    Readable r' :=
  ⟨h.goalId ▸ hr.1, h.sessionId ▸ hr.2.1, h.objective hr.2.2⟩

/-- The row of an issued id comes from one there was. -/
theorem source_of_issued (hadmissible : Admissible s e) (hguarded : Guarded s e)
    (h : goalId ∈ s.issued) {r' : ThreadGoalDbRow}
    (hr' : r' ∈ (e.apply digest fingerprint s.table).rows) (hid : r'.goalId = goalId) :
    ∃ r ∈ s.table.rows, r.goalId = goalId ∧ RowLaw e r r' := by
  rcases (apply_tableLaw hadmissible hguarded).source r' hr' with ⟨r, hr, hlaw⟩ | ⟨hnew, -⟩
  · exact ⟨r, hr, hlaw.goalId.symm.trans hid, hlaw⟩
  · exact absurd (hid ▸ h) hnew

theorem mem_issue {issued : List String} (h : goalId ∈ issued) : goalId ∈ e.issue issued := by
  cases e
  case create => exact List.mem_cons_of_mem _ h
  all_goals exact h

theorem complete_step (h : Stays [.complete] goalId s) (hadmissible : Admissible s e)
    (hguarded : Guarded s e) :
    Stays [.complete] goalId ((storeMachine digest fingerprint).step s e).1 := by
  refine ⟨mem_issue h.1, fun r' hr' hid => ?_⟩
  obtain ⟨r, hr, hrid, hlaw⟩ := source_of_issued hadmissible hguarded h.1 hr' hid
  obtain ⟨hreadable, hcomplete⟩ := h.2 r hr hrid
  exact ⟨hlaw.readable hreadable, .complete, by simp, hlaw.complete (by simpa using hcomplete)⟩

theorem tokenBudget_of_read {r : ThreadGoalDbRow} {g : ThreadGoalState}
    (h : rowToThreadGoalState r = some g) :
    g.tokenBudget = r.tokenBudget.bind fun budget => positiveOrNull (.finite budget) := by
  unfold rowToThreadGoalState at h
  split_ifs at h
  obtain rfl := Option.some.inj h
  rfl

theorem positiveOrNull_nat {budget : ℕ} (h : 0 < budget) :
    positiveOrNull (.finite budget) = some budget := by
  unfold positiveOrNull
  simp [h.ne']

theorem rearms_of_row {r r' : ThreadGoalDbRow} (hr : r ∈ s.table.rows) (hid : r.goalId = goalId)
    (hr' : r' ∈ (e.apply digest fingerprint s.table).rows) (hreadable : Readable r)
    (hlaw : RowLaw e r r') (hlimited : r.status = some .budgetLimited) (h : RearmsRow e r r') :
    Rearms digest fingerprint s e goalId := by
  obtain ⟨input, now, hpatch, hreason, hactive, hbudget⟩ := h
  obtain ⟨g, hread⟩ := Option.isSome_iff_exists.1 (rowToThreadGoalState_isSome.2 hreadable)
  obtain ⟨g', hread'⟩ := hlaw.reads hread
  refine ⟨input, now, hid ▸ hpatch, ⟨g, mem_goals.2 ⟨r, hr, hread⟩, ?_, ?_, ?_⟩,
    g', mem_goals.2 ⟨r', hr', hread'⟩, ?_, ?_, ?_⟩
  · exact (keys_of_read hread).1.trans hid
  · exact (status_of_read hread (by decide)).2 hlimited
  · exact (charge_of_read hread).2.1.trans hreason
  · rw [(keys_of_read hread').1, hlaw.goalId, hid]
  · exact (status_of_read hread' (by decide)).2 hactive
  · rw [tokenBudget_of_read hread', (charge_of_read hread').2.2.1]
    rcases hbudget with ⟨hnull, hnone⟩ | ⟨budget, hsome, hused⟩
    · exact Or.inl ⟨hnull, by simp [hnone]⟩
    · exact Or.inr ⟨budget, by simp [hsome, positiveOrNull_nat (by omega : 0 < budget)], hused⟩

/-- A limited Goal stays limited or is completed, unless the operation rearms it. -/
theorem limited_step (h : Stays [.budgetLimited, .complete] goalId s)
    (hadmissible : Admissible s e) (hguarded : Guarded s e) :
    Stays [.budgetLimited, .complete] goalId ((storeMachine digest fingerprint).step s e).1 ∨
      Rearms digest fingerprint s e goalId := by
  by_cases hrearms : Rearms digest fingerprint s e goalId
  · exact Or.inr hrearms
  refine Or.inl ⟨mem_issue h.1, fun r' hr' hid => ?_⟩
  obtain ⟨r, hr, hrid, hlaw⟩ := source_of_issued hadmissible hguarded h.1 hr' hid
  obtain ⟨hreadable, status, hmem, hstatus⟩ := h.2 r hr hrid
  refine ⟨hlaw.readable hreadable, ?_⟩
  simp only [List.mem_cons, List.not_mem_nil, or_false] at hmem
  rcases hmem with rfl | rfl
  · rcases hlaw.limited hstatus with hlimited | hcomplete | hrow
    · exact ⟨_, by simp, hlimited⟩
    · exact ⟨_, by simp, hcomplete⟩
    · exact absurd (rearms_of_row hr hrid hr' hreadable hlaw hstatus hrow) hrearms
  · exact ⟨_, by simp, hlaw.complete hstatus⟩

section Lifecycle

variable {es : List StoreEvent} {s : GoalStore}

/-- Along a run a limited Goal stays limited or is completed, until an operation rearms it. -/
theorem limited_run {goalId : String} (h : Stays [.budgetLimited, .complete] goalId s)
    (halong : (storeMachine digest fingerprint).Along (fun s e => Admissible s e ∧ Guarded s e)
      s es) :
    Stays [.budgetLimited, .complete] goalId ((storeMachine digest fingerprint).after s es) ∨
      ∃ sooner e later, es = sooner ++ e :: later ∧
        Rearms digest fingerprint ((storeMachine digest fingerprint).after s sooner) e goalId := by
  induction es generalizing s with
  | nil => exact Or.inl h
  | cons e es ih =>
    obtain ⟨⟨hadmissible, hguarded⟩, halong⟩ := halong
    rcases limited_step h hadmissible hguarded with hstays | hrearms
    · rcases ih hstays halong with hstays | ⟨sooner, e', later, rfl, hrearms⟩
      · exact Or.inl hstays
      · exact Or.inr ⟨e :: sooner, e', later, rfl, hrearms⟩
    · exact Or.inr ⟨[], e, es, rfl, hrearms⟩

theorem lifecycle_of_along
    (halong : (storeMachine digest fingerprint).Along (fun s e => Admissible s e ∧ Guarded s e)
      (storeMachine digest fingerprint).initial es) : Lifecycle digest fingerprint es where
  lawful := .of_invariant
    (fun s e h hG => ⟨issued_step h hG.1 hG.2, lawful_step h hG.1 hG.2⟩) issued_initial halong
  final before during hes g hg g' hg' hid := by
    subst hes
    rw [Machine.along_append] at halong
    rw [Machine.after_append] at hg'
    have hissued : Issued ((storeMachine digest fingerprint).after
        (storeMachine digest fingerprint).initial before) :=
      Machine.after_invariant _ (fun s e h hG => issued_step h hG.1 hG.2) issued_initial halong.1
    constructor
    · intro hcomplete
      have hstays := Machine.after_invariant _
        (fun s e h hG => complete_step h hG.1 hG.2)
        (stays_of_goal hissued hg (by simp [hcomplete]) (by simp [hcomplete])) halong.2
      rw [List.mem_singleton.1 (hstays.status hg' hid)]
      decide
    · intro hlimited hactive
      rcases limited_run (stays_of_goal hissued hg (by simp [hlimited]) (by simp [hlimited]))
        halong.2 with hstays | ⟨sooner, e, later, rfl, hrearms⟩
      · have hmem := hstays.status hg' hid
        rw [hactive] at hmem
        exact absurd hmem (by decide)
      · exact ⟨sooner, e, later, rfl, by rwa [Machine.after_append]⟩

/-! ### The lifecycle -/

end Lifecycle

end Stays

end Kinetick.Goal
