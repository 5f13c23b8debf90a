import Kinetick.Proofs.GoalLifecycle
import Mathlib.Data.List.Infix

/-!
# What is answered is what is read

A Goal that is read back after a write is the Goal that is answered. One that is built beside the
write is read the same from the row it was read of and written to, where the wait of an epoch is
gone once the epoch is later: no row has a wait of a later epoch than its own.
-/

namespace Kinetick.Goal

open Effect

variable {db : GoalTable} {row : ThreadGoalDbRow} {state g : ThreadGoalState}

/-! ### Reading by id -/

/-- The Goal that is read by an id. -/
def readById (goalId : String) (db : GoalTable) : Option ThreadGoalState :=
  (db.rows.find? (·.goalId = goalId)).bind rowToThreadGoalState

theorem getById_fst (goalId : String) (db : GoalTable) :
    (getById goalId db).1 = .ok (readById goalId db) := rfl

/-- A Goal that is read by anything is read by its id. -/
theorem readById_of_read {p : ThreadGoalDbRow → Bool}
    (h : (db.rows.find? p).bind rowToThreadGoalState = some g) : readById g.goalId db = some g := by
  obtain ⟨row, hfind, hread⟩ := Option.bind_eq_some_iff.1 h
  have hmem := List.mem_of_find?_eq_some hfind
  rw [readById, (keys_of_read hread).1, selected_of_mem hmem]
  exact hread

/-! ### Waits -/

/-- The wait of a row is of no later epoch. -/
def WaitsBehind (row : ThreadGoalDbRow) : Prop :=
  ∀ epoch ∈ row.executionWaitEpoch, epoch ≤ row.updatedAtMs

/-- No row of the table has a wait of a later epoch. -/
def Settled (db : GoalTable) : Prop := ∀ r ∈ db.rows, WaitsBehind r

theorem WaitsBehind.later {row' : ThreadGoalDbRow} (h : WaitsBehind row)
    (hwait : row'.executionWaitEpoch = row.executionWaitEpoch)
    (hle : row.updatedAtMs ≤ row'.updatedAtMs) : WaitsBehind row' := by
  intro epoch hepoch
  rw [hwait] at hepoch
  exact (h epoch hepoch).trans hle

theorem Settled.update {p : ThreadGoalDbRow → Bool} {f : ThreadGoalDbRow → ThreadGoalDbRow}
    {hf : goalKeys.Fixes f} (h : Settled db)
    (hrow : ∀ r ∈ db.rows, p r = true → WaitsBehind r → WaitsBehind (f r)) :
    Settled (db.update p f hf) := by
  intro r hr
  rw [Table.rows_update] at hr
  obtain ⟨r, hmem, rfl⟩ := List.mem_map.1 hr
  split_ifs with hp
  · exact hrow r hmem hp (h r hmem)
  · exact h r hmem

/-- A row that reads as a Goal and is at a later epoch than its wait has none. -/
theorem read_later {row' : ThreadGoalDbRow} (hwait : WaitsBehind row) (hreadable : Readable row')
    (hepoch : row'.executionWaitEpoch = row.executionWaitEpoch)
    (hlater : row.updatedAtMs < row'.updatedAtMs) :
    rowToThreadGoalState row' = some {
      goalId := row'.goalId, sessionId := row'.sessionId, objective := row'.objective
      objectiveResources := row'.objectiveResources, status := readStatus row'.status
      createdAt := row'.createdAtMs, updatedAt := row'.updatedAtMs, tokensUsed := row'.tokensUsed
      turnsUsed := row'.turnsUsed, timeUsedSeconds := row'.timeUsedSeconds
      tokenBudget := row'.tokenBudget.bind fun budget => positiveOrNull (.finite budget)
      replyFingerprint := row'.replyFingerprint, noProgressStreak := row'.noProgressStreak
      noToolStreak := row'.noToolStreak
      lastVerification := readLastVerification row'.lastVerification
      lastWorkerProposal := readLastWorkerProposal row'.lastWorkerProposal
      statusReason := row'.statusReason, kickoffAttachments := row'.kickoffAttachments
      kickoffState := row'.kickoffState, executionWait := none } := by
  obtain ⟨hgoal, hsession, hobjective⟩ := hreadable
  have hpast : row'.executionWaitEpoch ≠ some row'.updatedAtMs := by
    intro heq
    have hle := hwait row'.updatedAtMs (by rw [← hepoch, heq]; rfl)
    omega
  unfold rowToThreadGoalState
  rw [if_neg (by simp [hgoal, hsession, hobjective])]
  simp [hpast]

/-! ### Outcomes -/

/-- An operation leaves the table, and answers nothing or, when `stale`, what is read of it; or it
writes one row and answers a Goal, as `writes` says of the row and what it was read as. -/
def Outcome (goalId : String) (stale : Prop)
    (writes : ThreadGoalDbRow → ThreadGoalState → ThreadGoalDbRow → ThreadGoalState → Prop)
    (db : GoalTable) (answer : Option ThreadGoalState) (db' : GoalTable) : Prop :=
  (db' = db ∧ (answer = none ∨ answer = readById goalId db ∧ stale)) ∨
    ∃ row ∈ db.rows, ∃ state row' g, row.goalId = goalId ∧
      rowToThreadGoalState row = some state ∧ writes row state row' g ∧ answer = some g ∧
      row' ∈ db'.rows ∧ ∀ r ∈ db'.rows, r = row' ∨ r ∈ db.rows

section Outcome

variable {goalId : String} {stale : Prop}
  {writes : ThreadGoalDbRow → ThreadGoalState → ThreadGoalDbRow → ThreadGoalState → Prop}
  {answer : Option ThreadGoalState} {db' : GoalTable}

/-- What is answered is read after, where the Goal written is read so. -/
theorem Outcome.reads {C : Prop} (h : Outcome goalId stale writes db (some g) db') (hstale : stale → C)
    (hwrites : ∀ row ∈ db.rows, ∀ state row', row.goalId = goalId →
      rowToThreadGoalState row = some state → writes row state row' g →
      row'.goalId = g.goalId ∧ (rowToThreadGoalState row' = some g ↔ C)) :
    readById g.goalId db' = some g ↔ C := by
  rcases h with ⟨rfl, hnone | ⟨hread, hstale'⟩⟩ | ⟨row, hmem, state, row', g', hid, hread, hwrite,
    hanswer, hmem', -⟩
  · simp at hnone
  · exact iff_of_true (readById_of_read hread.symm) (hstale hstale')
  · obtain rfl := Option.some.inj hanswer
    obtain ⟨hgoal, hiff⟩ := hwrites row hmem state row' hid hread hwrite
    rw [← hiff, readById, ← hgoal, selected_of_mem hmem']
    rfl

theorem Outcome.settled (h : Outcome goalId stale writes db answer db') (hsettled : Settled db)
    (hwrites : ∀ row ∈ db.rows, ∀ state row' g, rowToThreadGoalState row = some state →
      writes row state row' g → WaitsBehind row → WaitsBehind row') : Settled db' := by
  rcases h with ⟨rfl, -⟩ | ⟨row, hmem, state, row', g, -, hread, hwrite, -, -, hrows⟩
  · exact hsettled
  · intro r hr
    rcases hrows r hr with rfl | hr
    · exact hwrites row hmem state r g hread hwrite (hsettled row hmem)
    · exact hsettled r hr

/-- The row a write changes, and the rows it leaves. -/
theorem mem_update {p : ThreadGoalDbRow → Bool} {f : ThreadGoalDbRow → ThreadGoalDbRow}
    (hf : goalKeys.Fixes f) (hmem : row ∈ db.rows) (hp : p row = true)
    (honly : ∀ r ∈ db.rows, p r = true → r = row) :
    f row ∈ (db.update p f hf).rows ∧ ∀ r ∈ (db.update p f hf).rows, r = f row ∨ r ∈ db.rows := by
  rw [Table.rows_update]
  refine ⟨List.mem_map.2 ⟨row, hmem, by rw [if_pos hp]⟩, fun r hr => ?_⟩
  obtain ⟨r, hr', rfl⟩ := List.mem_map.1 hr
  split_ifs with hpr
  · rw [honly r hr' hpr]
    exact .inl rfl
  · exact .inr hr'

end Outcome

/-! ### What is read of a column -/

theorem positiveOrNull_cast (budget : ℕ) :
    positiveOrNull (.finite budget) = if budget = 0 then none else some budget := by
  unfold positiveOrNull
  split_ifs with h h' h' <;> simp_all

/-- A budget is read back, if it was not rounded to zero. -/
theorem positiveOrNull_reads (budget : Option JsNumber) :
    ((budget.bind positiveOrNull).bind fun limit : ℕ => positiveOrNull (.finite limit)) =
      budget.bind positiveOrNull ↔ ¬ BelowOne budget := by
  unfold BelowOne
  cases budget with
  | none => simp
  | some value =>
    cases value with
    | finite q =>
      by_cases hq : q ≤ 0
      · have hnone : positiveOrNull (.finite q) = none := by simp [positiveOrNull, hq]
        simp only [Option.bind_some, hnone, Option.bind_none, true_iff, not_exists, not_and]
        rintro q' heq hpos
        simp only [Option.some.injEq, JsNumber.finite.injEq] at heq
        linarith
      · have hsome : positiveOrNull (.finite q) = some ⌊q⌋.toNat := by simp [positiveOrNull, hq]
        simp only [Option.bind_some, hsome, positiveOrNull_cast]
        have hfloor : ⌊q⌋.toNat = 0 ↔ q < 1 := by
          rw [Int.toNat_eq_zero, ← Int.lt_add_one_iff, Int.floor_lt]
          norm_num
        constructor
        · rintro h ⟨q', heq, hpos, hlt⟩
          simp only [Option.some.injEq, JsNumber.finite.injEq] at heq
          subst heq
          simp [hfloor.2 hlt] at h
        · intro h
          rw [if_neg]
          intro hzero
          exact h ⟨q, rfl, not_le.1 hq, hfloor.1 hzero⟩
    | _ => simp [positiveOrNull]

theorem tokenBudget_reads (budget : Option ℕ) :
    ((budget.bind fun limit => positiveOrNull (.finite limit)).bind fun limit =>
      positiveOrNull (.finite limit)) = budget.bind fun limit => positiveOrNull (.finite limit) := by
  cases budget with
  | none => rfl
  | some limit =>
    simp only [Option.bind_some, positiveOrNull_cast]
    split_ifs with h
    · rfl
    · simp [h]

theorem isValid_congr {verification verification' : LastVerification}
    (h : verification.atMs = verification'.atMs) :
    verification.isValid = verification'.isValid := by
  unfold LastVerification.isValid
  rw [h]

theorem readLastVerification_some (verification : LastVerification) :
    readLastVerification (some verification) =
      if verification.isValid = true then some { verification with
        missingFingerprint := verification.missingFingerprint.filter (· ≠ "") } else none := by
  unfold readLastVerification
  rw [Option.filter_some]
  split_ifs <;> rfl

theorem readLastVerification_reads (value : Option LastVerification) :
    readLastVerification (readLastVerification value) = readLastVerification value := by
  cases value with
  | none => rfl
  | some verification =>
    rw [readLastVerification_some]
    split_ifs with h
    · have hvalid : LastVerification.isValid { verification with
          missingFingerprint := verification.missingFingerprint.filter (· ≠ "") } = true :=
        (isValid_congr rfl).trans h
      rw [readLastVerification_some, if_pos hvalid]
      simp
    · rfl

/-- A proposal whose summary fits, at a time that is not before the epoch. -/
def ReadableProposal (proposal : LastWorkerProposal) : Prop :=
  (∀ s ∈ proposal.summary, textLength s ≤ workerProposalSummaryMaxChars) ∧ 0 ≤ proposal.atMs

theorem readLastWorkerProposal_some (proposal : LastWorkerProposal) :
    (ReadableProposal proposal → readLastWorkerProposal (some proposal) =
      some { proposal with summary := proposal.summary.filter (· ≠ "") }) ∧
      (¬ ReadableProposal proposal → readLastWorkerProposal (some proposal) = none) := by
  unfold readLastWorkerProposal ReadableProposal
  rw [Option.filter_some]
  cases hsummary : proposal.summary <;> simp +contextual [hsummary]

theorem readLastWorkerProposal_reads (value : Option LastWorkerProposal) :
    readLastWorkerProposal (readLastWorkerProposal value) = readLastWorkerProposal value := by
  cases value with
  | none => rfl
  | some proposal =>
    by_cases h : ReadableProposal proposal
    · have h' : ReadableProposal
          { proposal with summary := proposal.summary.filter (· ≠ "") } :=
        ⟨fun s hs => h.1 s (Option.mem_filter_iff.1 hs).1, h.2⟩
      rw [(readLastWorkerProposal_some proposal).1 h, (readLastWorkerProposal_some _).1 h']
      simp
    · rw [(readLastWorkerProposal_some proposal).2 h]
      rfl

/-- A summary that is kept is not empty, and fits. -/
theorem normalizeSummary_spec {summary : Option String} {text : String}
    (h : normalizeSummary summary = some text) :
    text ≠ "" ∧ textLength text ≤ workerProposalSummaryMaxChars := by
  unfold normalizeSummary at h
  obtain ⟨trimmed, htrimmed, rfl⟩ := Option.map_eq_some_iff.1 h
  obtain ⟨-, hne⟩ := Option.mem_filter_iff.1 htrimmed
  cases hchars : trimmed.toList with
  | nil => simp_all
  | cons c rest =>
    -- the empty cut and the cut at the first character both fit
    generalize hp : (fun cut : List Char =>
      decide (textLength (.ofList cut) ≤ workerProposalSummaryMaxChars)) = p
    have hnil : p [] = true := by
      rw [← hp]
      rfl
    have hfirst : p [c] = true := by
      rw [← hp]
      have hle : textLength (.ofList [c]) ≤ 2 := by
        unfold textLength
        rw [String.toList_ofList, List.foldl_cons, List.foldl_nil]
        split_ifs <;> omega
      exact decide_eq_true (hle.trans (by decide))
    have hcuts : (c :: rest).inits.filter p = [] :: (rest.inits.map (c :: ·)).filter p := by
      rw [List.inits_cons, List.filter_cons_of_pos hnil]
    have hmem : [c] ∈ (rest.inits.map (c :: ·)).filter p :=
      List.mem_filter.2 ⟨List.mem_map.2 ⟨[], (List.mem_inits _ _).2 List.nil_prefix, rfl⟩, hfirst⟩
    have hlast : (([] : List Char) :: (rest.inits.map (c :: ·)).filter p).getLastD [] ∈
        (rest.inits.map (c :: ·)).filter p := by
      rw [List.getLastD_cons, List.getLastD_eq_getLast?, List.getLast?_eq_some_getLast
        (List.ne_nil_of_mem hmem)]
      exact List.getLast_mem _
    rw [hcuts]
    obtain ⟨hmapped, hfits⟩ := List.mem_filter.1 hlast
    obtain ⟨cut, -, hcut⟩ := List.mem_map.1 hmapped
    rw [← hcut] at hfits ⊢
    rw [← hp] at hfits
    exact ⟨by simp, of_decide_eq_true hfits⟩

theorem materialized_reads (input : Option WorkerProposalInput) (atMs : ℤ)
    (stored : Option LastWorkerProposal) :
    readLastWorkerProposal ((materializeWorkerProposal input atMs).or stored) =
      (materializeWorkerProposal input atMs).or (readLastWorkerProposal stored) ↔
        (input.isSome → 0 ≤ atMs) := by
  cases input with
  | none => simp [materializeWorkerProposal]
  | some input =>
    have hmaterialized : materializeWorkerProposal (some input) atMs =
      some ⟨input.type, input.turnId, normalizeSummary input.summary, atMs⟩ := rfl
    rw [hmaterialized, Option.some_or, Option.some_or]
    by_cases hat : 0 ≤ atMs
    · have hreadable : ReadableProposal
          ⟨input.type, input.turnId, normalizeSummary input.summary, atMs⟩ :=
        ⟨fun s hs => (normalizeSummary_spec hs).2, hat⟩
      rw [(readLastWorkerProposal_some _).1 hreadable]
      have hfilter : (normalizeSummary input.summary).filter (· ≠ "") =
          normalizeSummary input.summary := by
        cases hs : normalizeSummary input.summary with
        | none => rfl
        | some text => simp [(normalizeSummary_spec hs).1]
      dsimp only
      rw [hfilter]
      simp [hat]
    · have hunreadable : ¬ ReadableProposal
          ⟨input.type, input.turnId, normalizeSummary input.summary, atMs⟩ := fun h => hat h.2
      rw [(readLastWorkerProposal_some _).2 hunreadable]
      simp [hat]

/-! ### What an operation does -/

theorem outcome_atomically {α : Type} {m : StoreM α} {f : α → Option ThreadGoalState}
    {goalId : String} {stale : Prop}
    {writes : ThreadGoalDbRow → ThreadGoalState → ThreadGoalDbRow → ThreadGoalState → Prop}
    (h : Outcome goalId stale writes db ((answered (m db)).bind f) (m db).2) :
    Outcome goalId stale writes db ((answered (atomically m db)).bind f) (atomically m db).2 := by
  unfold atomically
  rcases hm : m db with ⟨error | a, db'⟩
  · exact .inl ⟨rfl, .inl rfl⟩
  · rwa [hm] at h

theorem active_of_read {status : Option ThreadGoalStatus} (h : readStatus status = .active) :
    status = some .active := by
  cases status with
  | none => simp [readStatus] at h
  | some status => exact congrArg some h

theorem countP_pos {p : ThreadGoalDbRow → Bool} (hmem : row ∈ db.rows) (hp : p row = true) :
    db.rows.countP p ≠ 0 :=
  (List.countP_pos_iff.2 ⟨row, hmem, hp⟩).ne'

variable (digest : String → String) (fingerprint : List String → String)

/-- A Goal that is not stale is active at the epoch. -/
theorem activeAt_of_current {expectedEpoch : ℤ} {objectiveDigest : String}
    (hread : rowToThreadGoalState row = some state)
    (h : classifyThreadGoalBindingStale digest (some state) expectedEpoch objectiveDigest = none) :
    activeAt row.goalId expectedEpoch row = true := by
  unfold classifyThreadGoalBindingStale classifyThreadGoalAccountingStale at h
  dsimp only at h
  by_cases hepoch : state.updatedAt ≠ expectedEpoch
  · simp [hepoch] at h
  rw [if_neg hepoch] at h
  by_cases hdigest : digest state.objective ≠ objectiveDigest
  · simp [hdigest] at h
  rw [if_neg hdigest] at h
  have hactive : state.status = .active := by simpa using h
  refine activeAt_iff.2 ⟨rfl, ?_, active_of_read ?_⟩
  · rw [← updatedAt_of_read hread]
    exact not_not.1 hepoch
  · rw [← (charge_of_read hread).1]
    exact hactive

/-- A stale decision answers the Goal there is. -/
theorem threadGoalStaleDecision_spec {current : Option ThreadGoalState} {expectedEpoch : ℤ}
    {objectiveDigest : String} :
    (∀ stale, threadGoalStaleDecision digest current expectedEpoch objectiveDigest = some stale →
      classifyThreadGoalBindingStale digest current expectedEpoch objectiveDigest ≠ none ∧
        stale.goal = current) ∧
    (threadGoalStaleDecision digest current expectedEpoch objectiveDigest = none →
      classifyThreadGoalBindingStale digest current expectedEpoch objectiveDigest = none) := by
  unfold threadGoalStaleDecision
  cases classifyThreadGoalBindingStale digest current expectedEpoch objectiveDigest with
  | none => simp
  | some reason => simp [ThreadGoalDecisionResult.goal]

theorem settle_outcome (input : ThreadGoalSettleBoundTurnInput) (now : ℤ) (db : GoalTable) :
    Outcome input.goalId
      (classifyThreadGoalBindingStale digest (readById input.goalId db) input.expectedEpoch
        input.objectiveDigest ≠ none)
      (fun row state row' g => row.updatedAtMs = input.expectedEpoch ∧
        classifyThreadGoalBindingStale digest (readById input.goalId db) input.expectedEpoch
          input.objectiveDigest = none ∧
        row' = { row with
          status := some input.next.status
          statusReason := some input.next.statusReason
          updatedAtMs := max now (input.expectedEpoch + 1)
          lastWorkerProposal := (materializeWorkerProposal input.workerProposal
            (max now (input.expectedEpoch + 1))).or row.lastWorkerProposal } ∧
        g = { state with
          status := input.next.status
          statusReason := some input.next.statusReason
          updatedAt := max now (input.expectedEpoch + 1)
          lastWorkerProposal := (materializeWorkerProposal input.workerProposal
            (max now (input.expectedEpoch + 1))).or state.lastWorkerProposal
          executionWait := none }) db
      ((answered (settleThreadGoalBoundTurn digest input now db)).bind (·.goal))
      (settleThreadGoalBoundTurn digest input now db).2 := by
  unfold settleThreadGoalBoundTurn
  refine outcome_atomically ?_
  rw [getById_bind]
  have hstate : (db.rows.find? (·.goalId = input.goalId)).bind rowToThreadGoalState =
      readById input.goalId db := rfl
  rw [hstate]
  cases hread : readById input.goalId db with
  | none => exact .inl ⟨rfl, .inl rfl⟩
  | some state =>
    obtain ⟨row, hmem, hid, hrow, honly⟩ := selected_of_read hread
    obtain ⟨hstale, hcurrent⟩ := @threadGoalStaleDecision_spec digest (some state)
      input.expectedEpoch input.objectiveDigest
    dsimp only
    cases hdecision : threadGoalStaleDecision digest (some state) input.expectedEpoch
        input.objectiveDigest with
    | some stale =>
      obtain ⟨hne, hgoal⟩ := hstale stale hdecision
      exact .inl ⟨rfl, .inr ⟨hgoal.trans hread.symm, hne⟩⟩
    | none =>
      have hactive : activeAt input.goalId input.expectedEpoch row = true :=
        hid ▸ activeAt_of_current digest hrow (hcurrent hdecision)
      dsimp only
      rw [updateWhere_bind, if_neg (countP_pos hmem hactive)]
      exact .inr ⟨row, hmem, state, _, _, hid, hrow,
        ⟨(activeAt_iff.1 hactive).2.1, hcurrent hdecision, rfl, rfl⟩, rfl,
        mem_update (goalKeys_fixes (by intro; rfl) (by intro; rfl)) hmem hactive fun r hr hp =>
          honly r hr (activeAt_iff.1 hp).1⟩

theorem readable_of_read (hread : rowToThreadGoalState row = some state) : Readable row :=
  rowToThreadGoalState_isSome.1 (by rw [hread]; rfl)

theorem settle_reads {input : ThreadGoalSettleBoundTurnInput} {now : ℤ} (hsettled : Settled db)
    (h : (answered (settleThreadGoalBoundTurn digest input now db)).bind (·.goal) = some g) :
    readById g.goalId (settleThreadGoalBoundTurn digest input now db).2 = some g ↔
      (classifyThreadGoalBindingStale digest (readById input.goalId db) input.expectedEpoch
        input.objectiveDigest = none →
          DatedProposal input.workerProposal input.expectedEpoch now) := by
  have houtcome := settle_outcome digest input now db
  rw [h] at houtcome
  refine houtcome.reads (fun hstale hcurrent => absurd hcurrent hstale) ?_
  rintro row hmem state row' hid hread ⟨hepoch, hcurrent, rfl, rfl⟩
  refine ⟨(keys_of_read hread).1.symm, ?_⟩
  have hreadable := readable_of_read hread
  rw [read_later (hsettled row hmem)]
  · have hproposal := materialized_reads input.workerProposal (max now (input.expectedEpoch + 1))
      row.lastWorkerProposal
    unfold rowToThreadGoalState at hread
    split_ifs at hread
    obtain rfl := Option.some.inj hread
    simp only [Option.some.injEq, ThreadGoalState.mk.injEq, hcurrent, forall_const]
    unfold DatedProposal
    rw [← hproposal]
    simp [readStatus]
  · exact hreadable
  · rfl
  · show row.updatedAtMs < max now (input.expectedEpoch + 1)
    omega

theorem settle_settled (input : ThreadGoalSettleBoundTurnInput) (now : ℤ) (hsettled : Settled db) :
    Settled (settleThreadGoalBoundTurn digest input now db).2 := by
  refine (settle_outcome digest input now db).settled hsettled ?_
  rintro row hmem state row' g hread ⟨hepoch, -, rfl, -⟩ hwait
  have hle : row.updatedAtMs ≤ max now (input.expectedEpoch + 1) := by omega
  exact hwait.later rfl hle

theorem record_outcome (input : ThreadGoalRecordVerificationInput) (now : ℤ) (db : GoalTable) :
    Outcome input.goalId
      (classifyThreadGoalBindingStale digest (readById input.goalId db) input.expectedEpoch
        input.objectiveDigest ≠ none)
      (fun row state row' g => row.updatedAtMs = input.expectedEpoch ∧
        classifyThreadGoalBindingStale digest (readById input.goalId db) input.expectedEpoch
          input.objectiveDigest = none ∧
        ∃ decision : Option (ThreadGoalStatus × ThreadGoalStatusReason),
          row' = { row with
            lastVerification :=
              some (normalizeVerificationResult fingerprint state.lastVerification input.result)
            status := some ((decision.map Prod.fst).getD state.status)
            statusReason := (decision.map Prod.snd).or state.statusReason
            updatedAtMs := max now (input.expectedEpoch + 1)
            lastWorkerProposal := (materializeWorkerProposal input.workerProposal
              (max now (input.expectedEpoch + 1))).or row.lastWorkerProposal } ∧
          g = { state with
            status := (decision.map Prod.fst).getD state.status
            statusReason := (decision.map Prod.snd).or state.statusReason
            lastVerification :=
              some (normalizeVerificationResult fingerprint state.lastVerification input.result)
            lastWorkerProposal := (materializeWorkerProposal input.workerProposal
              (max now (input.expectedEpoch + 1))).or state.lastWorkerProposal
            updatedAt := max now (input.expectedEpoch + 1)
            executionWait := none }) db
      ((answered (recordThreadGoalVerification digest fingerprint input now db)).bind (·.goal))
      (recordThreadGoalVerification digest fingerprint input now db).2 := by
  unfold recordThreadGoalVerification
  refine outcome_atomically ?_
  rw [getById_bind]
  have hstate : (db.rows.find? (·.goalId = input.goalId)).bind rowToThreadGoalState =
      readById input.goalId db := rfl
  rw [hstate]
  cases hread : readById input.goalId db with
  | none => exact .inl ⟨rfl, .inl rfl⟩
  | some state =>
    obtain ⟨row, hmem, hid, hrow, honly⟩ := selected_of_read hread
    obtain ⟨hstale, hcurrent⟩ := @threadGoalStaleDecision_spec digest (some state)
      input.expectedEpoch input.objectiveDigest
    dsimp only
    cases hdecision : threadGoalStaleDecision digest (some state) input.expectedEpoch
        input.objectiveDigest with
    | some stale =>
      obtain ⟨hne, hgoal⟩ := hstale stale hdecision
      exact .inl ⟨rfl, .inr ⟨hgoal.trans hread.symm, hne⟩⟩
    | none =>
      have hactive : activeAt input.goalId input.expectedEpoch row = true :=
        hid ▸ activeAt_of_current digest hrow (hcurrent hdecision)
      dsimp only
      rw [updateWhere_bind, if_neg (countP_pos hmem hactive)]
      generalize hverdict : verificationDecision (normalizeVerificationResult fingerprint
        state.lastVerification input.result) input = decision
      exact .inr ⟨row, hmem, state, _, _, hid, hrow,
        ⟨(activeAt_iff.1 hactive).2.1, hcurrent hdecision, decision, rfl, rfl⟩, rfl,
        mem_update (goalKeys_fixes (by intro; rfl) (by intro; rfl)) hmem hactive fun r hr hp =>
          honly r hr (activeAt_iff.1 hp).1⟩

/-- A verdict is read back, if its time is. -/
theorem normalized_reads (hfingerprint : ∀ missing, fingerprint missing ≠ "")
    (previous : Option LastVerification) (result : LastVerification) :
    readLastVerification (some (normalizeVerificationResult fingerprint previous result)) =
      some (normalizeVerificationResult fingerprint previous result) ↔ result.isValid = true := by
  have hat : (normalizeVerificationResult fingerprint previous result).atMs = result.atMs := by
    unfold normalizeVerificationResult
    split_ifs <;> rfl
  have hmissing : (normalizeVerificationResult fingerprint previous result).missingFingerprint.filter
      (· ≠ "") = (normalizeVerificationResult fingerprint previous result).missingFingerprint := by
    unfold normalizeVerificationResult
    dsimp only
    split_ifs
    · rfl
    · simp [hfingerprint]
  rw [readLastVerification_some, isValid_congr hat, hmissing]
  split_ifs with h
  · exact iff_of_true rfl h
  · exact iff_of_false (by simp) h

theorem record_reads (hfingerprint : ∀ missing, fingerprint missing ≠ "")
    {input : ThreadGoalRecordVerificationInput} {now : ℤ} (hsettled : Settled db)
    (h : (answered (recordThreadGoalVerification digest fingerprint input now db)).bind (·.goal) =
      some g) :
    readById g.goalId (recordThreadGoalVerification digest fingerprint input now db).2 = some g ↔
      (classifyThreadGoalBindingStale digest (readById input.goalId db) input.expectedEpoch
        input.objectiveDigest = none → input.result.isValid = true ∧
          DatedProposal input.workerProposal input.expectedEpoch now) := by
  have houtcome := record_outcome digest fingerprint input now db
  rw [h] at houtcome
  refine houtcome.reads (fun hstale hcurrent => absurd hcurrent hstale) ?_
  rintro row hmem state row' hid hread ⟨hepoch, hcurrent, decision, rfl, rfl⟩
  refine ⟨(keys_of_read hread).1.symm, ?_⟩
  have hreadable := readable_of_read hread
  rw [read_later (hsettled row hmem)]
  · have hproposal := materialized_reads input.workerProposal (max now (input.expectedEpoch + 1))
      row.lastWorkerProposal
    have hverdict := normalized_reads fingerprint hfingerprint state.lastVerification input.result
    generalize normalizeVerificationResult fingerprint state.lastVerification input.result =
      verdict at hverdict ⊢
    unfold rowToThreadGoalState at hread
    split_ifs at hread
    obtain rfl := Option.some.inj hread
    simp only [Option.some.injEq, ThreadGoalState.mk.injEq, hcurrent, forall_const]
    unfold DatedProposal
    rw [← hproposal, ← hverdict]
    simp [readStatus]
  · exact hreadable
  · rfl
  · show row.updatedAtMs < max now (input.expectedEpoch + 1)
    omega

theorem record_settled (input : ThreadGoalRecordVerificationInput) (now : ℤ)
    (hsettled : Settled db) :
    Settled (recordThreadGoalVerification digest fingerprint input now db).2 := by
  refine (record_outcome digest fingerprint input now db).settled hsettled ?_
  rintro row hmem state row' g hread ⟨hepoch, -, decision, rfl, -⟩ hwait
  have hle : row.updatedAtMs ≤ max now (input.expectedEpoch + 1) := by omega
  exact hwait.later rfl hle

theorem update_of_countP_zero {p : ThreadGoalDbRow → Bool} {f : ThreadGoalDbRow → ThreadGoalDbRow}
    {hf : goalKeys.Fixes f} (h : db.rows.countP p = 0) : db.update p f hf = db := by
  refine Table.ext ?_
  rw [Table.rows_update]
  refine (List.map_congr_left fun r hr => ?_).trans (List.map_id _)
  rw [if_neg (List.countP_eq_zero.1 h r hr)]
  rfl

/-- Where the breaker wrote nothing, it answers the Goal there is. -/
theorem breakerStale_answer {goalId : String} {expectedEpoch : ℤ}
    (hread : readById goalId db = some state) :
    (answered (breakerStale goalId expectedEpoch db)).bind (·.goal) = none ∨
      (answered (breakerStale goalId expectedEpoch db)).bind (·.goal) = readById goalId db ∧
        True := by
  unfold breakerStale
  have hstate : (db.rows.find? (·.goalId = goalId)).bind rowToThreadGoalState = some state := hread
  rw [getById_bind, hstate]
  dsimp only
  split_ifs <;> exact .inr ⟨hread.symm, trivial⟩

theorem breaker_outcome (goalId : String) (input : ThreadGoalBreakerInput) (now : ℤ)
    (db : GoalTable) :
    Outcome goalId True
      (fun row state row' g => ∃ (status : ThreadGoalStatus)
        (statusReason : Option ThreadGoalStatusReason) (score : BreakerScore),
        row' = { row with
          replyFingerprint := score.nextFingerprint
          noProgressStreak := score.nextReplyStreak
          noToolStreak := score.nextNoToolStreak
          status := some status
          statusReason
          updatedAtMs := max now (state.updatedAt + 1) } ∧
        g = { state with
          status
          statusReason
          replyFingerprint := score.nextFingerprint
          noProgressStreak := score.nextReplyStreak
          noToolStreak := score.nextNoToolStreak
          updatedAt := max now (state.updatedAt + 1)
          executionWait := none }) db
      ((answered (updateThreadGoalBreaker goalId input now db)).bind (·.goal))
      (updateThreadGoalBreaker goalId input now db).2 := by
  unfold updateThreadGoalBreaker
  refine outcome_atomically ?_
  rw [getById_bind]
  have hstate : (db.rows.find? (·.goalId = goalId)).bind rowToThreadGoalState =
      readById goalId db := rfl
  rw [hstate]
  cases hread : readById goalId db with
  | none => exact .inl ⟨rfl, .inl rfl⟩
  | some state =>
    obtain ⟨row, hmem, hid, hrow, honly⟩ := selected_of_read hread
    dsimp only
    by_cases hsame : (scoreBreaker state input).unchanged state = true
    · rw [if_pos hsame]
      split_ifs <;> exact .inl ⟨rfl, .inr ⟨hread.symm, trivial⟩⟩
    · rw [if_neg hsame, updateWhere_bind]
      by_cases hnone : db.rows.countP (activeAt goalId input.expectedEpoch) = 0
      · rw [if_pos hnone, update_of_countP_zero hnone]
        exact .inl ⟨breakerStale_snd .., breakerStale_answer hread⟩
      · obtain ⟨r, hr, hactive⟩ := List.countP_pos_iff.1 (Nat.pos_of_ne_zero hnone)
        obtain rfl := honly r hr (activeAt_iff.1 hactive).1
        rw [if_neg hnone]
        exact .inr ⟨r, hmem, state, _, _, hid, hrow, ⟨_, _, _, rfl, rfl⟩, rfl,
          mem_update (goalKeys_fixes (by intro; rfl) (by intro; rfl)) hmem hactive fun r' hr' hp =>
            honly r' hr' (activeAt_iff.1 hp).1⟩

theorem breaker_reads {goalId : String} {input : ThreadGoalBreakerInput} {now : ℤ}
    (hsettled : Settled db)
    (h : (answered (updateThreadGoalBreaker goalId input now db)).bind (·.goal) = some g) :
    readById g.goalId (updateThreadGoalBreaker goalId input now db).2 = some g := by
  have houtcome := breaker_outcome goalId input now db
  rw [h] at houtcome
  refine (@Outcome.reads _ _ _ _ _ _ True houtcome (fun _ => trivial) ?_).2 trivial
  rintro row hmem state row' hid hread ⟨status, statusReason, score, rfl, rfl⟩
  refine ⟨(keys_of_read hread).1.symm, iff_of_true ?_ trivial⟩
  have hreadable := readable_of_read hread
  have hepoch := updatedAt_of_read hread
  rw [read_later (hsettled row hmem)]
  · unfold rowToThreadGoalState at hread
    split_ifs at hread
    obtain rfl := Option.some.inj hread
    rfl
  · exact hreadable
  · rfl
  · show row.updatedAtMs < max now (state.updatedAt + 1)
    omega

theorem breaker_settled (goalId : String) (input : ThreadGoalBreakerInput) (now : ℤ)
    (hsettled : Settled db) : Settled (updateThreadGoalBreaker goalId input now db).2 := by
  refine (breaker_outcome goalId input now db).settled hsettled ?_
  rintro row hmem state row' g hread ⟨status, statusReason, score, rfl, -⟩ hwait
  have hepoch := updatedAt_of_read hread
  have hle : row.updatedAtMs ≤ max now (state.updatedAt + 1) := by omega
  exact hwait.later rfl hle

theorem bump_outcome (binding : GoalTurnBinding) (delta : ThreadGoalBoundUsageDelta)
    (limits : ThreadGoalBudgetLimits) (now : ℤ) (db : GoalTable) :
    Outcome binding.goalId True
      (fun row state row' g => ∃ staleReason,
        row' = { row with
          tokensUsed := g.tokensUsed
          turnsUsed := g.turnsUsed
          timeUsedSeconds := g.timeUsedSeconds
          status := some g.status
          statusReason := g.statusReason
          updatedAtMs := g.updatedAt } ∧
        g = (charged state staleReason delta limits now).1) db
      ((answered (bumpThreadGoalBoundUsage digest binding delta limits now db)).bind (·.goal))
      (bumpThreadGoalBoundUsage digest binding delta limits now db).2 := by
  unfold bumpThreadGoalBoundUsage
  refine outcome_atomically ?_
  rw [getById_bind]
  have hstate : (db.rows.find? (·.goalId = binding.goalId)).bind rowToThreadGoalState =
      readById binding.goalId db := rfl
  rw [hstate]
  cases hread : readById binding.goalId db with
  | none => exact .inl ⟨rfl, .inl rfl⟩
  | some state =>
    obtain ⟨row, hmem, hid, hrow, honly⟩ := selected_of_read hread
    dsimp only
    split_ifs with hnothing
    · exact .inl ⟨rfl, .inr ⟨hread.symm, trivial⟩⟩
    · rw [updateWhere_bind]
      exact .inr ⟨row, hmem, state, _, _, hid, hrow, ⟨_, rfl, rfl⟩, rfl,
        mem_update (goalKeys_fixes (by intro; rfl) (by intro; rfl)) hmem (by simp [hid])
          fun r hr hp => honly r hr (by simpa using hp)⟩

/-- A charge keeps the epoch, and with it the status and the wait, or moves to a later one. -/
theorem charged_cases (state : ThreadGoalState) (staleReason : Option StaleReason)
    (delta : ThreadGoalBoundUsageDelta) (limits : ThreadGoalBudgetLimits) (now : ℤ) :
    ∃ status statusReason tokensUsed turnsUsed timeUsedSeconds updatedAt executionWait,
      (charged state staleReason delta limits now).1 = { state with
        status, statusReason, tokensUsed, turnsUsed, timeUsedSeconds, updatedAt, executionWait } ∧
      (updatedAt = state.updatedAt ∧ status = state.status ∧ executionWait = state.executionWait ∨
        state.updatedAt < updatedAt ∧ executionWait = none) := by
  unfold charged
  dsimp only
  generalize hdimension : (if state.status = .active then
    firstExceededBudget (state.tokensUsed + numericOrZero delta.tokens)
      (state.turnsUsed + delta.mainTurns) (state.timeUsedSeconds + numericOrZero delta.activeSeconds)
      limits else none) = dimension
  by_cases hkeeps : state.status = .budgetLimited ∨ staleReason.isSome ∧ dimension.isNone
  · have hnone : dimension = none := by
      rcases hkeeps with hlimited | ⟨-, hnone⟩
      · rw [← hdimension, hlimited]
        rfl
      · simpa using hnone
    rw [if_pos hkeeps, if_pos hkeeps]
    refine ⟨_, _, _, _, _, _, _, rfl, .inl ⟨rfl, ?_, rfl⟩⟩
    rw [hnone]
    rfl
  · rw [if_neg hkeeps, if_neg hkeeps]
    exact ⟨_, _, _, _, _, _, _, rfl, .inr ⟨by omega, rfl⟩⟩

/-- A charged Goal is read of the row it is charged to, whether its epoch stays or not. -/
theorem charged_reads (hwait : WaitsBehind row) (hread : rowToThreadGoalState row = some state)
    (staleReason : Option StaleReason) (delta : ThreadGoalBoundUsageDelta)
    (limits : ThreadGoalBudgetLimits) (now : ℤ)
    (hg : g = (charged state staleReason delta limits now).1) :
    rowToThreadGoalState { row with
      tokensUsed := g.tokensUsed
      turnsUsed := g.turnsUsed
      timeUsedSeconds := g.timeUsedSeconds
      status := some g.status
      statusReason := g.statusReason
      updatedAtMs := g.updatedAt } = some g := by
  obtain ⟨status, statusReason, tokensUsed, turnsUsed, timeUsedSeconds, updatedAt, executionWait,
    hcharged, hepoch⟩ := charged_cases state staleReason delta limits now
  rw [hcharged] at hg
  subst hg
  have hreadable := readable_of_read hread
  have hread' := updatedAt_of_read hread
  rcases hepoch with ⟨rfl, rfl, rfl⟩ | ⟨hlater, rfl⟩
  · unfold rowToThreadGoalState at hread ⊢
    split_ifs at hread with hempty
    obtain rfl := Option.some.inj hread
    rw [if_neg hempty]
    rfl
  · rw [read_later hwait]
    · unfold rowToThreadGoalState at hread
      split_ifs at hread
      obtain rfl := Option.some.inj hread
      rfl
    · exact hreadable
    · rfl
    · show row.updatedAtMs < updatedAt
      omega

theorem bump_reads {binding : GoalTurnBinding} {delta : ThreadGoalBoundUsageDelta}
    {limits : ThreadGoalBudgetLimits} {now : ℤ} (hsettled : Settled db)
    (h : (answered (bumpThreadGoalBoundUsage digest binding delta limits now db)).bind (·.goal) =
      some g) :
    readById g.goalId (bumpThreadGoalBoundUsage digest binding delta limits now db).2 = some g := by
  have houtcome := bump_outcome digest binding delta limits now db
  rw [h] at houtcome
  refine (@Outcome.reads _ _ _ _ _ _ True houtcome (fun _ => trivial) ?_).2 trivial
  rintro row hmem state row' hid hread ⟨staleReason, rfl, hg⟩
  refine ⟨?_, iff_of_true (charged_reads (hsettled row hmem) hread staleReason delta limits now hg)
    trivial⟩
  rw [hg]
  exact (keys_of_read hread).1.symm

theorem bump_settled (binding : GoalTurnBinding) (delta : ThreadGoalBoundUsageDelta)
    (limits : ThreadGoalBudgetLimits) (now : ℤ) (hsettled : Settled db) :
    Settled (bumpThreadGoalBoundUsage digest binding delta limits now db).2 := by
  refine (bump_outcome digest binding delta limits now db).settled hsettled ?_
  rintro row hmem state row' g hread ⟨staleReason, rfl, hg⟩ hwait
  have hle : row.updatedAtMs ≤ g.updatedAt := by
    rw [hg, ← updatedAt_of_read hread]
    exact charged_updatedAt ..
  exact hwait.later rfl hle

/-- A patch that is not refused finds its row. -/
theorem patchable_of_read {input : ThreadGoalPatchInput}
    (hread : rowToThreadGoalState row = some state)
    (h : patchRefusal (some row) state input = none) : patchable row.goalId input row = true := by
  obtain ⟨hstatus, -⟩ := charge_of_read hread
  unfold patchRefusal at h
  dsimp only at h
  by_cases hcurrent : some state.status = input.rejectIfCurrentStatus
  · simp [hcurrent] at h
  rw [if_neg hcurrent] at h
  have hobjective : input.rejectIfObjectiveChangedFrom.filter (state.objective ≠ ·) = none := by
    cases hcase : input.rejectIfObjectiveChangedFrom.filter (state.objective ≠ ·) with
    | none => rfl
    | some objective =>
      rw [hcase] at h
      cases h
  rw [hobjective] at h
  dsimp only at h
  have hepoch : input.rejectIfUpdatedAtChangedFrom.filter (state.updatedAt ≠ ·) = none := by
    cases hcase : input.rejectIfUpdatedAtChangedFrom.filter (state.updatedAt ≠ ·) with
    | none => rfl
    | some updatedAt =>
      rw [hcase] at h
      cases h
  rw [objective_of_read hread] at hobjective
  rw [updatedAt_of_read hread] at hepoch
  unfold patchable
  simp only [decide_true, Bool.true_and, Bool.and_eq_true]
  refine ⟨⟨?_, ?_⟩, ?_⟩
  · cases hcase : input.rejectIfCurrentStatus with
    | none => rfl
    | some status =>
      rw [hcase, hstatus] at hcurrent
      refine decide_eq_true fun heq => hcurrent ?_
      rw [heq]
      rfl
  · cases hcase : input.rejectIfObjectiveChangedFrom with
    | none => rfl
    | some objective => simpa [hcase] using hobjective
  · cases hcase : input.rejectIfUpdatedAtChangedFrom with
    | none => rfl
    | some updatedAt => simpa [hcase] using hepoch

theorem patch_outcome (goalId : String) (input : ThreadGoalPatchInput) (now : ℤ)
    (db : GoalTable) :
    Outcome goalId False
      (fun row state row' g => row' = { row with
          status := some g.status
          objective := g.objective
          tokenBudget := g.tokenBudget
          replyFingerprint := g.replyFingerprint
          noProgressStreak := g.noProgressStreak
          noToolStreak := g.noToolStreak
          lastVerification := g.lastVerification
          lastWorkerProposal := g.lastWorkerProposal
          statusReason := g.statusReason
          updatedAtMs := g.updatedAt
          objectiveResources := g.objectiveResources } ∧
        g = patched state input now) db
      (answered (patchThreadGoal goalId input now db)) (patchThreadGoal goalId input now db).2 := by
  unfold patchThreadGoal
  rw [selectById_bind]
  cases hread : (db.rows.find? (·.goalId = goalId)).bind rowToThreadGoalState with
  | none => exact .inl ⟨rfl, .inl rfl⟩
  | some state =>
    obtain ⟨row, hmem, hid, hrow, honly⟩ := selected_of_read hread
    have hfind := selected_of_mem hmem
    rw [hid] at hfind
    rw [hfind]
    dsimp only
    cases hrefusal : patchRefusal (some row) state input with
    | some refusal => exact .inl ⟨rfl, .inl rfl⟩
    | none =>
      have hpatchable : patchable goalId input row = true := hid ▸ patchable_of_read hrow hrefusal
      dsimp only
      rw [updateWhere_bind, if_neg (by simp [countP_pos hmem hpatchable])]
      exact .inr ⟨row, hmem, state, _, _, hid, hrow, ⟨rfl, rfl⟩, rfl,
        mem_update (goalKeys_fixes (by intro; rfl) (by intro; rfl)) hmem hpatchable
          fun r hr hp => honly r hr (goalId_of_patchable hp)⟩

/-- What is read of the columns that are checked. -/
theorem columns_of_read (hread : rowToThreadGoalState row = some state) :
    (state.tokenBudget = row.tokenBudget.bind fun limit => positiveOrNull (.finite limit)) ∧
      state.lastVerification = readLastVerification row.lastVerification ∧
      state.lastWorkerProposal = readLastWorkerProposal row.lastWorkerProposal := by
  unfold rowToThreadGoalState at hread
  split_ifs at hread
  obtain rfl := Option.some.inj hread
  exact ⟨rfl, rfl, rfl⟩

/-- A patched Goal is read of the row it is patched to, if no budget was rounded to zero. -/
theorem patched_reads (hwait : WaitsBehind row) (hread : rowToThreadGoalState row = some state)
    {input : ThreadGoalPatchInput} (hobjective : input.objective ≠ some "") (now : ℤ)
    (hg : g = patched state input now) :
    rowToThreadGoalState { row with
      status := some g.status
      objective := g.objective
      tokenBudget := g.tokenBudget
      replyFingerprint := g.replyFingerprint
      noProgressStreak := g.noProgressStreak
      noToolStreak := g.noToolStreak
      lastVerification := g.lastVerification
      lastWorkerProposal := g.lastWorkerProposal
      statusReason := g.statusReason
      updatedAtMs := g.updatedAt
      objectiveResources := g.objectiveResources } = some g ↔ ¬ BelowOne input.tokenBudget.join := by
  obtain ⟨hgoal, hsession, hobjective'⟩ := readable_of_read hread
  have hobjective'' : g.objective ≠ "" := by
    rw [hg]
    show input.objective.getD state.objective ≠ ""
    rw [objective_of_read hread]
    cases hcase : input.objective with
    | none => exact hobjective'
    | some objective => simpa [hcase] using hobjective
  have hepoch : row.updatedAtMs < g.updatedAt := by
    rw [hg, ← updatedAt_of_read hread]
    show state.updatedAt < max now (state.updatedAt + 1)
    omega
  obtain ⟨hbudget', hverification', hproposal'⟩ := columns_of_read hread
  have hverification : readLastVerification g.lastVerification = g.lastVerification := by
    rw [hg]
    unfold patched
    dsimp only
    split_ifs
    · rfl
    · rw [hverification', readLastVerification_reads]
  have hproposal : readLastWorkerProposal g.lastWorkerProposal = g.lastWorkerProposal := by
    rw [hg]
    unfold patched
    dsimp only
    split_ifs
    · rfl
    · rw [hproposal', readLastWorkerProposal_reads]
  have hbudget : (g.tokenBudget.bind fun limit => positiveOrNull (.finite limit)) = g.tokenBudget ↔
      ¬ BelowOne input.tokenBudget.join := by
    rw [hg]
    unfold patched
    dsimp only
    cases input.tokenBudget with
    | none =>
      have hnone : ¬ BelowOne (none : Option (Option JsNumber)).join := by simp [BelowOne]
      dsimp only
      rw [hbudget', tokenBudget_reads]
      exact iff_of_true rfl hnone
    | some budget => exact positiveOrNull_reads budget
  have hunchanged : g.goalId = row.goalId ∧ g.sessionId = row.sessionId ∧
      g.createdAt = row.createdAtMs ∧ g.tokensUsed = row.tokensUsed ∧
      g.turnsUsed = row.turnsUsed ∧ g.timeUsedSeconds = row.timeUsedSeconds ∧
      g.kickoffAttachments = row.kickoffAttachments ∧ g.kickoffState = row.kickoffState ∧
      g.executionWait = none := by
    unfold rowToThreadGoalState at hread
    split_ifs at hread
    obtain rfl := Option.some.inj hread
    rw [hg]
    exact ⟨rfl, rfl, rfl, rfl, rfl, rfl, rfl, rfl, rfl⟩
  rw [read_later hwait]
  · rw [← hbudget]
    obtain ⟨h1, h2, h3, h4, h5, h6, h7, h8, h9⟩ := hunchanged
    cases g
    simp_all [readStatus]
  · exact ⟨hgoal, hsession, hobjective''⟩
  · rfl
  · exact hepoch

theorem patch_reads {goalId : String} {input : ThreadGoalPatchInput} {now : ℤ}
    (hsettled : Settled db) (hobjective : input.objective ≠ some "")
    (h : answered (patchThreadGoal goalId input now db) = some g) :
    readById g.goalId (patchThreadGoal goalId input now db).2 = some g ↔
      ¬ BelowOne input.tokenBudget.join := by
  have houtcome := patch_outcome goalId input now db
  rw [h] at houtcome
  refine houtcome.reads False.elim ?_
  rintro row hmem state row' hid hread ⟨rfl, hg⟩
  refine ⟨?_, patched_reads (hsettled row hmem) hread hobjective now hg⟩
  rw [hg]
  exact (keys_of_read hread).1.symm

theorem patch_settled (goalId : String) (input : ThreadGoalPatchInput) (now : ℤ)
    (hsettled : Settled db) : Settled (patchThreadGoal goalId input now db).2 := by
  refine (patch_outcome goalId input now db).settled hsettled ?_
  rintro row hmem state row' g hread ⟨rfl, rfl⟩ hwait
  have hepoch := updatedAt_of_read hread
  have hle : row.updatedAtMs ≤ (patched state input now).updatedAt := by
    show row.updatedAtMs ≤ max now (state.updatedAt + 1)
    omega
  exact hwait.later rfl hle

/-! ### Creating and reading back -/

theorem answered_atomically {α : Type} {m : StoreM α} {a : α}
    (h : answered (atomically m db) = some a) : m db = (.ok a, (atomically m db).2) := by
  unfold atomically at h ⊢
  rcases hm : m db with ⟨error | b, db'⟩
  · rw [hm] at h
    cases h
  · rw [hm] at h
    obtain rfl := Option.some.inj h
    rfl

/-- A Goal that is created is read of its row, if it has ids and its budget was not rounded to
zero. -/
theorem created_reads {input : ThreadGoalCreateInput} {goalId : String} {now : ℤ}
    (hobjective : input.objective ≠ "") :
    rowToThreadGoalState (createdRow input goalId now) = some {
        goalId, sessionId := input.sessionId, objective := input.objective
        objectiveResources := input.objectiveResources, status := .active
        createdAt := now, updatedAt := now, tokensUsed := 0, turnsUsed := 0, timeUsedSeconds := 0
        tokenBudget := input.tokenBudget.bind positiveOrNull, replyFingerprint := none
        noProgressStreak := 0, noToolStreak := 0, lastVerification := none
        lastWorkerProposal := none, statusReason := none
        kickoffAttachments := input.kickoffAttachments, kickoffState := .pending
        executionWait := none } ↔
      ¬ BelowOne input.tokenBudget ∧ goalId ≠ "" ∧ input.sessionId ≠ "" := by
  rw [← positiveOrNull_reads]
  unfold rowToThreadGoalState createdRow
  dsimp only
  by_cases hempty : goalId = "" ∨ input.sessionId = "" ∨ input.objective = ""
  · rw [if_pos hempty]
    simp only [reduceCtorEq, false_iff]
    tauto
  · have hids : goalId ≠ "" ∧ input.sessionId ≠ "" := by tauto
    rw [if_neg hempty]
    simp [hids, readStatus, readLastVerification, readLastWorkerProposal]

/-- What an insertion that is answered for leaves and answers. -/
theorem inserted_of_ok {α : Type} {row : ThreadGoalDbRow} {k : Option GoalTable → StoreM α}
    {a b : α} {db db' : GoalTable} (h : (Effect.read (·.insert row) >>= k) db = (.ok a, db'))
    (hnone : k none db ≠ (.ok a, db')) (hsome : ∀ U, k (some U) db = (.ok b, U)) :
    row ∈ db'.rows ∧ a = b := by
  have hrows := insertion_ok h hnone fun U => by rw [hsome]
  change k (db.insert row) db = (.ok a, db') at h
  cases hinsert : db.insert row with
  | none => exact absurd (hinsert ▸ h) hnone
  | some inserted =>
    rw [hinsert, hsome] at h
    cases h
    rw [hrows]
    exact ⟨by simp, rfl⟩

theorem create_spec {input : ThreadGoalCreateInput} {goalId : String} {now : ℤ}
    (h : answered (create input goalId now db) = some g) :
    createdRow input goalId now ∈ (create input goalId now db).2.rows ∧ g = {
        goalId, sessionId := input.sessionId, objective := input.objective
        objectiveResources := input.objectiveResources, status := .active
        createdAt := now, updatedAt := now, tokensUsed := 0, turnsUsed := 0, timeUsedSeconds := 0
        tokenBudget := input.tokenBudget.bind positiveOrNull, replyFingerprint := none
        noProgressStreak := 0, noToolStreak := 0, lastVerification := none
        lastWorkerProposal := none, statusReason := none
        kickoffAttachments := input.kickoffAttachments, kickoffState := .pending
        executionWait := none } := by
  unfold create at h ⊢
  have hok := answered_atomically h
  rw [selectBySession_bind] at hok
  cases hfind : db.rows.find? (·.sessionId = input.sessionId) with
  | none =>
    rw [hfind] at hok
    exact inserted_of_ok hok nofun fun _ => rfl
  | some row =>
    rw [hfind] at hok
    dsimp only at hok
    split_ifs at hok with hopen
    · cases hok
    · rw [change_bind] at hok
      exact inserted_of_ok hok nofun fun _ => rfl

theorem create_settled (input : ThreadGoalCreateInput) (goalId : String) (now : ℤ)
    (hsettled : Settled db) : Settled (create input goalId now db).2 := by
  rcases create_rows input goalId now db with heq | ⟨-, hrows⟩
  · rwa [heq]
  · intro r hr
    rw [hrows] at hr
    rcases List.mem_append.1 hr with hr | hr
    · exact hsettled r (List.mem_filter.1 hr).1
    · rw [List.mem_singleton.1 hr]
      intro epoch hepoch
      simp [createdRow] at hepoch

/-- An operation that rewrites rows and reads one back. -/
theorem updateWhere_reads {p q : ThreadGoalDbRow → Bool}
    {f : ThreadGoalDbRow → ThreadGoalDbRow} {hgoal : ∀ r, (f r).goalId = r.goalId}
    {hsession : ∀ r, (f r).sessionId = r.sessionId} {read : StoreM (Option ThreadGoalState)}
    (hread : ∀ db, read db = (.ok ((db.rows.find? q).bind rowToThreadGoalState), db))
    (h : (answered ((updateWhere p f hgoal hsession >>= fun changes =>
      if changes = 0 then pure none else read) db)).join = some g) :
    readById g.goalId ((updateWhere p f hgoal hsession >>= fun changes =>
      if changes = 0 then pure none else read) db).2 = some g := by
  rw [updateWhere_bind] at h ⊢
  split_ifs at h ⊢ with hnone
  · cases h
  · rw [hread] at h ⊢
    exact readById_of_read h

theorem atomically_reads {m : StoreM (Option ThreadGoalState)}
    (hm : (answered (m db)).join = some g → readById g.goalId (m db).2 = some g)
    (h : (answered (atomically m db)).join = some g) :
    readById g.goalId (atomically m db).2 = some g := by
  have hok := answered_atomically (Option.join_eq_some_iff.1 h)
  rw [hok] at hm
  exact hm rfl

theorem setThreadGoalExecutionWait_reads {goalId : String} {expectedUpdatedAt : ℤ}
    {reason : ThreadGoalWaitReason} {now : ℤ}
    (h : (answered (setThreadGoalExecutionWait goalId expectedUpdatedAt reason now db)).join =
      some g) :
    readById g.goalId (setThreadGoalExecutionWait goalId expectedUpdatedAt reason now db).2 =
      some g := by
  unfold setThreadGoalExecutionWait at h ⊢
  refine atomically_reads (fun h => ?_) h
  rw [selectById_bind] at h ⊢
  cases hcurrent : (db.rows.find? (·.goalId = goalId)).filter
      (fun r => r.status = some .active && r.updatedAtMs = expectedUpdatedAt) with
  | none =>
    rw [hcurrent] at h
    cases h
  | some current =>
    rw [hcurrent] at h
    dsimp only at h ⊢
    split_ifs at h ⊢ with hvisible
    · cases h
    · exact updateWhere_reads (fun _ => rfl) h

theorem clearThreadGoalExecutionWait_reads {goalId : String} {expectedUpdatedAt : ℤ}
    (h : (answered (clearThreadGoalExecutionWait goalId expectedUpdatedAt db)).join = some g) :
    readById g.goalId (clearThreadGoalExecutionWait goalId expectedUpdatedAt db).2 = some g := by
  unfold clearThreadGoalExecutionWait at h ⊢
  refine atomically_reads (fun h => ?_) h
  rw [selectById_bind] at h ⊢
  cases hcurrent : (db.rows.find? (·.goalId = goalId)).filter
      (fun r => r.status = some .active && r.updatedAtMs = expectedUpdatedAt) with
  | none =>
    rw [hcurrent] at h
    cases h
  | some current =>
    rw [hcurrent] at h
    dsimp only at h ⊢
    split_ifs at h ⊢ with hvisible
    · cases h
    · exact updateWhere_reads (fun _ => rfl) h

/-- What a transaction leaves has its waits behind, if what its body leaves does. -/
theorem settled_atomically {α : Type} {m : StoreM α} (hsettled : Settled db)
    (h : Settled (m db).2) : Settled (atomically m db).2 := by
  rcases @atomically_snd α m db with heq | heq <;> rw [heq]
  · exact h
  · exact hsettled

theorem setThreadGoalExecutionWait_settled (goalId : String) (expectedUpdatedAt : ℤ)
    (reason : ThreadGoalWaitReason) (now : ℤ) (hsettled : Settled db) :
    Settled (setThreadGoalExecutionWait goalId expectedUpdatedAt reason now db).2 := by
  unfold setThreadGoalExecutionWait
  refine settled_atomically hsettled ?_
  rw [selectById_bind]
  cases (db.rows.find? (·.goalId = goalId)).filter
      (fun r => r.status = some .active && r.updatedAtMs = expectedUpdatedAt) with
  | none => exact hsettled
  | some current =>
    dsimp only
    split_ifs with hvisible
    · exact hsettled
    · rw [updateWhere_bind, snd_ite rfl rfl]
      refine hsettled.update fun r _ hp _ epoch hepoch => ?_
      obtain rfl : expectedUpdatedAt = epoch := Option.some.inj hepoch
      exact (activeAt_iff.1 hp).2.1.ge

theorem clearThreadGoalExecutionWait_settled (goalId : String) (expectedUpdatedAt : ℤ)
    (hsettled : Settled db) :
    Settled (clearThreadGoalExecutionWait goalId expectedUpdatedAt db).2 := by
  unfold clearThreadGoalExecutionWait
  refine settled_atomically hsettled ?_
  rw [selectById_bind]
  cases (db.rows.find? (·.goalId = goalId)).filter
      (fun r => r.status = some .active && r.updatedAtMs = expectedUpdatedAt) with
  | none => exact hsettled
  | some current =>
    dsimp only
    split_ifs with hvisible
    · exact hsettled
    · rw [updateWhere_bind, snd_ite rfl rfl]
      exact hsettled.update fun r _ _ _ epoch hepoch => by cases hepoch

/-! ### Any operation -/

/-- No operation leaves a wait of a later epoch. -/
theorem apply_settled (hsettled : Settled db) (e : StoreEvent) :
    Settled (e.apply digest fingerprint db) := by
  cases e with
  | create input goalId now => exact create_settled input goalId now hsettled
  | patch goalId input now => exact patch_settled goalId input now hsettled
  | pauseActiveBySession sessionId reason now =>
    show Settled (pauseActiveBySession sessionId reason now db).2
    unfold pauseActiveBySession
    rw [updateWhere_bind, snd_ite rfl rfl]
    refine hsettled.update fun r _ _ hwait => hwait.later rfl ?_
    show r.updatedAtMs ≤ max now (r.updatedAtMs + 1)
    omega
  | transitionActiveAtEpoch goalId expectedEpoch input now =>
    show Settled (transitionActiveAtEpoch goalId expectedEpoch input now db).2
    unfold transitionActiveAtEpoch
    rw [updateWhere_bind, snd_ite rfl rfl]
    refine hsettled.update fun r _ hp hwait => hwait.later rfl ?_
    have hepoch := (activeAt_iff.1 hp).2.1
    show r.updatedAtMs ≤ max now (expectedEpoch + 1)
    omega
  | resetBreakerAtEpoch goalId expectedEpoch now =>
    show Settled (resetBreakerAtEpoch goalId expectedEpoch now db).2
    unfold resetBreakerAtEpoch
    rw [updateWhere_bind, snd_ite rfl rfl]
    refine hsettled.update fun r _ hp hwait => hwait.later rfl ?_
    have hepoch := (activeAt_iff.1 hp).2.1
    show r.updatedAtMs ≤ max now (expectedEpoch + 1)
    omega
  | bumpBoundUsage binding delta limits now =>
    exact bump_settled digest binding delta limits now hsettled
  | settleBoundTurn input now => exact settle_settled digest input now hsettled
  | updateBreaker goalId input now => exact breaker_settled goalId input now hsettled
  | recordVerification input now => exact record_settled digest fingerprint input now hsettled
  | setExecutionWaitAtEpoch goalId expectedUpdatedAt reason now =>
    exact setThreadGoalExecutionWait_settled goalId expectedUpdatedAt reason now hsettled
  | clearExecutionWaitAtEpoch goalId expectedUpdatedAt =>
    exact clearThreadGoalExecutionWait_settled goalId expectedUpdatedAt hsettled
  | transitionKickoffState goalId expected next =>
    show Settled (transitionKickoffState goalId expected next db).2
    unfold transitionKickoffState
    rw [updateWhere_bind, snd_ite rfl rfl]
    exact hsettled.update fun r _ _ hwait => hwait.later rfl le_rfl

theorem reachable_settled {s : GoalStore} (h : (storeMachine digest fingerprint).Reachable s) :
    Settled s.table :=
  @Machine.Reachable.invariant _ _ _ _ (fun s => Settled s.table) (by simp [Settled, storeMachine])
    (fun _ e hs => apply_settled digest fingerprint hs e) s h

theorem answer_reads (hfingerprint : ∀ missing, fingerprint missing ≠ "") (hsettled : Settled db)
    {op : StoreOperation} (hobjective : op.HasObjective)
    (h : op.answer digest fingerprint db = some g) :
    readById g.goalId (op.after digest fingerprint db) = some g ↔ op.ReadsBack digest db := by
  cases op with
  | getById goalId => exact iff_of_true (readById_of_read h) trivial
  | getBySession sessionId => exact iff_of_true (readById_of_read h) trivial
  | write e =>
    cases e with
    | create input goalId now =>
      obtain ⟨hmem, rfl⟩ := create_spec h
      refine Iff.trans ?_ (@created_reads input goalId now hobjective)
      rw [readById]
      show (((create input goalId now db).2.rows.find? (·.goalId = (createdRow input goalId
        now).goalId)).bind rowToThreadGoalState = _) ↔ _
      rw [selected_of_mem hmem]
      rfl
    | patch goalId input now => exact patch_reads hsettled hobjective h
    | pauseActiveBySession sessionId reason now =>
      exact iff_of_true (updateWhere_reads (fun _ => rfl) h) trivial
    | transitionActiveAtEpoch goalId expectedEpoch input now =>
      exact iff_of_true (updateWhere_reads (fun _ => rfl) h) trivial
    | resetBreakerAtEpoch goalId expectedEpoch now =>
      exact iff_of_true (updateWhere_reads (fun _ => rfl) h) trivial
    | bumpBoundUsage binding delta limits now =>
      exact iff_of_true (bump_reads digest hsettled h) trivial
    | settleBoundTurn input now => exact settle_reads digest hsettled h
    | updateBreaker goalId input now => exact iff_of_true (breaker_reads hsettled h) trivial
    | recordVerification input now =>
      exact record_reads digest fingerprint hfingerprint hsettled h
    | setExecutionWaitAtEpoch goalId expectedUpdatedAt reason now =>
      exact iff_of_true (setThreadGoalExecutionWait_reads h) trivial
    | clearExecutionWaitAtEpoch goalId expectedUpdatedAt =>
      exact iff_of_true (clearThreadGoalExecutionWait_reads h) trivial
    | transitionKickoffState goalId expected next =>
      exact iff_of_true (updateWhere_reads (fun _ => rfl) h) trivial

/-- A Goal is created with a budget. -/
def budgeted (budget : ℚ) : StoreOperation :=
  .write (.create ⟨"s", "ship it", some (.finite budget), [], []⟩ "g" 0)

end Kinetick.Goal
