import Kinetick.Goal.TimeAccounting

/-!
# The time a Goal was active

By its status, the time a Goal was active grows with the clock, or stands where the Goal was paused
or stopped, and what the accounting holds is the time it was not. Each event keeps this, unless a
stopped Goal goes on, of whose stop the accounting knows no more than its row says.
-/

namespace Kinetick.Goal

namespace AccountedTurn

open TimeAccounting

variable {turn : AccountedTurn}

/-- From when the time counts. -/
def countedFrom (turn : AccountedTurn) : ℤ := max turn.timing.startedAtMs turn.goal.createdAt

/-- The baseline of the Turn, if it is of the Goal. -/
def current (turn : AccountedTurn) : Option GoalTurnTimeBaseline :=
  (turn.baselines turn.timing.turnId).filter (GoalTurnTimeBaseline.isOf turn.timing turn.goal)

/-- How long the Goal was paused, as far as that is accounted. -/
def total (turn : AccountedTurn) : ℤ :=
  turn.current.elim 0 GoalTurnTimeBaseline.totalPausedDurationMs

/-- Since when the Goal is paused, as far as that is accounted. -/
def paused (turn : AccountedTurn) : Option ℤ := turn.current.bind GoalTurnTimeBaseline.pausedAtMs

/-- When the row says that it was changed, within the Turn. -/
def changedAt (turn : AccountedTurn) : ℤ := clampToTimingWindow turn.timing turn.goal.updatedAt

/-- How long the Goal was paused, if it is so no more. -/
def resumedTotal (turn : AccountedTurn) : ℤ :=
  turn.total + turn.paused.elim 0 fun pausedAtMs => max 0 (turn.changedAt - pausedAtMs)

/-- The Turn runs since a time after the Goal was created, and a baseline of the Goal counts from
then. -/
structure Based (turn : AccountedTurn) : Prop where
  from_le : turn.countedFrom ≤ turn.now
  ended : ∀ endedAt ∈ turn.timing.endedAtMs, turn.countedFrom ≤ endedAt ∧ endedAt ≤ turn.now
  baseline : ∀ baseline ∈ turn.current, baseline.countingStartedAtMs = turn.countedFrom

theorem current_eq_some {baseline : GoalTurnTimeBaseline} :
    turn.current = some baseline ↔ turn.baselines turn.timing.turnId = some baseline ∧
      baseline.isOf turn.timing turn.goal = true :=
  Option.filter_eq_some_iff

theorem effectiveElapsedSeconds_eq (timing : LocalActiveTurnTiming)
    (baseline : GoalTurnTimeBaseline) (endAtMs : ℤ) :
    effectiveElapsedSeconds timing baseline endAtMs =
      ⌈((max 0 (clampToTimingWindow timing endAtMs - baseline.countingStartedAtMs -
        baseline.totalPausedDurationMs) : ℤ) : ℚ) / 1000⌉ := by
  unfold effectiveElapsedSeconds
  dsimp only
  split_ifs with h
  · rw [h]
    simp
  · rfl

/-- A baseline is there, or made as the accounting stands. -/
theorem resolveOrCreate_spec (h : turn.Based) {t : ℤ} (ht : turn.now ≤ t) :
    ∃ baseline, resolveOrCreate t turn.timing turn.goal turn.baselines =
        (baseline, Function.update turn.baselines turn.timing.turnId (some baseline)) ∧
      baseline.isOf turn.timing turn.goal = true ∧ baseline.countingStartedAtMs = turn.countedFrom ∧
      baseline.totalPausedDurationMs = turn.total ∧ baseline.pausedAtMs = turn.paused := by
  have hcurrent : (turn.baselines turn.timing.turnId).filter
      (GoalTurnTimeBaseline.isOf turn.timing turn.goal) = turn.current := rfl
  unfold resolveOrCreate total paused
  rw [hcurrent]
  cases hbaseline : turn.current with
  | some baseline =>
    obtain ⟨hsome, hof⟩ := current_eq_some.1 hbaseline
    refine ⟨baseline, ?_, hof, h.baseline baseline hbaseline, rfl, rfl⟩
    show (baseline, turn.baselines) = _
    rw [← hsome, Function.update_eq_self]
  | none =>
    refine ⟨_, rfl, by simp [GoalTurnTimeBaseline.isOf], ?_, rfl, rfl⟩
    have hfrom := h.from_le
    have hended := h.ended
    unfold resolveCountingStartedAtMs
    unfold countedFrom at *
    cases hcase : turn.timing.endedAtMs with
    | none =>
      simp only [Option.getD_none]
      omega
    | some endedAt =>
      have hle := hended endedAt hcase
      simp only [Option.getD_some]
      omega

/-- What a baseline of the Goal becomes that is resumed. -/
theorem resumeBaseline_spec {baseline : GoalTurnTimeBaseline} {baselines : Baselines}
    (hof : baseline.isOf turn.timing turn.goal = true)
    (hbaselines : baselines turn.timing.turnId = some baseline)
    (htotal : baseline.totalPausedDurationMs = turn.total)
    (hpaused : baseline.pausedAtMs = turn.paused) :
    ∃ resumed, resumeBaseline turn.timing turn.goal baseline baselines =
        (resumed, Function.update baselines turn.timing.turnId (some resumed)) ∧
      resumed.isOf turn.timing turn.goal = true ∧
      resumed.countingStartedAtMs = baseline.countingStartedAtMs ∧
      resumed.totalPausedDurationMs = turn.resumedTotal ∧ resumed.pausedAtMs = none := by
  unfold resumeBaseline resumedTotal
  rw [← hpaused, ← htotal]
  cases hcase : baseline.pausedAtMs with
  | none =>
    refine ⟨baseline, ?_, hof, rfl, by simp, hcase⟩
    rw [← hbaselines, Function.update_eq_self]
  | some pausedAtMs =>
    dsimp only
    rw [if_pos hof]
    exact ⟨_, rfl, hof, rfl, rfl, rfl⟩

/-- The elapsed seconds by what the accounting holds. -/
theorem elapsedSeconds_fst (h : turn.Based) {t : ℤ} (ht : turn.now ≤ t) :
    (elapsedSeconds t turn.timing turn.goal turn.baselines).1 =
      ⌈((max 0 (if turn.goal.status = .paused then
          clampToTimingWindow turn.timing (turn.paused.getD turn.changedAt) - turn.countedFrom - turn.total
        else
          clampToTimingWindow turn.timing (if turn.goal.status = .active then
            turn.timing.endedAtMs.getD t else turn.changedAt) - turn.countedFrom -
            turn.resumedTotal) : ℤ) : ℚ) / 1000⌉ := by
  obtain ⟨baseline, hresolve, hof, hcount, htotal, hpaused⟩ := resolveOrCreate_spec h ht
  obtain ⟨resumed, hresume, -, hcount', htotal', -⟩ := @resumeBaseline_spec turn baseline
    (Function.update turn.baselines turn.timing.turnId (some baseline)) hof
    (Function.update_self _ _ _) htotal hpaused
  unfold elapsedSeconds
  rw [hresolve]
  dsimp only
  unfold elapsedSecondsBy
  rw [hresume, hpaused]
  cases hstatus : turn.goal.status with
  | paused =>
    cases hcase : turn.paused with
    | none => simp [isTerminalStatus, effectiveElapsedSeconds_eq, hcount, htotal, changedAt]
    | some pausedAtMs =>
      simp [isTerminalStatus, effectiveElapsedSeconds_eq, hcount, htotal]
  | active =>
    simp [isTerminalStatus, effectiveElapsedSeconds_eq, hcount, hcount', htotal']
  | _ =>
    simp [isTerminalStatus, effectiveElapsedSeconds_eq, hcount, hcount', htotal', changedAt]

/-! ### Calls -/

/-- A Turn with this baseline for its Goal. -/
theorem Based.of_update (h : turn.Based) {turn' : AccountedTurn} {baseline : GoalTurnTimeBaseline}
    {baselines : Baselines} (htiming : turn'.timing = turn.timing) (hgoal : turn'.goal = turn.goal)
    (hnow : turn.now ≤ turn'.now)
    (hbaselines : turn'.baselines = Function.update baselines turn.timing.turnId (some baseline))
    (hof : baseline.isOf turn.timing turn.goal = true)
    (hcount : baseline.countingStartedAtMs = turn.countedFrom) :
    turn'.Based ∧ turn'.total = baseline.totalPausedDurationMs ∧
      turn'.paused = baseline.pausedAtMs := by
  have hself : turn'.baselines turn'.timing.turnId = some baseline := by
    rw [hbaselines, htiming, Function.update_self]
  have hcurrent : turn'.current = some baseline :=
    current_eq_some.2 ⟨hself, by rwa [htiming, hgoal]⟩
  have hfrom : turn'.countedFrom = turn.countedFrom := by
    rw [countedFrom, htiming, hgoal]
    rfl
  refine ⟨⟨?_, ?_, ?_⟩, ?_, ?_⟩
  · have hle := h.from_le
    rw [hfrom]
    omega
  · intro endedAt hended
    rw [htiming] at hended
    have hle := h.ended endedAt hended
    rw [hfrom]
    omega
  · intro baseline' hbaseline'
    rw [hcurrent] at hbaseline'
    rw [← Option.some.inj hbaseline', hfrom]
    exact hcount
  · rw [total, hcurrent]
    rfl
  · rw [paused, hcurrent]
    rfl

/-- A call in a pause notes since when it is, unless that is noted. -/
theorem perform_paused (h : turn.Based) {t : ℤ} (ht : turn.now ≤ t) {call : AccountingCall}
    (hcall : call ≠ .resume) (hstatus : turn.goal.status = .paused) :
    (turn.perform t call).Based ∧ (turn.perform t call).total = turn.total ∧
      (turn.perform t call).paused = some (turn.paused.getD turn.changedAt) := by
  obtain ⟨baseline, hresolve, hof, hcount, htotal, hpaused⟩ := resolveOrCreate_spec h ht
  have helapsed : ∃ elapsed, elapsedSecondsBy t turn.timing turn.goal baseline
      (Function.update turn.baselines turn.timing.turnId (some baseline)) =
        (elapsed, Function.update turn.baselines turn.timing.turnId
          (some { baseline with pausedAtMs := some (turn.paused.getD turn.changedAt) })) := by
    unfold elapsedSecondsBy
    rw [hstatus, hpaused]
    cases hcase : turn.paused with
    | none =>
      refine ⟨_, Prod.ext rfl ?_⟩
      simp [isTerminalStatus, changedAt]
    | some pausedAtMs =>
      have hself : { baseline with pausedAtMs := some pausedAtMs } = baseline := by
        rw [← hcase, ← hpaused]
      refine ⟨_, Prod.ext rfl ?_⟩
      simp [isTerminalStatus, hself]
  obtain ⟨elapsed, helapsed⟩ := helapsed
  have hbaselines : (turn.perform t call).baselines = Function.update turn.baselines
      turn.timing.turnId (some { baseline with
        pausedAtMs := some (turn.paused.getD turn.changedAt) }) := by
    cases call with
    | project => simp only [perform, project, hresolve, helapsed]
    | elapsedSeconds => simp only [perform, elapsedSeconds, hresolve, helapsed]
    | resume => exact absurd rfl hcall
  obtain ⟨hbased, htotal', hpaused'⟩ := @Based.of_update _ h (turn.perform t call) _ _
    (by cases call <;> rfl) (by cases call <;> rfl) (by cases call <;> exact ht) hbaselines hof hcount
  exact ⟨hbased, htotal'.trans htotal, hpaused'⟩

/-- To resume with a baseline of another Goal does nothing. -/
theorem perform_resume_other (h : turn.Based) {t : ℤ} (ht : turn.now ≤ t)
    {other : GoalTurnTimeBaseline} (hsome : turn.baselines turn.timing.turnId = some other)
    (hof : other.isOf turn.timing turn.goal = false) :
    (turn.perform t .resume).Based ∧ (turn.perform t .resume).total = turn.resumedTotal ∧
      (turn.perform t .resume).paused = none := by
  have hnone : turn.current = none := by
    rw [current, hsome, Option.filter_some, hof]
    rfl
  have hbaselines : (turn.perform t .resume).baselines = turn.baselines := by
    unfold perform resume
    rw [hsome]
    dsimp only
    unfold resumeBaseline
    rw [hof]
    cases other.pausedAtMs <;> rfl
  have hcurrent : (turn.perform t .resume).current = none := by
    rw [current, hbaselines]
    exact hnone
  refine ⟨⟨h.from_le.trans ht, fun endedAt hended => ?_, by simp [hcurrent]⟩, ?_, ?_⟩
  · exact ⟨(h.ended endedAt hended).1, (h.ended endedAt hended).2.trans ht⟩
  · rw [resumedTotal, total, total, paused, hcurrent, hnone]
    rfl
  · rw [paused, hcurrent]
    rfl

/-- Any other call ends a pause that is noted. -/
theorem perform_resumed (h : turn.Based) {t : ℤ} (ht : turn.now ≤ t) {call : AccountingCall}
    (hcall : call = .resume ∨ turn.goal.status ≠ .paused) :
    (turn.perform t call).Based ∧ (turn.perform t call).total = turn.resumedTotal ∧
      (turn.perform t call).paused = none := by
  obtain ⟨baseline, hresolve, hof, hcount, htotal, hpaused⟩ := resolveOrCreate_spec h ht
  obtain ⟨resumed, hresume, hof', hcount', htotal', hpaused'⟩ := @resumeBaseline_spec turn baseline
    (Function.update turn.baselines turn.timing.turnId (some baseline)) hof
    (Function.update_self _ _ _) htotal hpaused
  have helapsed (hstatus : turn.goal.status ≠ .paused) : ∃ elapsed,
      elapsedSecondsBy t turn.timing turn.goal baseline
        (Function.update turn.baselines turn.timing.turnId (some baseline)) =
          (elapsed, Function.update (Function.update turn.baselines turn.timing.turnId
            (some baseline)) turn.timing.turnId (some resumed)) := by
    unfold elapsedSecondsBy
    rw [hresume]
    split_ifs
    · exact ⟨_, rfl⟩
    · exact ⟨_, rfl⟩
  have hcalled (hcurrent : ∀ current, turn.baselines turn.timing.turnId = some current →
      current.isOf turn.timing turn.goal = true) :
      (turn.perform t .resume).baselines = Function.update (Function.update turn.baselines
        turn.timing.turnId (some baseline)) turn.timing.turnId (some resumed) := by
    unfold perform resume
    cases hcase : turn.baselines turn.timing.turnId with
    | none =>
      have hnone : baseline.pausedAtMs = none := by rw [hpaused, paused, current, hcase]; rfl
      have hsame : resumed = baseline := by
        have hfst := congrArg Prod.fst hresume
        unfold resumeBaseline at hfst
        rw [hnone] at hfst
        exact hfst.symm
      simp only [hresolve, hsame, Function.update_idem]
    | some current =>
      have hof := hcurrent current hcase
      have hcurrent : current = baseline := by
        have hfst := congrArg Prod.fst hresolve
        unfold resolveOrCreate at hfst
        rw [hcase, Option.filter_some, if_pos hof] at hfst
        exact hfst
      have hself : Function.update turn.baselines turn.timing.turnId (some baseline) =
          turn.baselines := by
        rw [← hcurrent, ← hcase, Function.update_eq_self]
      rw [hself] at hresume ⊢
      simp only [hcurrent, hresume]
  by_cases hother : call = .resume ∧ ∃ other, turn.baselines turn.timing.turnId = some other ∧
      other.isOf turn.timing turn.goal = false
  · obtain ⟨rfl, other, hsome, hof⟩ := hother
    exact perform_resume_other h ht hsome hof
  have hbaselines : ∃ baselines, (turn.perform t call).baselines = Function.update baselines
      turn.timing.turnId (some resumed) := by
    cases call with
    | resume => exact ⟨_, hcalled (by simpa using hother)⟩
    | project =>
      obtain ⟨elapsed, helapsed⟩ := helapsed (hcall.resolve_left (by simp))
      exact ⟨_, by simp only [perform, project, hresolve, helapsed]; rfl⟩
    | elapsedSeconds =>
      obtain ⟨elapsed, helapsed⟩ := helapsed (hcall.resolve_left (by simp))
      exact ⟨_, by simp only [perform, elapsedSeconds, hresolve, helapsed]; rfl⟩
  obtain ⟨baselines, hbaselines⟩ := hbaselines
  obtain ⟨hbased, htotal'', hpaused''⟩ := @Based.of_update _ h (turn.perform t call) _ _
    (by cases call <;> rfl) (by cases call <;> rfl) (by cases call <;> exact ht) hbaselines hof'
    (hcount'.trans hcount)
  exact ⟨hbased, htotal''.trans htotal', hpaused''.trans hpaused'⟩

/-! ### Changes -/

/-- Until when the Turn goes, by this time. -/
def endBy (turn : AccountedTurn) (t : ℤ) : ℤ := turn.timing.endedAtMs.getD t

/-- Until when, by this time, the Goal was active last, as far as the accounting knows. -/
def activeUntil (turn : AccountedTurn) (t : ℤ) : ℤ :=
  if turn.goal.status = .active then turn.endBy t else turn.paused.getD turn.changedAt

theorem Based.endBy_bounds (h : turn.Based) {t t' : ℤ} (ht : turn.now ≤ t) (ht' : t ≤ t') :
    turn.timing.startedAtMs ≤ turn.countedFrom ∧ turn.countedFrom ≤ turn.endBy t ∧
      turn.endBy t ≤ turn.endBy t' ∧ turn.endBy t ≤ t := by
  have hfrom := h.from_le
  have hended := h.ended
  have hle : turn.timing.startedAtMs ≤ turn.countedFrom := le_max_left _ _
  unfold endBy
  cases hcase : turn.timing.endedAtMs with
  | none =>
    simp only [Option.getD_none]
    omega
  | some endedAt =>
    have hbounds := hended endedAt hcase
    simp only [Option.getD_some]
    omega

theorem Based.clampToTimingWindow_eq (h : turn.Based) {t : ℤ} (ht : turn.now ≤ t) :
    clampToTimingWindow turn.timing t = turn.endBy t := by
  have hbounds := h.endBy_bounds ht (le_refl t)
  unfold clampToTimingWindow
  unfold endBy at *
  omega

theorem Based.clampToTimingWindow_le (h : turn.Based) {t : ℤ} (ht : t ≤ turn.now) :
    clampToTimingWindow turn.timing t ≤ turn.endBy turn.now := by
  have hbounds := h.endBy_bounds (le_refl turn.now) (le_refl turn.now)
  unfold clampToTimingWindow
  unfold endBy at *
  cases hcase : turn.timing.endedAtMs with
  | none =>
    simp only [hcase, Option.getD_none] at *
    omega
  | some endedAt =>
    simp only [hcase, Option.getD_some] at *
    omega

/-- A time in the Turn is within it. -/
theorem Based.clampToTimingWindow_self (h : turn.Based) {t t' : ℤ} (ht : turn.now ≤ t)
    (hle : turn.countedFrom ≤ t') (hend : t' ≤ turn.endBy t) :
    clampToTimingWindow turn.timing t' = t' := by
  have hbounds := h.endBy_bounds ht (le_refl t)
  unfold clampToTimingWindow
  unfold endBy at *
  cases hcase : turn.timing.endedAtMs with
  | none =>
    simp only [Option.getD_none]
    omega
  | some endedAt =>
    simp only [hcase, Option.getD_some] at *
    omega

/-- The time active grows after a change to active, and stands after any other. -/
theorem Based.activeMsBefore_changed (h : turn.Based) {time t : ℤ} (htime : turn.now ≤ time)
    (ht : time ≤ t) (status : ThreadGoalStatus) :
    (turn.changed time status).activeMsBefore t =
      (if status = .active then turn.endBy t - turn.endBy time else 0) +
        turn.activeMsBefore time := by
  have hbounds := h.endBy_bounds htime ht
  have hfrom := h.from_le
  have hmin : min (turn.endBy t) time = turn.endBy time ∧
      max 0 (turn.endBy t - max turn.countedFrom time) = turn.endBy t - turn.endBy time := by
    unfold endBy at *
    cases hcase : turn.timing.endedAtMs with
    | none =>
      simp only [Option.getD_none]
      omega
    | some endedAt =>
      simp only [hcase, Option.getD_some] at *
      omega
  show (if status = .active then max 0 (turn.endBy t - max turn.countedFrom time) else 0) +
    activeMs turn.countedFrom (min (turn.endBy t) time) turn.history = _
  rw [hmin.1, hmin.2]
  rfl

/-! ### Runs -/

/-- The accounting holds how long the Goal was not active until it was so last. -/
structure Accounted (turn : AccountedTurn) : Prop where
  based : turn.Based
  changed : turn.goal.updatedAt ≤ turn.now
  total_nonneg : 0 ≤ turn.total
  unpaused : turn.goal.status ≠ .paused → turn.paused = none
  noted : turn.goal.status = .paused → turn.noted = true → turn.paused.isSome = true
  paused_le : turn.paused.getD turn.changedAt ≤ turn.changedAt
  active : ∀ t, turn.now ≤ t → turn.activeMsBefore t =
    turn.activeUntil t - turn.countedFrom - turn.total ∧
      turn.countedFrom + turn.total ≤ turn.activeUntil t

theorem Accounted.activeUntil_le (h : turn.Accounted) {t : ℤ} (ht : turn.now ≤ t) :
    turn.activeUntil t ≤ turn.endBy t := by
  have hbounds := h.based.endBy_bounds (le_refl _) ht
  have hclamp := h.based.clampToTimingWindow_le h.changed
  have hpaused := h.paused_le
  unfold activeUntil
  split_ifs
  · exact le_refl _
  · unfold changedAt at *
    omega

/-- The elapsed seconds are those the Goal was active for. -/
theorem Accounted.right (h : turn.Accounted) : turn.Right := by
  intro t ht
  obtain ⟨hactive, hle⟩ := h.active t ht
  have hself : clampToTimingWindow turn.timing (turn.activeUntil t) = turn.activeUntil t :=
    h.based.clampToTimingWindow_self ht (by have := h.total_nonneg; omega) (h.activeUntil_le ht)
  have hmax : max 0 (turn.activeUntil t - turn.countedFrom - turn.total) = turn.activeMsBefore t := by
    omega
  rw [elapsedSeconds_fst h.based ht, ← hmax, ← hself]
  unfold activeUntil resumedTotal endBy at *
  by_cases hstatus : turn.goal.status = .paused
  · simp [hstatus]
  · simp [hstatus, h.unpaused hstatus]

/-- A call leaves all but what is accounted, and the clock goes on. -/
theorem Accounted.perform (h : turn.Accounted) {t : ℤ} (ht : turn.now ≤ t)
    (call : AccountingCall) : (turn.perform t call).Accounted := by
  have hgoal : (turn.perform t call).goal = turn.goal := by cases call <;> rfl
  have htiming : (turn.perform t call).timing = turn.timing := by cases call <;> rfl
  have hnow : (turn.perform t call).now = t := by cases call <;> rfl
  have hfrom : (turn.perform t call).countedFrom = turn.countedFrom := by
    rw [countedFrom, hgoal, htiming]
    rfl
  have hchangedAt : (turn.perform t call).changedAt = turn.changedAt := by
    rw [changedAt, hgoal, htiming]
    rfl
  have hend (t' : ℤ) : (turn.perform t call).endBy t' = turn.endBy t' := by
    rw [endBy, htiming]
    rfl
  have hbefore (t' : ℤ) : (turn.perform t call).activeMsBefore t' = turn.activeMsBefore t' := by
    cases call <;> rfl
  have hchanged := h.changed
  have htotal := h.total_nonneg
  have hle := h.paused_le
  by_cases hcall : call = .resume ∨ turn.goal.status ≠ .paused
  · obtain ⟨hbased, htotal', hpaused'⟩ := perform_resumed h.based ht hcall
    unfold resumedTotal at htotal'
    refine ⟨hbased, ?_, ?_, fun _ => hpaused', ?_, ?_, ?_⟩
    · rw [hgoal, hnow]
      omega
    · rw [htotal']
      cases turn.paused <;> simp <;> omega
    · rw [hgoal]
      intro hstatus hnoted
      rcases hcall with rfl | hcall
      · exact absurd hnoted (by simp [AccountedTurn.perform])
      · exact absurd hstatus hcall
    · rw [hpaused']
      exact le_refl _
    · intro t' ht'
      rw [hnow] at ht'
      obtain ⟨hactive, hlow⟩ := h.active t' (by omega)
      have hunpaused := h.unpaused
      rw [hbefore, hfrom, htotal', hactive]
      unfold activeUntil at *
      rw [hgoal, hend, hchangedAt, hpaused']
      cases hstatus : turn.goal.status with
      | paused =>
        rw [hstatus] at hlow
        cases hcase : turn.paused with
        | none => simp_all
        | some pausedAtMs =>
          simp only [hcase, Option.getD_some, Option.elim_some, reduceCtorEq, if_false,
            Option.getD_none] at *
          omega
      | _ =>
        have hnone := hunpaused (by simp [hstatus])
        simp_all
  · have hstatus : turn.goal.status = .paused := by
      by_contra hstatus
      exact hcall (.inr hstatus)
    obtain ⟨hbased, htotal', hpaused'⟩ := perform_paused h.based ht (fun hcase => hcall (.inl hcase))
      hstatus
    refine ⟨hbased, ?_, ?_, ?_, ?_, ?_, ?_⟩
    · rw [hgoal, hnow]
      omega
    · rwa [htotal']
    · rw [hgoal]
      exact fun hcase => absurd hstatus hcase
    · intro _ _
      rw [hpaused']
      rfl
    · rwa [hpaused', hchangedAt]
    · intro t' ht'
      rw [hnow] at ht'
      obtain ⟨hactive, hlow⟩ := h.active t' (by omega)
      rw [hbefore, hfrom, htotal', hactive]
      unfold activeUntil at *
      rw [hgoal, hend, hchangedAt, hpaused']
      exact ⟨rfl, hlow⟩

/-- What the accounting holds of a Goal that is watched tells until when it was active. -/
theorem Accounted.watched (h : turn.Accounted) (hwatched : turn.Watched) {time : ℤ}
    (htime : turn.now ≤ time) :
    turn.paused.getD (turn.endBy time) = turn.activeUntil time ∧
      turn.paused.elim 0 (fun pausedAtMs => max 0 (turn.endBy time - pausedAtMs)) =
        turn.endBy time - turn.activeUntil time := by
  have hle := h.activeUntil_le htime
  unfold activeUntil at *
  rcases hwatched with hstatus | ⟨hstatus, hnoted⟩
  · simp [hstatus, h.unpaused (by simp [hstatus])]
  · obtain ⟨pausedAtMs, hcase⟩ := Option.isSome_iff_exists.1 (h.noted hstatus hnoted)
    simp [hstatus, hcase] at hle ⊢
    omega

theorem Accounted.changed_based (h : turn.Accounted) {time : ℤ} (htime : turn.now ≤ time)
    (status : ThreadGoalStatus) : (turn.changed time status).Based := by
  have hfrom := h.based.from_le
  refine ⟨?_, ?_, h.based.baseline⟩
  · show turn.countedFrom ≤ time
    omega
  · intro endedAt hended
    have hbounds := h.based.ended endedAt hended
    show turn.countedFrom ≤ endedAt ∧ endedAt ≤ time
    omega

/-- A change of a watched Goal that is reported. -/
theorem Accounted.change (h : turn.Accounted) (hwatched : turn.Watched) {time reportedAt : ℤ}
    (htime : turn.now ≤ time) (hreported : time ≤ reportedAt) {status : ThreadGoalStatus}
    {report : AccountingCall} (helapsed : report ≠ .elapsedSeconds)
    (hproject : status = .paused → report = .project) :
    ((turn.changed time status).perform reportedAt report).Accounted := by
  have hbased := h.changed_based htime status
  obtain ⟨hgetD, helim⟩ := h.watched hwatched htime
  have hle := h.activeUntil_le htime
  have htotal := h.total_nonneg
  obtain ⟨hactive, hlow⟩ := h.active time htime
  have hchangedAt : clampToTimingWindow turn.timing time = turn.endBy time :=
    h.based.clampToTimingWindow_eq htime
  generalize hnext : (turn.changed time status).perform reportedAt report = next
  have hgoal : next.goal = { turn.goal with status, updatedAt := time } := by
    rw [← hnext]
    cases report <;> rfl
  have htiming : next.timing = turn.timing := by
    rw [← hnext]
    cases report <;> rfl
  have hnow : next.now = reportedAt := by
    rw [← hnext]
    cases report <;> rfl
  have hfrom : next.countedFrom = turn.countedFrom := by
    rw [countedFrom, hgoal, htiming]
    rfl
  have hchanged : next.changedAt = turn.endBy time := by
    rw [changedAt, hgoal, htiming, hchangedAt]
  have hend (t : ℤ) : next.endBy t = turn.endBy t := by
    rw [endBy, htiming]
    rfl
  have hbefore (t : ℤ) (ht : reportedAt ≤ t) : next.activeMsBefore t =
      (if status = .active then turn.endBy t - turn.endBy time else 0) +
        turn.activeMsBefore time := by
    rw [← h.based.activeMsBefore_changed htime (hreported.trans ht) status, ← hnext]
    cases report <;> rfl
  by_cases hstatus : status = .paused
  · subst hstatus
    obtain rfl := hproject rfl
    obtain ⟨hbased', htotal', hpaused'⟩ := @perform_paused _ hbased _ hreported .project (by simp) rfl
    rw [hnext] at hbased' htotal' hpaused'
    have huntil : (turn.changed time .paused).paused.getD (turn.changed time .paused).changedAt =
        turn.activeUntil time := by
      rw [← hgetD, ← hchangedAt]
      rfl
    rw [huntil] at hpaused'
    refine ⟨hbased', ?_, ?_, ?_, ?_, ?_, ?_⟩
    · rw [hgoal, hnow]
      exact hreported
    · rw [htotal']
      exact htotal
    · rw [hgoal]
      exact fun hcase => absurd rfl hcase
    · intro _ _
      rw [hpaused']
      rfl
    · rw [hpaused', hchanged]
      exact hle
    · intro t ht
      rw [hnow] at ht
      have htotal'' : next.total = turn.total := htotal'
      rw [hbefore t ht, hfrom, htotal'', activeUntil, hgoal, hpaused', hactive]
      simp [hlow]
  · obtain ⟨hbased', htotal', hpaused'⟩ := perform_resumed hbased hreported (.inr hstatus)
    rw [hnext] at hbased' htotal' hpaused'
    have htotal'' : next.total = turn.total + (turn.endBy time - turn.activeUntil time) := by
      rw [htotal', ← helim, ← hchangedAt]
      rfl
    have hmono (t : ℤ) (ht : reportedAt ≤ t) :=
      h.based.endBy_bounds htime (hreported.trans ht)
    refine ⟨hbased', ?_, ?_, fun _ => hpaused', ?_, ?_, ?_⟩
    · rw [hgoal, hnow]
      exact hreported
    · omega
    · rw [hgoal]
      exact fun hcase => absurd hcase hstatus
    · rw [hpaused']
      exact le_refl _
    · intro t ht
      rw [hnow] at ht
      have hbounds := hmono t ht
      rw [hbefore t ht, hfrom, htotal'', activeUntil, hgoal, hpaused', hend, hchanged, hactive]
      simp only [Option.getD_none]
      split_ifs <;> omega

/-- A write of the row of a watched Goal is not seen in what the accounting says. -/
theorem Accounted.touch (h : turn.Accounted) (hwatched : turn.Watched) {time : ℤ}
    (htime : turn.now ≤ time) :
    (turn.step (.touch time)).Accounted := by
  have hfrom := h.based.from_le
  have hle := h.activeUntil_le htime
  have hchangedAt : (turn.step (.touch time)).changedAt = turn.endBy time :=
    h.based.clampToTimingWindow_eq htime
  refine ⟨⟨?_, ?_, h.based.baseline⟩, le_refl _, h.total_nonneg, h.unpaused, h.noted, ?_, ?_⟩
  · show turn.countedFrom ≤ time
    omega
  · intro endedAt hended
    have hbounds := h.based.ended endedAt hended
    show turn.countedFrom ≤ endedAt ∧ endedAt ≤ time
    omega
  · rw [hchangedAt]
    show turn.paused.getD (turn.endBy time) ≤ turn.endBy time
    rw [(h.watched hwatched htime).1]
    exact hle
  · intro t ht
    have ht : time ≤ t := ht
    have huntil : (turn.step (.touch time)).activeUntil t = turn.activeUntil t := by
      have hgoal : (turn.step (.touch time)).goal.status = turn.goal.status := rfl
      rw [activeUntil, activeUntil, hchangedAt, hgoal]
      rcases hwatched with hstatus | ⟨hstatus, hnoted⟩
      · rw [if_pos hstatus, if_pos hstatus]
        rfl
      · obtain ⟨pausedAtMs, hcase⟩ := Option.isSome_iff_exists.1 (h.noted hstatus hnoted)
        have hcase' : (turn.step (.touch time)).paused = some pausedAtMs := hcase
        rw [hcase, hcase']
        rfl
    rw [huntil]
    exact h.active t (htime.trans ht)

/-- When the Turn settles, the time counts on to then. -/
theorem Accounted.settle (h : turn.Accounted) {time : ℤ} (htime : turn.now ≤ time) :
    (turn.step (.settle time)).Accounted := by
  have hbounds := h.based.endBy_bounds htime (le_refl time)
  have hend (t : ℤ) : (turn.step (.settle time)).endBy t = turn.endBy time := rfl
  have hchanged := h.changed
  have hchangedAt : (turn.step (.settle time)).changedAt = turn.changedAt := by
    show max turn.timing.startedAtMs (min turn.goal.updatedAt (turn.endBy time)) =
      max turn.timing.startedAtMs (min turn.goal.updatedAt (turn.timing.endedAtMs.getD _))
    unfold endBy
    cases hcase : turn.timing.endedAtMs with
    | none =>
      simp only [Option.getD_none]
      omega
    | some endedAt => rfl
  refine ⟨⟨?_, ?_, h.based.baseline⟩, hchanged.trans htime, h.total_nonneg, h.unpaused, h.noted,
    ?_, ?_⟩
  · show turn.countedFrom ≤ time
    omega
  · intro endedAt hended
    obtain rfl : turn.endBy time = endedAt := Option.some.inj hended
    show turn.countedFrom ≤ turn.endBy time ∧ turn.endBy time ≤ time
    omega
  · rw [hchangedAt]
    exact h.paused_le
  · intro t _
    have huntil : (turn.step (.settle time)).activeUntil t = turn.activeUntil time := by
      rw [activeUntil, activeUntil, hchangedAt, hend]
      rfl
    rw [huntil]
    exact h.active time htime

theorem Accounted.step (h : turn.Accounted) {event : AccountingEvent}
    (hpermitted : turn.Permitted event) (hunstopped : turn.Unstopped event) :
    (turn.step event).Accounted := by
  cases event with
  | change time status reportedAt report =>
    obtain ⟨htime, hreported, helapsed, hproject⟩ := hpermitted
    exact h.change hunstopped htime hreported helapsed hproject
  | touch time => exact h.touch hunstopped hpermitted
  | call time call => exact h.perform hpermitted call
  | settle time => exact h.settle hpermitted

end AccountedTurn

open AccountedTurn in
theorem StartedTurnOfGoal.accounted (start : StartedTurnOfGoal) : start.turn.Accounted := by
  have hnone : start.turn.current = none := by
    refine Option.filter_eq_none_iff.2 fun baseline hbaseline => ?_
    have hof : baseline.isOf start.turn.timing start.turn.goal = false :=
      start.fresh baseline hbaseline
    simp [hof]
  have htotal : start.turn.total = 0 := by rw [total, hnone]; rfl
  have hpaused : start.turn.paused = none := by rw [paused, hnone]; rfl
  have hrunning := start.running
  have hstarted := start.started
  have hcreated := start.created
  have hordered := start.ordered
  have hunchanged := start.unchanged
  have hfrom : start.turn.countedFrom = max start.timing.startedAtMs start.goal.createdAt := rfl
  have hchangedAt : start.turn.changedAt = start.turn.countedFrom := by
    show max start.timing.startedAtMs (min start.goal.updatedAt (start.timing.endedAtMs.getD
      start.goal.updatedAt)) = _
    rw [hrunning, hfrom, Option.getD_none]
    omega
  have hle : start.turn.countedFrom ≤ start.now := by omega
  refine ⟨⟨hle, ?_, ?_⟩, ?_, htotal.ge, fun _ => hpaused, fun _ hnoted => by simp [turn] at hnoted,
    ?_, ?_⟩
  · intro endedAt hended
    have hended : start.timing.endedAtMs = some endedAt := hended
    simp [hrunning] at hended
  · intro baseline hbaseline
    simp [hnone] at hbaseline
  · show start.goal.updatedAt ≤ start.now
    omega
  · rw [hpaused]
    exact le_refl _
  · intro t ht
    have ht : start.now ≤ t := ht
    have hend : start.turn.endBy t = t := by
      show start.timing.endedAtMs.getD t = t
      rw [hrunning]
      rfl
    have hbefore : start.turn.activeMsBefore t = if start.goal.status = .active then
        max 0 (start.turn.endBy t - max start.turn.countedFrom start.turn.countedFrom) else 0 :=
      Int.add_zero _
    rw [hbefore, activeUntil, hend, hpaused, htotal, hchangedAt]
    show _ = (if start.goal.status = .active then t else _) - _ - 0 ∧
      _ + 0 ≤ if start.goal.status = .active then t else _
    split_ifs <;> simp <;> omega

/-- While no status that stops the Goal is left, nor a pause before it was accounted, the elapsed
seconds are those in which the Goal was active, whatever was asked for in between. -/
theorem elapsed_is_active (start : StartedTurnOfGoal) {events : List AccountingEvent}
    (h : (accountedTurns start).Along (fun turn event => turn.Permitted event ∧ turn.Unstopped event)
      start.turn events) :
    (accountedTurns start).Throughout AccountedTurn.Right start.turn events :=
  h.throughout (J := AccountedTurn.Accounted) (fun _ haccounted => haccounted.right)
    (fun _ _ haccounted hstep => haccounted.step hstep.1 hstep.2) start.accounted

/-- A Goal at the start of a Turn. -/
def startedTurn : StartedTurnOfGoal where
  timing := { sessionId := "s", turnId := "t", startedAtMs := 0 }
  goal := { goalId := "g", sessionId := "s", objective := "ship it", status := .active
            createdAt := 0, updatedAt := 0, tokensUsed := 0, turnsUsed := 0, timeUsedSeconds := 0
            tokenBudget := none, objectiveResources := [], replyFingerprint := none
            noProgressStreak := 0, noToolStreak := 0, lastVerification := none
            lastWorkerProposal := none, statusReason := none, kickoffAttachments := []
            kickoffState := .consumed, executionWait := none }
  baselines _ := none
  now := 0
  running := rfl
  started := by decide
  created := by decide
  ordered := by decide
  unchanged := by decide
  fresh := by simp

/-- A pause of four seconds, read twice, is left out. -/
theorem elapsed_is_active_pause :
    (accountedTurns startedTurn).Throughout AccountedTurn.Right startedTurn.turn
      [.call 500 .project, .change 1000 .paused 1001 .project, .touch 2000, .call 3000 .project,
        .change 5000 .active 5000 .resume, .settle 7000] :=
  elapsed_is_active startedTurn (by decide)

/-- The time a Goal was blocked is counted once it is resumed. -/
theorem blocked_time_counted :
    ¬ ∀ (start : StartedTurnOfGoal) (events : List AccountingEvent),
      (accountedTurns start).Along AccountedTurn.Permitted start.turn events →
        (accountedTurns start).Throughout AccountedTurn.Right start.turn events := by
  intro h
  have hright := (h startedTurn [.change 1000 .blocked 1000 .project,
    .change 5000 .active 5000 .resume] (by decide)).2.2
  have hcounted := hright 6000 (by decide)
  revert hcounted
  decide +kernel

end Kinetick.Goal
