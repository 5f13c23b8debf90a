import Kinetick.Proofs.SchedulerMemory

/-!
# The operations of the scheduler

Every operation keeps the rows within their limits and the jobs in memory as they are stored. An
operation that fails changes nothing but the timer it made, or it stops the scheduler; only the
refresh of a job that is looked up may leave it in memory as it is not stored.
-/

namespace Kinetick

namespace Scheduler

variable {exact : Prop} {source : UuidSource} {s : State} {id : String}

/-- The step keeps the invariant, and it calls no handler. -/
def Kept (exact : Prop) (source : UuidSource) (s s' : State) : Prop :=
  Good exact source s' ∧ Moves s s' []

theorem Good.kept_refl (h : Good exact source s) : Kept exact source s s := ⟨h, Moves.refl s⟩

theorem registerHandler_kept (h : Good exact source s) (handlerKey : String) :
    Kept exact source s (registerHandler handlerKey s).2 := by
  unfold registerHandler
  split_ifs
  · exact h.kept_refl
  · exact h.kept_refl
  · exact h.kept_refl
  · exact ⟨⟨h.stored, h.held.idle, h.held.job, h.held.timer, h.held.running⟩, Nat.le_refl _,
      fun _ _ ht => Or.inl ht, by simp⟩

/-- What is near a stored job is its generation and its runs. -/
theorem Near.stored {stored record : JobRecord} (h : Near stored record) :
    record.schedulerId = stored.schedulerId ∧ record.handlerKey = stored.handlerKey ∧
      record.schedule = stored.schedule ∧
      record.scheduleGeneration = stored.scheduleGeneration ∧
      record.runCount = stored.runCount ∧ record.state = stored.state ∧
      record.createdAtMs = stored.createdAtMs := by
  unfold Near at h
  rw [h]
  simp

theorem nextRun_safe {ms : ℤ} (h : isSafe ms = true) :
    ∀ ms', some ms = some ms' → isSafe ms' = true := by
  rintro ms' heq
  simp only [Option.some.injEq] at heq
  exact heq ▸ h

/-- A schedule that was normalized allows a run. -/
theorem limit_pos {schedule : Schedule} (h : schedule.Normal) {m : ℕ}
    (hm : limit schedule = some m) : 0 < m := by
  cases schedule with
  | once runAtMs =>
    simp only [limit, Option.some.injEq] at hm
    omega
  | cron expression timezone maxRuns => exact (h.2.2 m hm).1

/-! ## Schedule -/

/-- An id that was not made yet is of no job in memory. -/
theorem Good.untimed_of_fresh (h : Good exact source s)
    (hfresh : ∀ row ∈ s.rows, row.schedulerId ≠ id) : s.timers id = none := by
  cases ht : s.timers id with
  | none => rfl
  | some t =>
    obtain ⟨-, record, hjob, -⟩ := h.held.timer id t ht
    obtain ⟨-, stored, hrow, -⟩ := h.held.job id record hjob
    obtain ⟨hmem, hid⟩ := mem_of_rowIn hrow
    exact absurd hid (hfresh _ hmem)

theorem schedule_kept (h : Good exact source s) (env : Surroundings) (handlerKey : String)
    (json : JsValue) : Kept exact source s (schedule source env handlerKey json s).2 := by
  unfold schedule
  split_ifs with hhandler hstarted
  · exact h.kept_refl
  · split
    · exact h.kept_refl
    · rename_i normalized hnormalized
      have hstarted' : s.started = true := by simpa using hstarted
      have hticked := h.issue.tick
      rcases createTimer_cases env { s with nextUuid := s.nextUuid + 1 } with
        ⟨ms, hms, htimer⟩ | ⟨e, htimer⟩
      · rw [htimer]
        simp only
        split
        · exact ⟨hticked.stopTimer _, (moves_tick s _).stopTimer _⟩
        · rename_i rows hrows
          set record : JobRecord := {
            schedulerId := source.uuid s.nextUuid
            handlerKey
            schedule := normalized
            scheduleGeneration := 0
            runCount := 0
            state := .active
            nextRunAtMs := some ms
            createdAtMs := env.now 1
            updatedAtMs := env.now 1 } with hrecord
          have hnormal := normalizeSchedule_normal hnormalized
          have hvalid : Valid record := by
            refine ⟨hnormal, nextRun_safe hms, fun m hm => ?_⟩
            have := limit_pos hnormal hm
            exact ⟨Nat.zero_le m, fun _ => this⟩
          obtain ⟨rfl, hfresh⟩ := insertJob_ok hrows
          have hrowNe : ∀ id', id' ≠ source.uuid s.nextUuid →
              rowIn (s.rows ++ [jobRow record]) id' = rowIn s.rows id' := by
            intro id' hid
            rw [rowIn_append, if_neg (Ne.symm hid), Option.or_none]
          have hrow : rowIn (s.rows ++ [jobRow record]) record.schedulerId =
              some (jobRow record) := by
            have hnone : rowIn s.rows record.schedulerId = none := by
              simpa [rowIn] using hfresh
            rw [rowIn_append, hnone, if_pos rfl]
            rfl
          have huntimed := h.untimed_of_fresh hfresh
          have hsets := (h.held.elsewhere_untimed huntimed (s.nextUuid + 1) hrowNe
            (Nat.le_succ _)).resume (some record) (Nat.le_refl _) (Nat.lt_succ_self _)
          refine ⟨⟨h.stored.insert rfl hvalid hrows, h.held.set hsets hstarted' ?_ ?_⟩,
            hsets.moves (by simp [State.resumeTimer, State.setTimer, State.setJob])⟩
          · rintro _ ⟨⟩
            exact JobHeld.of_row rfl hrow
          · rintro _ -
            exact ⟨record, rfl, rfl⟩
      · rw [htimer]
        exact ⟨hticked, moves_tick s _⟩
  · exact h.kept_refl

/-! ## Reschedule, cancel and remove -/

theorem nextScheduleGeneration_ok {current next : ℕ} (h : nextScheduleGeneration current = .ok next) :
    current < next := by
  unfold nextScheduleGeneration at h
  split_ifs at h
  simp only [Except.ok.injEq] at h
  omega

theorem reschedule_kept (h : Good exact source s) (env : Surroundings) (schedulerId : String)
    (json : JsValue) : Kept exact source s (reschedule env schedulerId json s).2 := by
  unfold reschedule
  split_ifs with hstarted
  · exact h.kept_refl
  split
  · exact h.kept_refl
  rename_i current hcurrent
  split_ifs
  swap
  · exact h.kept_refl
  split
  · exact h.kept_refl
  rename_i normalized hnormalized
  split
  · exact h.kept_refl
  rename_i generation hgeneration
  rcases createTimer_cases env s with ⟨ms, hms, htimer⟩ | ⟨e, htimer⟩
  · rw [htimer]
    simp only
    split
    · exact ⟨h.tick.stopTimer _, (moves_tick s _).stopTimer _⟩
    · rename_i rows hrows
      obtain ⟨hid, stored, hrow, hnear, -⟩ := h.held.job schedulerId current hcurrent
      obtain ⟨-, hhandler, -, hold, -, -, hcreated⟩ := hnear.stored
      have hnormal := normalizeSchedule_normal hnormalized
      have hlater := nextScheduleGeneration_ok hgeneration
      rw [← hid] at hrow
      have hnewRow := rowIn_updateJob hrows hrow hhandler hcreated
      have hstored := h.stored.change hrows hrow hhandler hcreated
        ⟨hnormal, nextRun_safe hms, fun m hm => ⟨Nat.zero_le m, fun _ => limit_pos hnormal hm⟩⟩
        (Or.inl ⟨by simp only; omega, rfl⟩)
      have hrowNe : ∀ id', id' ≠ schedulerId → rowIn rows id' = rowIn s.rows id' := by
        intro id' hne
        rw [← hid] at hne
        exact rowIn_updateJob_ne hrows hne
      have hsets := (h.held.elsewhere_stopped hrowNe (Nat.le_succ s.nextTimer)).resume
        (some { current with
          schedule := normalized
          scheduleGeneration := generation
          runCount := 0
          state := .active
          nextRunAtMs := some ms
          updatedAtMs := env.now 1 }) (Nat.le_refl _) (by simp)
      refine ⟨⟨?_, h.held.set hsets (by simpa using hstarted) ?_ ?_⟩, hsets.moves ?_⟩
      · simpa [State.resumeTimer, State.setTimer, State.setJob] using hstored
      · rintro _ ⟨⟩
        refine JobHeld.of_row hid ?_
        simpa [State.resumeTimer, State.setTimer, State.setJob, hid] using hnewRow
      · rintro _ -
        exact ⟨_, rfl, rfl⟩
      · simp [State.resumeTimer, State.setTimer, State.setJob]
  · rw [htimer]
    exact ⟨h.tick, moves_tick s _⟩

theorem cancel_kept (h : Good exact source s) (env : Surroundings) (schedulerId : String) :
    Kept exact source s (cancel env schedulerId s).2 := by
  unfold cancel
  split_ifs with hstarted
  · exact h.kept_refl
  split
  · exact h.kept_refl
  rename_i current hcurrent
  split_ifs
  · exact h.kept_refl
  dsimp only
  split
  · exact h.kept_refl
  rename_i rows hrows
  obtain ⟨hid, stored, hrow, hnear, -⟩ := h.held.job schedulerId current hcurrent
  obtain ⟨-, hhandler, hschedule, hgeneration, hruns, -, hcreated⟩ := hnear.stored
  rw [← hid] at hrow
  have hnewRow := rowIn_updateJob hrows hrow hhandler hcreated
  have hvalid := (h.stored.jobStored hrow).valid
  have hstored := h.stored.change hrows hrow hhandler hcreated
    ⟨hschedule ▸ hvalid.schedule, by simp, fun m hm => by
      rw [hschedule] at hm
      have := (hvalid.limited m hm).1
      exact ⟨by simp only; omega, by simp⟩⟩
    (Or.inr ⟨hgeneration, hschedule, fun m _ => by simp only; omega⟩)
  have hrowNe : ∀ id', id' ≠ schedulerId → rowIn rows id' = rowIn s.rows id' := by
    intro id' hne
    rw [← hid] at hne
    exact rowIn_updateJob_ne hrows hne
  have hsets := (h.held.elsewhere_stopped hrowNe (Nat.le_refl s.nextTimer)).clear
    (some { current with
      state := .cancelled
      nextRunAtMs := none
      updatedAtMs := env.now 0 })
  refine ⟨⟨?_, h.held.set hsets (by simpa using hstarted) ?_ (by simp)⟩, hsets.moves ?_⟩
  · simpa [State.setTimer, State.setJob] using hstored
  · rintro _ ⟨⟩
    refine JobHeld.of_row hid ?_
    simpa [State.setTimer, State.setJob, hid] using hnewRow
  · simp [State.setTimer, State.setJob]

theorem remove_kept (h : Good exact source s) (fails : Bool) (schedulerId : String) :
    Kept exact source s (remove fails schedulerId s).2 := by
  unfold remove
  split_ifs with hstarted
  · exact h.kept_refl
  · exact h.kept_refl
  · have hrowNe : ∀ id', id' ≠ schedulerId →
        rowIn (s.rows.filter (·.schedulerId ≠ schedulerId)) id' = rowIn s.rows id' :=
      fun id' hne => rowIn_remove_ne hne
    have hsets := (h.held.elsewhere_stopped hrowNe (Nat.le_refl s.nextTimer)).clear none
    refine ⟨⟨?_, h.held.set hsets (by simpa using hstarted) (by simp) (by simp)⟩, hsets.moves ?_⟩
    · simpa [State.setTimer, State.setJob] using h.stored.remove schedulerId
    · simp [State.setTimer, State.setJob]

/-! ## Firing -/

/-- The call is by the timer of the job, and the run is counted in the job's row. -/
structure Called (s : State) (call : Invocation) : Prop where
  timer : s.timers call.record.schedulerId = some call.timer
  row : call.row = some (jobRow call.record)
  counted : ∃ row, s.row call.record.schedulerId = some row ∧
    call.record.runCount = Double.roundNat (row.runCount + 1)

section

variable {stored record : JobRecord} (env : Surroundings)

@[simp] theorem advanceJob_schedulerId :
    (advanceJob env record).schedulerId = record.schedulerId := by
  simp only [advanceJob]
  split_ifs <;> rfl

@[simp] theorem advanceJob_handlerKey : (advanceJob env record).handlerKey = record.handlerKey := by
  simp only [advanceJob]
  split_ifs <;> rfl

@[simp] theorem advanceJob_schedule : (advanceJob env record).schedule = record.schedule := by
  simp only [advanceJob]
  split_ifs <;> rfl

@[simp] theorem advanceJob_generation :
    (advanceJob env record).scheduleGeneration = record.scheduleGeneration := by
  simp only [advanceJob]
  split_ifs <;> rfl

@[simp] theorem advanceJob_createdAtMs :
    (advanceJob env record).createdAtMs = record.createdAtMs := by
  simp only [advanceJob]
  split_ifs <;> rfl

@[simp] theorem advanceJob_runCount :
    (advanceJob env record).runCount = Double.roundNat (record.runCount + 1) := by
  simp only [advanceJob]
  split_ifs <;> rfl

theorem advanceJob_nextRun (ms : ℤ) (h : (advanceJob env record).nextRunAtMs = some ms) :
    isSafe ms = true := by
  simp only [advanceJob] at h
  split_ifs at h
  cases hrun : env.nextRun with
  | none => simp [hrun] at h
  | some date =>
    have hbound := date.2
    have hms : date.1 = ms := by simpa [hrun] using h
    simp only [isSafe, decide_eq_true_eq]
    omega

/-- A job that stays active has runs left. -/
theorem advanceJob_active {m : ℕ} (hm : limit record.schedule = some m)
    (h : (advanceJob env record).state = .active) : (advanceJob env record).runCount < m := by
  simp only [advanceJob] at h ⊢
  split_ifs at h ⊢ with hdone
  cases hschedule : record.schedule with
  | once runAtMs => simp [hschedule, isOnce] at hdone
  | cron expression timezone maxRuns =>
    rw [hschedule] at hm
    simp only [limit] at hm
    subst hm
    simpa [hasReachedMaxRuns, hschedule, isOnce] using hdone

theorem advanceJob_state (hactive : record.state = .active) :
    (advanceJob env record).state = .completed ∨ (advanceJob env record).state = .active := by
  simp only [advanceJob]
  split_ifs
  · exact Or.inl rfl
  · exact Or.inr hactive

theorem limit_bound {schedule : Schedule} (h : schedule.Normal) {m : ℕ}
    (hm : limit schedule = some m) : m ≤ 9007199254740991 := by
  cases schedule with
  | once runAtMs =>
    simp only [limit, Option.some.injEq] at hm
    omega
  | cron expression timezone maxRuns => exact (h.2.2 m hm).2

/-- A run of a job that has a limit is counted exactly. -/
theorem roundNat_run (hnear : Near stored record) (hvalid : Valid stored)
    (hactive : record.state = .active) {m : ℕ} (hm : limit record.schedule = some m) :
    Double.roundNat (record.runCount + 1) = stored.runCount + 1 ∧ stored.runCount < m := by
  obtain ⟨-, -, hschedule, -, hruns, hstate, -⟩ := hnear.stored
  rw [hschedule] at hm
  have hleft := (hvalid.limited m hm).2 (hstate ▸ hactive)
  have hbound := limit_bound hvalid.schedule hm
  refine ⟨?_, hleft⟩
  rw [hruns]
  exact if_pos (by rw [Double.maxExact]; omega)

theorem advanceJob_valid (hnear : Near stored record) (hvalid : Valid stored)
    (hactive : record.state = .active) : Valid (advanceJob env record) where
  schedule := by
    rw [advanceJob_schedule, hnear.stored.2.2.1]
    exact hvalid.schedule
  nextRun := advanceJob_nextRun env
  limited m hm := by
    rw [advanceJob_schedule] at hm
    obtain ⟨hround, hleft⟩ := roundNat_run hnear hvalid hactive hm
    refine ⟨?_, advanceJob_active env hm⟩
    rw [advanceJob_runCount, hround]
    omega

theorem advanceJob_follows (hnear : Near stored record) (hvalid : Valid stored)
    (hactive : record.state = .active) {calls : ℕ} (hcalls : calls ≤ 1) :
    Follows stored (advanceJob env record) calls := by
  obtain ⟨-, -, hschedule, hgeneration, -⟩ := hnear.stored
  refine Or.inr ⟨by simp [hgeneration], by simp [hschedule], fun m hm => ?_⟩
  rw [advanceJob_schedule] at hm
  have hround := (roundNat_run hnear hvalid hactive hm).1
  rw [advanceJob_runCount, hround]
  omega

end

theorem Held.called (h : Held exact s) (invocations : List Invocation) :
    Held exact { s with invocations := invocations } :=
  ⟨h.idle, h.job, h.timer, h.running⟩

theorem State.setJob_self {record : JobRecord} (h : s.jobs id = some record) :
    s.setJob id (some record) = s := by
  simp [State.setJob, ← h]

theorem State.stopTimerOf_eq {t : ℕ} (h : s.timers id = some t) :
    s.stopTimerOf id = s.stopTimer t := by
  simp [State.stopTimerOf, h]

/-- The calls a handler gets, after the row is updated. -/
theorem invokeHandler_cases (record : JobRecord) (timer : ℕ) (s : State) :
    ∃ calls : List Invocation, calls.length ≤ 1 ∧
      (∀ call ∈ calls, call.record = record ∧ call.timer = timer ∧
        call.row = s.row record.schedulerId) ∧
      invokeHandler record timer s = { s with invocations := s.invocations ++ calls } := by
  unfold invokeHandler
  split_ifs
  · exact ⟨[⟨record, timer, s.row record.schedulerId⟩], by simp, by simp, rfl⟩
  · exact ⟨[], by simp, by simp, by simp⟩

section

variable {record : JobRecord} {schedulerId : String} {timer : ℕ} (h : Good exact source s)
  (htimer : s.timers schedulerId = some timer) (hjob : s.jobs schedulerId = some record)

include h hjob in
theorem Good.started_of_job : s.started = true := by
  cases hs : s.started with
  | true => rfl
  | false => simp [h.held.idle hs schedulerId] at hjob

include htimer in
/-- The job is set and its timer stopped, one after the other. -/
theorem stopped_eq (rows : List JobRow) (job : Option JobRecord) :
    (({ s with rows := rows }.setJob schedulerId job).stopTimer timer).setTimer schedulerId none =
      (({ s with rows := rows }.stopTimerOf schedulerId).setTimer schedulerId none).setJob
        schedulerId job := by
  have htimer' : ({ s with rows := rows } : State).timers schedulerId = some timer := htimer
  rw [State.stopTimerOf_eq htimer']
  rfl

include h htimer hjob in
/-- The timer of a job that could not be stored is dropped. -/
theorem triggerFailed_kept :
    Kept exact source s ((s.stopTimer timer).setTimer schedulerId none) := by
  have hsets := (@Held.elsewhere_stopped exact s schedulerId h.held s.rows s.nextTimer
    (fun _ _ => rfl) (Nat.le_refl _)).clear (some record)
  have hself : ({ s with rows := s.rows } : State).setJob schedulerId (some record) = s :=
    State.setJob_self hjob
  have heq := stopped_eq htimer s.rows (some record)
  rw [hself] at heq
  rw [heq]
  refine ⟨⟨?_, h.held.set hsets (h.started_of_job hjob) ?_ (by simp)⟩, hsets.moves ?_⟩
  · simpa [State.setTimer, State.setJob] using h.stored
  · rintro _ ⟨⟩
    simpa [State.setTimer, State.setJob] using h.held.job schedulerId record hjob
  · simp [State.setTimer, State.setJob]

include h htimer hjob in
/-- The state a stored run leaves before its handler is called. -/
theorem triggered_sets (hactive : record.state = .active) (env : Surroundings) {rows : List JobRow}
    (hrows : updateJob env.fails s.rows (advanceJob env record) = .ok rows) {s' : State}
    (hs' : s' = if (advanceJob env record).state = .completed then
        (({ s with rows := rows }.setJob schedulerId (some (advanceJob env record))).stopTimer
          timer).setTimer schedulerId none
      else { s with rows := rows }.setJob schedulerId (some (advanceJob env record))) :
    Held exact s' ∧ Moves s s' [] ∧ s'.rows = rows ∧ s'.nextUuid = s.nextUuid := by
  obtain ⟨hid, stored, hrow, hnear, -⟩ := h.held.job schedulerId record hjob
  obtain ⟨-, hhandler, -, -, -, -, hcreated⟩ := hnear.stored
  have hnextId : (advanceJob env record).schedulerId = schedulerId := by simp [hid]
  rw [← hnextId] at hrow
  have hnewRow := rowIn_updateJob hrows hrow (by simp [hhandler]) (by simp [hcreated])
  rw [hnextId] at hnewRow
  have hrowNe : ∀ id', id' ≠ schedulerId → rowIn rows id' = rowIn s.rows id' := by
    intro id' hne
    rw [← hnextId] at hne
    exact rowIn_updateJob_ne hrows hne
  have hheld : ∀ next, some (advanceJob env record) = some next →
      JobHeld exact rows schedulerId next := by
    rintro _ ⟨⟩
    exact JobHeld.of_row hnextId hnewRow
  split_ifs at hs' with hcompleted
  · rw [stopped_eq htimer] at hs'
    have hsets := (h.held.elsewhere_stopped hrowNe (Nat.le_refl s.nextTimer)).clear
      (some (advanceJob env record))
    have hrows' : s'.rows = rows := by simp [hs', State.setTimer, State.setJob]
    refine ⟨?_, ?_, hrows', by simp [hs', State.setTimer, State.setJob]⟩
    · rw [hs']
      exact h.held.set hsets (h.started_of_job hjob) (by rw [← hs', hrows']; exact hheld) (by simp)
    · rw [hs']
      exact hsets.moves (by simp [State.setTimer, State.setJob])
  · have hsets := h.held.sets_job hrowNe (some (advanceJob env record))
    have hnextActive : (advanceJob env record).state = .active :=
      (advanceJob_state env hactive).resolve_left hcompleted
    subst hs'
    exact ⟨h.held.set hsets (h.started_of_job hjob) hheld fun _ _ => ⟨_, rfl, hnextActive⟩,
      hsets.moves (by simp [State.setJob]), rfl, rfl⟩

end

theorem trigger_kept (h : Good exact source s) (env : Surroundings) (schedulerId : String)
    (timer : ℕ) :
    Good exact source (trigger env schedulerId timer s).2 ∧
      ∃ calls, Moves s (trigger env schedulerId timer s).2 calls ∧
        ∀ call ∈ calls, Called s call := by
  have hrefl : Good exact source s ∧ ∃ calls, Moves s s calls ∧ ∀ call ∈ calls, Called s call :=
    ⟨h, [], Moves.refl s, by simp⟩
  unfold trigger
  split_ifs with htimer
  · exact hrefl
  have htimer := not_not.1 htimer
  split
  · exact hrefl
  rename_i record hjob
  split_ifs with hactive
  · exact hrefl
  have hactive := not_not.1 hactive
  dsimp only
  split
  · split_ifs
    · obtain ⟨hgood, hmoves⟩ := triggerFailed_kept h htimer hjob
      exact ⟨hgood, [], hmoves, by simp⟩
    · exact hrefl
  · rename_i rows hrows
    obtain ⟨hid, stored, hrow, hnear, -⟩ := h.held.job schedulerId record hjob
    obtain ⟨-, hhandler, -, -, hruns, -, hcreated⟩ := hnear.stored
    have hnextId : (advanceJob env record).schedulerId = schedulerId := by simp [hid]
    have hvalid := (h.stored.jobStored hrow).valid
    obtain ⟨hheld, hmoves, hrows', huuid⟩ := triggered_sets h htimer hjob hactive env hrows rfl
    generalize hs' : (if (advanceJob env record).state = .completed then
        (({ s with rows := rows }.setJob schedulerId (some (advanceJob env record))).stopTimer
          timer).setTimer schedulerId none
      else { s with rows := rows }.setJob schedulerId (some (advanceJob env record))) = s'
      at hheld hmoves hrows' huuid ⊢
    obtain ⟨calls, hlength, hcalls, hinvoked⟩ :=
      invokeHandler_cases (advanceJob env record) timer s'
    have hinvocations : s'.invocations = s.invocations := by simpa using hmoves.invocations
    have hrowNext : rowIn s.rows (advanceJob env record).schedulerId = some (jobRow stored) := by
      rw [hnextId]
      exact hrow
    have hnewRow := rowIn_updateJob hrows hrowNext (by simp [hhandler]) (by simp [hcreated])
    have hstored := h.stored.update hrowNext (by simp [hhandler]) (by simp [hcreated])
      (advanceJob_valid env hnear hvalid hactive) (fun call hcall => (hcalls call hcall).1)
      (advanceJob_follows env hnear hvalid hactive hlength) hrows
    rw [hinvoked]
    refine ⟨⟨?_, hheld.called _⟩, calls, ⟨hmoves.nextTimer, hmoves.timers, ?_⟩,
      fun call hcall => ?_⟩
    · simpa [hrows', huuid, hinvocations] using hstored
    · simp [hinvocations]
    · obtain ⟨hrecord, hcallTimer, hcallRow⟩ := hcalls call hcall
      refine ⟨?_, ?_, jobRow stored, ?_, ?_⟩
      · rw [hrecord, hnextId, hcallTimer, htimer]
      · rw [hcallRow, hrecord, State.row_eq, hrows', hnewRow]
      · rw [hrecord, hnextId]
        exact hrow
      · rw [hrecord, advanceJob_runCount, hruns]
        rfl

end Scheduler

end Kinetick
