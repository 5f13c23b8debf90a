import Kinetick.Proofs.SchedulerOperations

/-!
# Jobs that are looked up or restored

A restored job is read from its row, changed in memory and stored again. Where it cannot be stored
the scheduler does not start; where a job that is looked up cannot be, it stays as it was changed.
-/

namespace Kinetick

namespace Scheduler

variable {exact : Prop} {source : UuidSource} {s : State} {id : String} {record : JobRecord}

/-- What a job's refresh or restore leaves: only the job is touched, and unless it fails the jobs
are held as they are stored. -/
structure Restored (exact : Prop) (source : UuidSource) (s : State) (id : String)
    (result : Except String Unit × State) : Prop where
  sets : ∃ job timer, Sets s result.2 id job timer
  stored : Stored source result.2.rows result.2.nextUuid result.2.invocations
  invocations : result.2.invocations = s.invocations
  good : result.1 = .ok () → Good exact source result.2

theorem Good.restored (h : Good exact source s) (id : String) :
    Restored exact source s id (.ok (), s) :=
  ⟨⟨_, _, h.held.sets_self id⟩, h.stored, rfl, fun _ => h⟩

/-! ## Refresh -/

theorem readCurrentRecurringState_some {env : Surroundings} {ms : ℤ}
    (h : readCurrentRecurringState env record = some ms) : isSafe ms = true := by
  unfold readCurrentRecurringState at h
  split at h
  · split_ifs at h
    split at h
    · rename_i date _
      split_ifs at h
      have hbound := date.2
      simp only [Option.some.injEq] at h
      simp only [isSafe, decide_eq_true_eq]
      omega
    · simp at h
  · simp at h

theorem refresh_restored (h : Good exact source s) (hjob : s.jobs id = some record)
    (env : Surroundings) :
    Restored exact source s id (refreshRecurringInspectionState env record s) ∧
      Good False source (refreshRecurringInspectionState env record s).2 := by
  unfold refreshRecurringInspectionState
  split
  · exact ⟨h.restored id, h.weaken⟩
  rename_i ms hms
  obtain ⟨hid, stored, hrow, hnear, -⟩ := h.held.job id record hjob
  obtain ⟨hstoredId, hhandler, hschedule, hgeneration, hruns, hstate, hcreated⟩ := hnear.stored
  have hvalid := (h.stored.jobStored hrow).valid
  set next : JobRecord := { record with nextRunAtMs := some ms, updatedAtMs := env.now 1 }
    with hnext
  have hnextId : next.schedulerId = id := hid
  have hnextNear : Near stored next := by
    unfold Near at hnear ⊢
    rw [hnext, hnear]
  have htimed : ∀ t, s.timers id = some t → ∃ r, some next = some r ∧ r.state = .active := by
    intro t ht
    obtain ⟨-, active, hactive, hactiveState⟩ := h.held.timer id t ht
    rw [hjob, Option.some.injEq] at hactive
    subst hactive
    exact ⟨next, rfl, hactiveState⟩
  have hstarted := h.started_of_job hjob
  dsimp only
  split
  · have hsets := @Held.sets_job exact s id h.held s.rows (fun _ _ => rfl) (some next)
    rw [hnextId]
    refine ⟨⟨⟨_, _, hsets⟩, h.stored, rfl, by simp⟩, h.stored, ?_⟩
    refine h.weaken.held.set hsets hstarted ?_ htimed
    rintro _ ⟨⟩
    exact ⟨hid, stored, hrow, hnextNear, False.elim⟩
  · rename_i rows hrows
    change updateJob env.fails s.rows next = .ok rows at hrows
    rw [← hnextId] at hrow
    have hnewRow := rowIn_updateJob hrows hrow hhandler hcreated
    have hrowNe : ∀ id', id' ≠ id → rowIn rows id' = rowIn s.rows id' := by
      intro id' hne
      rw [← hnextId] at hne
      exact rowIn_updateJob_ne hrows hne
    have hsets := h.held.sets_job hrowNe (some next)
    have hstored := h.stored.change hrows hrow hhandler hcreated
      ⟨hschedule ▸ hvalid.schedule, nextRun_safe (readCurrentRecurringState_some hms),
        fun m hm => by
          have hlimited := hvalid.limited m (hschedule ▸ hm)
          exact ⟨hruns ▸ hlimited.1, fun hactive => hruns ▸ hlimited.2 (hstate ▸ hactive)⟩⟩
      (Or.inr ⟨hgeneration, hschedule, fun m _ => by
        have : next.runCount = stored.runCount := hruns
        omega⟩)
    have hheld : Held exact ({ s with rows := rows }.setJob id (some next)) := by
      refine h.held.set hsets hstarted ?_ htimed
      rintro _ ⟨⟩
      refine JobHeld.of_row hid ?_
      rw [hnextId] at hnewRow
      exact hnewRow
    have hgood : Good exact source ({ s with rows := rows }.setJob id (some next)) :=
      ⟨hstored, hheld⟩
    rw [hnextId]
    exact ⟨⟨⟨_, _, hsets⟩, hstored, rfl, fun _ => hgood⟩, hgood.weaken⟩

/-- A job that is looked up is held as it is stored, unless its refresh cannot be stored. -/
theorem get_kept (h : Good exact source s) (env : Surroundings) (schedulerId : String)
    (hpersists : exact → GetPersists s (.get env schedulerId)) :
    Kept exact source s (get env schedulerId s).2 := by
  unfold get
  by_cases hstarted : s.started = true
  swap
  · rw [if_pos (by simpa using hstarted)]
    exact h.kept_refl
  rw [if_neg (by simpa using hstarted)]
  split
  · exact h.kept_refl
  rename_i record hjob
  by_cases htimer : (s.timers schedulerId).isSome = true
  · rw [if_pos htimer]
    exact h.kept_refl
  rw [if_neg htimer]
  have hnone : s.timers schedulerId = none := by simpa using htimer
  obtain ⟨hrestored, hfalse⟩ := refresh_restored h hjob env
  have hok : exact → (refreshRecurringInspectionState env record s).1 = .ok () := by
    intro hexact
    have hupdate := hpersists hexact record
    unfold refreshRecurringInspectionState
    split
    · rfl
    · rename_i ms hms
      have hisOk := hupdate ms hjob hnone hms
      dsimp only
      split
      · rename_i e hfailed
        change updateJob env.fails s.rows _ = _ at hfailed
        rw [hfailed] at hisOk
        simp [Except.isOk, Except.toBool] at hisOk
      · rfl
  have hgood : Good exact source (refreshRecurringInspectionState env record s).2 := by
    by_cases hexact : exact
    · exact hrestored.good (hok hexact)
    · exact ⟨hfalse.stored, hfalse.held.idle, fun id record hrecord => by
        obtain ⟨hid, stored, hrow, hnear, -⟩ := hfalse.held.job id record hrecord
        exact ⟨hid, stored, hrow, hnear, fun hexact' => absurd hexact' hexact⟩,
        hfalse.held.timer, hfalse.held.running⟩
  obtain ⟨_, _, hsets⟩ := hrestored.sets
  have hkept : Kept exact source s (refreshRecurringInspectionState env record s).2 :=
    ⟨hgood, hsets.moves (by rw [hrestored.invocations, List.append_nil])⟩
  split <;> rename_i heq <;> rw [heq] at hkept <;> exact hkept

/-! ## Restore -/

section Restore

/-- The job with another state and another next run. -/
def Changed (record next : JobRecord) : Prop :=
  next = { record with
    state := next.state, nextRunAtMs := next.nextRunAtMs, updatedAtMs := next.updatedAtMs }

/-- The state a job that is changed in memory and stored leaves. -/
theorem restoreChanged_sets (h : Good exact source s) (next : JobRecord)
    (hstarted : s.started = true) (huntimed : s.timers id = none) (hrow : rowIn s.rows id = some (jobRow record))
    (hchanged : Changed record next)
    (hactive : next.state = .active → record.state = .active)
    (hsafe : ∀ ms, next.nextRunAtMs = some ms → isSafe ms = true) (env : Surroundings) :
    Restored exact source s id (restoreChanged env next s) ∧
      Sets s (restoreChanged env next s).2 id (some next) none ∧
      ((restoreChanged env next s).1 = .ok () →
        rowIn (restoreChanged env next s).2.rows id = some (jobRow next)) := by
  have hjob := h.stored.jobStored hrow
  have hnextId : next.schedulerId = id := by
    rw [hchanged]
    exact hjob.schedulerId
  have hvalid : Valid next := by
    refine ⟨?_, hsafe, fun m hm => ?_⟩
    · rw [hchanged]
      exact hjob.valid.schedule
    · rw [hchanged] at hm ⊢
      obtain ⟨hle, hlt⟩ := hjob.valid.limited m hm
      exact ⟨hle, fun hnextActive => hlt (hactive hnextActive)⟩
  have hfollows : Follows record next 0 := by
    rw [hchanged]
    exact Or.inr ⟨rfl, rfl, fun m _ => Nat.le_refl _⟩
  have hhandler : next.handlerKey = record.handlerKey := by rw [hchanged]
  have hcreated : next.createdAtMs = record.createdAtMs := by rw [hchanged]
  unfold restoreChanged
  rw [hnextId]
  dsimp only
  split
  · have hsets := @Held.sets_job exact s id h.held s.rows (fun _ _ => rfl) (some next)
    rw [huntimed] at hsets
    exact ⟨⟨⟨_, _, hsets⟩, h.stored, rfl, by simp⟩, hsets, by simp⟩
  · rename_i rows hrows
    change updateJob env.fails s.rows next = .ok rows at hrows
    rw [← hnextId] at hrow
    have hnewRow := rowIn_updateJob hrows hrow hhandler hcreated
    have hrowNe : ∀ id', id' ≠ id → rowIn rows id' = rowIn s.rows id' := by
      intro id' hne
      rw [← hnextId] at hne
      exact rowIn_updateJob_ne hrows hne
    rw [hnextId] at hnewRow
    have hsets := h.held.sets_job hrowNe (some next)
    rw [huntimed] at hsets
    have hstored := h.stored.change hrows hrow hhandler hcreated hvalid hfollows
    refine ⟨⟨⟨_, _, hsets⟩, hstored, rfl, fun _ => ⟨hstored, ?_⟩⟩, hsets, fun _ => hnewRow⟩
    refine h.held.set hsets hstarted ?_ (by simp)
    rintro _ ⟨⟩
    exact JobHeld.of_row hnextId hnewRow

theorem restoreTimer_restored (h : Good exact source s) (hstarted : s.started = true)
    (huntimed : s.timers id = none) (hrow : rowIn s.rows id = some (jobRow record))
    (hactive : record.state = .active) (env : Surroundings) :
    Restored exact source s id (restoreTimer env record s) := by
  have hid := (h.stored.jobStored hrow).schedulerId
  unfold restoreTimer
  rcases createTimer_cases env s with ⟨ms, hms, htimer⟩ | ⟨e, htimer⟩
  · rw [htimer]
    dsimp only
    obtain ⟨hrestored, hsets, hnewRow⟩ := restoreChanged_sets h.tick
      { record with nextRunAtMs := some ms, updatedAtMs := env.now 2 } hstarted huntimed hrow rfl
      (fun _ => hactive) (nextRun_safe hms) env
    split
    · rename_i e s' heq
      rw [heq] at hrestored hsets
      exact ⟨⟨_, _, hsets.of_tick.stopTimer _⟩, hrestored.stored, hrestored.invocations, by simp⟩
    · rename_i s' heq
      rw [heq] at hrestored hsets hnewRow
      rw [hid]
      have hresumed := hsets.of_tick.resume (Nat.le_refl s.nextTimer) hsets.nextTimer
      refine ⟨⟨_, _, hresumed⟩, hrestored.stored, hrestored.invocations,
        fun _ => ⟨hrestored.stored, h.held.set hresumed hstarted ?_ ?_⟩⟩
      · rintro _ ⟨⟩
        exact JobHeld.of_row hid (hnewRow rfl)
      · rintro _ -
        exact ⟨_, rfl, hactive⟩
  · rw [htimer]
    dsimp only
    split_ifs
    · have hrestored := (restoreChanged_sets h.tick
        { record with state := .expired, nextRunAtMs := none, updatedAtMs := env.now 2 }
        hstarted huntimed hrow rfl (by simp) (by simp) env).1
      obtain ⟨_, _, hsets⟩ := hrestored.sets
      exact ⟨⟨_, _, hsets.of_tick⟩, hrestored.stored, hrestored.invocations, hrestored.good⟩
    · have hrestored := h.tick.restored id
      obtain ⟨_, _, hsets⟩ := hrestored.sets
      exact ⟨⟨_, _, hsets.of_tick⟩, hrestored.stored, rfl, hrestored.good⟩

theorem restoreJob_restored (h : Good exact source s) (hstarted : s.started = true)
    (huntimed : s.timers id = none) (hrow : rowIn s.rows id = some (jobRow record))
    (env : Surroundings) : Restored exact source s id (restoreJob env record s) := by
  unfold restoreJob
  by_cases hactive : record.state = .active
  swap
  · rw [if_pos hactive]
    exact h.restored id
  rw [if_neg (not_not.2 hactive)]
  dsimp only
  split_ifs
  · exact (restoreChanged_sets h
      { record with state := .expired, nextRunAtMs := none, updatedAtMs := env.now 2 }
      hstarted huntimed hrow rfl (by simp) (by simp) env).1
  · exact (restoreChanged_sets h
      { record with state := .completed, nextRunAtMs := none, updatedAtMs := env.now 1 }
      hstarted huntimed hrow rfl (by simp) (by simp) env).1
  · exact restoreTimer_restored h hstarted huntimed hrow hactive env
  · exact h.restored id

/-! ## Start and stop -/

section Start

variable (restoreExecution : Bool) (env : ℕ → Surroundings)

/-- A job that was read is set in memory and restored. -/
theorem restoreRow_restored (h : Good exact source s) (hstarted : s.started = true)
    (huntimed : s.timers id = none) (hrow : rowIn s.rows id = some (jobRow record))
    (env : Surroundings) :
    Restored exact source s id
      (if restoreExecution then restoreJob env record (s.setJob id (some record))
        else refreshRecurringInspectionState env record (s.setJob id (some record))) := by
  have hid := (h.stored.jobStored hrow).schedulerId
  have hsets : Sets s (s.setJob id (some record)) id (some record) none := by
    have hsets := @Held.sets_job exact s id h.held s.rows (fun _ _ => rfl) (some record)
    rwa [huntimed] at hsets
  have hgood : Good exact source (s.setJob id (some record)) := by
    refine ⟨h.stored, h.held.set hsets hstarted ?_ (by simp)⟩
    rintro _ ⟨⟩
    exact JobHeld.of_row hid hrow
  have hrestored : Restored exact source (s.setJob id (some record)) id
      (if restoreExecution then restoreJob env record (s.setJob id (some record))
        else refreshRecurringInspectionState env record (s.setJob id (some record))) := by
    split_ifs
    · exact restoreJob_restored hgood hstarted huntimed hrow env
    · exact (refresh_restored hgood (by simp [State.setJob]) env).1
  obtain ⟨_, _, hsets'⟩ := hrestored.sets
  exact ⟨⟨_, _, hsets.trans hsets'⟩, hrestored.stored, hrestored.invocations, hrestored.good⟩

/-- What the loop over the rows leaves: a timer that runs is that of its job, and unless it fails
the jobs are held as they are stored. -/
structure RestoredAll (exact : Prop) (source : UuidSource) (s : State)
    (result : Except String Unit × State) : Prop where
  stored : Stored source result.2.rows result.2.nextUuid result.2.invocations
  running : ∀ t id, result.2.running t = some id → result.2.timers id = some t
  moves : Moves s result.2 []
  good : result.1 = .ok () → Good exact source result.2

/-- Each pending row is as it was read, and its job has no timer yet. -/
theorem restoreActiveJobs_restored : ∀ (pending : List JobRow) (index : ℕ) (s : State),
    Good exact source s → s.started = true → (pending.map (·.schedulerId)).Nodup →
    (∀ row ∈ pending, rowIn s.rows row.schedulerId = some row ∧ s.timers row.schedulerId = none) →
    RestoredAll exact source s (restoreActiveJobs restoreExecution env index pending s)
  | [], index, s, h, _, _, _ =>
    ⟨h.stored, h.held.running, Moves.refl s, fun _ => h⟩
  | row :: pending, index, s, h, hstarted, hdistinct, hpending => by
    simp only [List.map_cons, List.nodup_cons] at hdistinct
    obtain ⟨hrow, huntimed⟩ := hpending row List.mem_cons_self
    unfold restoreActiveJobs
    split
    · exact restoreActiveJobs_restored pending (index + 1) s h hstarted hdistinct.2
        fun row' hrow' => hpending row' (List.mem_cons_of_mem _ hrow')
    rename_i record hparsed
    obtain ⟨stored, rfl, hstored⟩ := h.stored.jobs _ _ hrow
    obtain rfl := parseJobRow_jobRow hstored.valid hparsed
    have hid := hstored.schedulerId
    rw [← hid] at hrow huntimed
    have hrestored := restoreRow_restored restoreExecution h hstarted huntimed hrow (env index)
    obtain ⟨job, timer, hsets⟩ := hrestored.sets
    have hmoves : Moves s _ [] := hsets.moves (by rw [hrestored.invocations, List.append_nil])
    dsimp only
    split
    · rename_i e s' heq
      rw [heq] at hrestored hsets hmoves
      exact ⟨hrestored.stored, hsets.running_timers h.held.running, hmoves, by simp⟩
    · rename_i s' heq
      rw [heq] at hrestored hsets hmoves
      have hpending' : ∀ row' ∈ pending, rowIn s'.rows row'.schedulerId = some row' ∧
          s'.timers row'.schedulerId = none := by
        intro row' hrow'
        obtain ⟨hrow'', huntimed'⟩ := hpending row' (List.mem_cons_of_mem _ hrow')
        have hne : row'.schedulerId ≠ record.schedulerId := fun heq' =>
          hdistinct.1 (List.mem_map.2 ⟨row', hrow', heq'⟩)
        refine ⟨(hsets.rows _ hne).trans hrow'', ?_⟩
        rw [hsets.timers, Function.update_of_ne hne]
        exact huntimed'
      have hrest := restoreActiveJobs_restored pending (index + 1) s' (hrestored.good rfl)
        (hsets.started.trans hstarted) hdistinct.2 hpending'
      exact ⟨hrest.stored, hrest.running, hmoves.trans hrest.moves, hrest.good⟩

/-- Once everything is stopped nothing is in memory. -/
theorem cleared_good
    (hstored : Stored source s.rows s.nextUuid s.invocations)
    (hrunning : ∀ t id, s.running t = some id → s.timers id = some t) :
    Good exact source s.cleared where
  stored := hstored
  held := by
    refine ⟨fun _ _ => rfl, by simp [State.cleared], by simp [State.cleared], fun t id ht => ?_⟩
    simp only [State.cleared, Option.filter_eq_some_iff, decide_eq_true_eq] at ht
    exact absurd (hrunning t id ht.1) ht.2

theorem moves_cleared (s : State) : Moves s s.cleared [] where
  nextTimer := Nat.le_refl _
  timers _ _ h := by simp [State.cleared] at h
  invocations := by simp [State.cleared]

theorem start_kept (h : Good exact source s) :
    Kept exact source s (start env restoreExecution s).2 := by
  unfold start
  by_cases hstarted : s.started = true
  · rw [if_pos hstarted]
    exact h.kept_refl
  rw [if_neg hstarted]
  have hstopped : s.started = false := by simpa using hstarted
  have hidle := h.held.idle hstopped
  have huntimed : ∀ id, s.timers id = none := by
    intro id
    cases ht : s.timers id with
    | none => rfl
    | some t =>
      obtain ⟨-, record, hjob, -⟩ := h.held.timer id t ht
      simp [hidle id] at hjob
  have hbegun : Good exact source { s with started := true } :=
    ⟨h.stored, by simp, h.held.job, h.held.timer, h.held.running⟩
  have hbegunMoves : Moves s { s with started := true } [] :=
    ⟨Nat.le_refl _, fun _ _ ht => Or.inl ht, by simp⟩
  have hall := restoreActiveJobs_restored restoreExecution env s.rows 0 { s with started := true }
    hbegun rfl h.stored.distinct fun row hrow =>
      ⟨rowIn_of_mem h.stored.distinct hrow, huntimed _⟩
  have hmoves := hbegunMoves.trans hall.moves
  split
  · rename_i e s' heq
    rw [heq] at hall hmoves
    exact ⟨cleared_good hall.stored hall.running, hmoves.trans (moves_cleared s')⟩
  · rename_i s' heq
    rw [heq] at hall hmoves
    exact ⟨hall.good rfl, hmoves⟩

theorem stop_kept (h : Good exact source s) : Kept exact source s (stop s) :=
  ⟨cleared_good h.stored h.held.running, moves_cleared s⟩

theorem crashed_kept (h : Good exact source s) : Kept exact source s (crashed s) where
  left := ⟨h.stored, fun _ _ => rfl, by simp [crashed, initialState],
    by simp [crashed, initialState], by simp [crashed, initialState]⟩
  right := ⟨Nat.le_refl _, by simp [crashed, initialState], by simp [crashed]⟩

end Start

end Restore

end Scheduler

end Kinetick
