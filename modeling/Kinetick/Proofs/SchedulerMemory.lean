import Kinetick.Proofs.SchedulerRows

/-!
# The jobs in memory

The jobs in memory are those of their rows, but for the time of the next run, and a resumed timer
is the one its job has. What an operation does is said of one job at a time: what it has in memory
after it, its timer, and that the others are as they were.
-/

namespace Kinetick

namespace Scheduler

theorem State.row_eq (s : State) (id : String) : s.row id = rowIn s.rows id := rfl

/-! ## What is held in memory -/

/-- The job as it is stored, but for its next run. -/
def Near (stored record : JobRecord) : Prop :=
  record = { stored with nextRunAtMs := record.nextRunAtMs, updatedAtMs := record.updatedAtMs }

/-- The job in memory is stored, and where `exact` holds it is stored as it is. -/
def JobHeld (exact : Prop) (rows : List JobRow) (id : String) (record : JobRecord) : Prop :=
  record.schedulerId = id ∧ ∃ stored, rowIn rows id = some (jobRow stored) ∧
    Near stored record ∧ (exact → stored = record)

structure Held (exact : Prop) (s : State) : Prop where
  idle : s.started = false → ∀ id, s.jobs id = none
  job : ∀ id record, s.jobs id = some record → JobHeld exact s.rows id record
  timer : ∀ id t, s.timers id = some t →
    t < s.nextTimer ∧ ∃ record, s.jobs id = some record ∧ record.state = .active
  running : ∀ t id, s.running t = some id → s.timers id = some t

structure Good (exact : Prop) (source : UuidSource) (s : State) : Prop where
  stored : Stored source s.rows s.nextUuid s.invocations
  held : Held exact s

/-- The job and the timer of the id are set, and no others are touched. -/
structure Sets (s s' : State) (id : String) (job : Option JobRecord) (timer : Option ℕ) :
    Prop where
  jobs : s'.jobs = Function.update s.jobs id job
  timers : s'.timers = Function.update s.timers id timer
  running : ∀ t id', s'.running t = some id' →
    id' ≠ id ∧ s.running t = some id' ∨ id' = id ∧ timer = some t
  started : s'.started = s.started
  rows : ∀ id', id' ≠ id → rowIn s'.rows id' = rowIn s.rows id'
  nextTimer : s.nextTimer ≤ s'.nextTimer
  timer : ∀ t, timer = some t → s.timers id = some t ∨ s.nextTimer ≤ t ∧ t < s'.nextTimer

/-- What any step does to timers and to what was called. -/
structure Moves (s s' : State) (calls : List Invocation) : Prop where
  nextTimer : s.nextTimer ≤ s'.nextTimer
  timers : ∀ id t, s'.timers id = some t → s.timers id = some t ∨ s.nextTimer ≤ t
  invocations : s'.invocations = s.invocations ++ calls

theorem Near.refl (record : JobRecord) : Near record record := rfl

theorem JobHeld.of_row {exact : Prop} {rows : List JobRow} {id : String} {record : JobRecord}
    (hid : record.schedulerId = id) (h : rowIn rows id = some (jobRow record)) :
    JobHeld exact rows id record :=
  ⟨hid, record, h, Near.refl record, fun _ => rfl⟩

theorem JobHeld.weaken {exact : Prop} {rows : List JobRow} {id : String} {record : JobRecord}
    (h : JobHeld exact rows id record) : JobHeld False rows id record := by
  obtain ⟨hid, stored, hrow, hnear, -⟩ := h
  exact ⟨hid, stored, hrow, hnear, False.elim⟩

section

variable {exact : Prop} {source : UuidSource} {s s' s'' : State} {id : String}
  {job : Option JobRecord} {timer : Option ℕ} {calls : List Invocation}

theorem Good.weaken (h : Good exact source s) : Good False source s where
  stored := h.stored
  held := ⟨h.held.idle, fun id record hjob => (h.held.job id record hjob).weaken, h.held.timer,
    h.held.running⟩

theorem Sets.running_timers (h : Sets s s' id job timer)
    (hrunning : ∀ t id', s.running t = some id' → s.timers id' = some t) :
    ∀ t id', s'.running t = some id' → s'.timers id' = some t := by
  intro t id' ht
  rw [h.timers]
  rcases h.running t id' ht with ⟨hid, hold⟩ | ⟨rfl, hnew⟩
  · rw [Function.update_of_ne hid]
    exact hrunning t id' hold
  · rw [Function.update_self]
    exact hnew

theorem Held.set (h : Held exact s) (hsets : Sets s s' id job timer)
    (hstarted : s.started = true)
    (hjob : ∀ record, job = some record → JobHeld exact s'.rows id record)
    (htimer : ∀ t, timer = some t → ∃ record, job = some record ∧ record.state = .active) :
    Held exact s' := by
  refine ⟨fun hidle => ?_, fun id' record hrecord => ?_, fun id' t ht => ?_,
    hsets.running_timers h.running⟩
  · rw [hsets.started, hstarted] at hidle
    simp at hidle
  · rw [hsets.jobs] at hrecord
    by_cases hid : id' = id
    · subst hid
      rw [Function.update_self] at hrecord
      exact hjob record hrecord
    · rw [Function.update_of_ne hid] at hrecord
      have := h.job id' record hrecord
      rwa [JobHeld, hsets.rows id' hid]
  · rw [hsets.timers] at ht
    rw [hsets.jobs]
    by_cases hid : id' = id
    · subst hid
      rw [Function.update_self] at ht ⊢
      refine ⟨?_, htimer t ht⟩
      rcases hsets.timer t ht with hold | ⟨-, hlt⟩
      · exact Nat.lt_of_lt_of_le (h.timer id' t hold).1 hsets.nextTimer
      · exact hlt
    · rw [Function.update_of_ne hid] at ht ⊢
      obtain ⟨hlt, hactive⟩ := h.timer id' t ht
      exact ⟨Nat.lt_of_lt_of_le hlt hsets.nextTimer, hactive⟩

theorem Sets.moves (h : Sets s s' id job timer)
    (hinvocations : s'.invocations = s.invocations ++ calls) : Moves s s' calls where
  nextTimer := h.nextTimer
  timers id' t ht := by
    rw [h.timers] at ht
    by_cases hid : id' = id
    · subst hid
      rw [Function.update_self] at ht
      rcases h.timer t ht with hold | ⟨hnew, -⟩
      · exact Or.inl hold
      · exact Or.inr hnew
    · rw [Function.update_of_ne hid] at ht
      exact Or.inl ht
  invocations := hinvocations

theorem Sets.trans {job' : Option JobRecord} {timer' : Option ℕ} (h : Sets s s' id job timer)
    (h' : Sets s' s'' id job' timer') : Sets s s'' id job' timer' where
  jobs := by rw [h'.jobs, h.jobs, Function.update_idem]
  timers := by rw [h'.timers, h.timers, Function.update_idem]
  running t id' ht := by
    rcases h'.running t id' ht with ⟨hid, hmiddle⟩ | hnew
    · rcases h.running t id' hmiddle with hold | ⟨heq, -⟩
      · exact Or.inl hold
      · exact absurd heq hid
    · exact Or.inr hnew
  started := h'.started.trans h.started
  rows id' hid := (h'.rows id' hid).trans (h.rows id' hid)
  nextTimer := h.nextTimer.trans h'.nextTimer
  timer t ht := by
    have hn := h.nextTimer
    have hn' := h'.nextTimer
    rcases h'.timer t ht with hmiddle | ⟨hle, hlt⟩
    · rw [h.timers, Function.update_self] at hmiddle
      rcases h.timer t hmiddle with hold | ⟨hle, hlt⟩
      · exact Or.inl hold
      · exact Or.inr ⟨hle, by omega⟩
    · exact Or.inr ⟨by omega, hlt⟩

theorem Moves.refl (s : State) : Moves s s [] := ⟨Nat.le_refl _, fun _ _ h => Or.inl h, by simp⟩

theorem Moves.trans {later : List Invocation} (h : Moves s s' calls) (h' : Moves s' s'' later) :
    Moves s s'' (calls ++ later) where
  nextTimer := h.nextTimer.trans h'.nextTimer
  timers id t ht := by
    have := h.nextTimer
    rcases h'.timers id t ht with hmiddle | hle
    · exact h.timers id t hmiddle
    · right
      omega
  invocations := by rw [h'.invocations, h.invocations, List.append_assoc]

end

/-! ## Timers -/

section Timers

variable (s : State) (id : String)

@[simp] theorem State.stopTimerOf_jobs : (s.stopTimerOf id).jobs = s.jobs := by
  unfold State.stopTimerOf
  split <;> rfl

@[simp] theorem State.stopTimerOf_timers : (s.stopTimerOf id).timers = s.timers := by
  unfold State.stopTimerOf
  split <;> rfl

@[simp] theorem State.stopTimerOf_started : (s.stopTimerOf id).started = s.started := by
  unfold State.stopTimerOf
  split <;> rfl

@[simp] theorem State.stopTimerOf_rows : (s.stopTimerOf id).rows = s.rows := by
  unfold State.stopTimerOf
  split <;> rfl

@[simp] theorem State.stopTimerOf_nextTimer : (s.stopTimerOf id).nextTimer = s.nextTimer := by
  unfold State.stopTimerOf
  split <;> rfl

@[simp] theorem State.stopTimerOf_nextUuid : (s.stopTimerOf id).nextUuid = s.nextUuid := by
  unfold State.stopTimerOf
  split <;> rfl

@[simp] theorem State.stopTimerOf_invocations :
    (s.stopTimerOf id).invocations = s.invocations := by
  unfold State.stopTimerOf
  split <;> rfl

end Timers

theorem running_stopTimer {s : State} {t t' : ℕ} {id : String}
    (h : (s.stopTimer t).running t' = some id) : s.running t' = some id := by
  by_cases ht : t' = t
  · simp [State.stopTimer, ht] at h
  · simpa [State.stopTimer, Function.update_of_ne ht] using h

/-- After the timer of a job is stopped none of the job runs. -/
theorem running_stopTimerOf {s : State}
    (hrunning : ∀ t id, s.running t = some id → s.timers id = some t) {id id' : String} {t : ℕ}
    (h : (s.stopTimerOf id).running t = some id') : id' ≠ id ∧ s.running t = some id' := by
  unfold State.stopTimerOf at h
  split at h
  · rename_i hnone
    refine ⟨?_, h⟩
    rintro rfl
    have := hrunning t id' h
    rw [hnone] at this
    simp at this
  · rename_i old hold
    refine ⟨?_, running_stopTimer h⟩
    rintro rfl
    have := hrunning t id' (running_stopTimer h)
    rw [hold, Option.some.injEq] at this
    simp [State.stopTimer, this] at h

/-- The state but for what an operation then sets of the job: none of its timers run. -/
structure Elsewhere (s s' : State) (id : String) : Prop where
  jobs : s'.jobs = s.jobs
  timers : s'.timers = s.timers
  running : ∀ t id', s'.running t = some id' → id' ≠ id ∧ s.running t = some id'
  started : s'.started = s.started
  rows : ∀ id', id' ≠ id → rowIn s'.rows id' = rowIn s.rows id'
  nextTimer : s.nextTimer ≤ s'.nextTimer

section

variable {exact : Prop} {source : UuidSource} {s s' : State} {id : String}
  {job : Option JobRecord}

theorem Elsewhere.clear (h : Elsewhere s s' id) (job : Option JobRecord) :
    Sets s ((s'.setTimer id none).setJob id job) id job none where
  jobs := by simp [State.setJob, State.setTimer, h.jobs]
  timers := by simp [State.setJob, State.setTimer, h.timers]
  running t id' ht := Or.inl (h.running t id' ht)
  started := h.started
  rows := h.rows
  nextTimer := h.nextTimer
  timer := by simp

theorem Sets.resume (h : Sets s s' id job none) {t : ℕ} (hle : s.nextTimer ≤ t)
    (hlt : t < s'.nextTimer) :
    Sets s ((s'.setTimer id (some t)).resumeTimer t id) id job (some t) where
  jobs := h.jobs
  timers := by simp [State.setTimer, State.resumeTimer, h.timers]
  running t' id' ht := by
    by_cases heq : t' = t
    · subst heq
      simp only [State.resumeTimer, Function.update_self, Option.some.injEq] at ht
      exact Or.inr ⟨ht.symm, rfl⟩
    · simp only [State.resumeTimer, Function.update_of_ne heq] at ht
      rcases h.running t' id' ht with hold | ⟨-, hnew⟩
      · exact Or.inl hold
      · simp at hnew
  started := h.started
  rows := h.rows
  nextTimer := h.nextTimer
  timer t' ht := by
    simp only [Option.some.injEq] at ht
    subst ht
    exact Or.inr ⟨hle, hlt⟩

theorem Elsewhere.resume (h : Elsewhere s s' id) (job : Option JobRecord) {t : ℕ}
    (hle : s.nextTimer ≤ t) (hlt : t < s'.nextTimer) :
    Sets s (((s'.setJob id job).setTimer id (some t)).resumeTimer t id) id job (some t) := by
  have hresume := (h.clear job).resume hle hlt
  simpa [State.setJob, State.setTimer, State.resumeTimer] using hresume

theorem Sets.stopTimer {timer : Option ℕ} (h : Sets s s' id job timer) (t : ℕ) :
    Sets s (s'.stopTimer t) id job timer where
  jobs := h.jobs
  timers := h.timers
  running t' id' ht := h.running t' id' (running_stopTimer ht)
  started := h.started
  rows := h.rows
  nextTimer := h.nextTimer
  timer := h.timer

/-- A timer is made before. -/
theorem Sets.of_tick {timer : Option ℕ}
    (h : Sets { s with nextTimer := s.nextTimer + 1 } s' id job timer) :
    Sets s s' id job timer where
  jobs := h.jobs
  timers := h.timers
  running := h.running
  started := h.started
  rows := h.rows
  nextTimer := (Nat.le_succ _).trans h.nextTimer
  timer t ht := by
    rcases h.timer t ht with hold | ⟨hle, hlt⟩
    · exact Or.inl hold
    · exact Or.inr ⟨(Nat.le_succ _).trans hle, hlt⟩

/-- The timer of the job is left as it is. -/
theorem Held.sets_job (h : Held exact s) {rows : List JobRow}
    (hrows : ∀ id', id' ≠ id → rowIn rows id' = rowIn s.rows id') (job : Option JobRecord) :
    Sets s ({ s with rows := rows }.setJob id job) id job (s.timers id) where
  jobs := rfl
  timers := (Function.update_eq_self id s.timers).symm
  running t id' ht := by
    by_cases hid : id' = id
    · exact Or.inr ⟨hid, hid ▸ h.running t id' ht⟩
    · exact Or.inl ⟨hid, ht⟩
  started := rfl
  rows := hrows
  nextTimer := Nat.le_refl _
  timer _ ht := Or.inl ht

theorem Held.sets_self (h : Held exact s) (id : String) : Sets s s id (s.jobs id) (s.timers id) := by
  have hsets := @Held.sets_job exact s id h s.rows (fun _ _ => rfl) (s.jobs id)
  simpa [State.setJob] using hsets

theorem Held.elsewhere_stopped (h : Held exact s) {rows : List JobRow} {nextTimer : ℕ}
    (hrows : ∀ id', id' ≠ id → rowIn rows id' = rowIn s.rows id')
    (hle : s.nextTimer ≤ nextTimer) :
    Elsewhere s ({ s with rows := rows, nextTimer := nextTimer }.stopTimerOf id) id where
  jobs := by simp
  timers := by simp
  running t id' ht := by
    have := @running_stopTimerOf { s with rows := rows, nextTimer := nextTimer } h.running _ _ _ ht
    exact this
  started := by simp
  rows := by simpa using hrows
  nextTimer := by simpa using hle

theorem Held.elsewhere_untimed (h : Held exact s) (hnone : s.timers id = none)
    (nextUuid : ℕ) {rows : List JobRow} {nextTimer : ℕ}
    (hrows : ∀ id', id' ≠ id → rowIn rows id' = rowIn s.rows id')
    (hle : s.nextTimer ≤ nextTimer) :
    Elsewhere s { s with rows := rows, nextTimer := nextTimer, nextUuid := nextUuid } id where
  jobs := rfl
  timers := rfl
  running t id' ht := by
    refine ⟨?_, ht⟩
    rintro rfl
    have := h.running t id' ht
    rw [hnone] at this
    simp at this
  started := rfl
  rows := hrows
  nextTimer := hle

/-! ## What leaves the jobs alone -/

theorem Good.tick (h : Good exact source s) :
    Good exact source { s with nextTimer := s.nextTimer + 1 } where
  stored := h.stored
  held := ⟨h.held.idle, h.held.job, fun id t ht => by
    obtain ⟨hlt, hactive⟩ := h.held.timer id t ht
    exact ⟨by simp only; omega, hactive⟩, h.held.running⟩

theorem Good.issue (h : Good exact source s) :
    Good exact source { s with nextUuid := s.nextUuid + 1 } where
  stored := h.stored.issue
  held := ⟨h.held.idle, h.held.job, h.held.timer, h.held.running⟩

theorem Good.stopTimer (h : Good exact source s) (t : ℕ) : Good exact source (s.stopTimer t) where
  stored := h.stored
  held := ⟨h.held.idle, h.held.job, h.held.timer,
    fun t' id' ht => h.held.running t' id' (running_stopTimer ht)⟩

theorem moves_tick (s : State) (nextUuid : ℕ) :
    Moves s { s with nextTimer := s.nextTimer + 1, nextUuid := nextUuid } [] where
  nextTimer := Nat.le_succ _
  timers _ _ h := Or.inl h
  invocations := by simp

theorem Moves.stopTimer {calls : List Invocation} (h : Moves s s' calls) (t : ℕ) :
    Moves s (s'.stopTimer t) calls :=
  ⟨h.nextTimer, h.timers, h.invocations⟩

theorem createTimer_cases (env : Surroundings) (s : State) :
    (∃ ms, isSafe ms = true ∧ createTimer env s =
      (.ok (s.nextTimer, ms), { s with nextTimer := s.nextTimer + 1 })) ∨
    ∃ e, createTimer env s = (.error e, { s with nextTimer := s.nextTimer + 1 }) := by
  unfold createTimer
  cases env.timer with
  | invalid => exact Or.inr ⟨_, rfl⟩
  | noFutureRun => exact Or.inr ⟨_, rfl⟩
  | nextRun date =>
    have hbound := date.2
    refine Or.inl ⟨date.1, ?_, rfl⟩
    simp only [isSafe, decide_eq_true_eq]
    omega

end

end Scheduler

end Kinetick
