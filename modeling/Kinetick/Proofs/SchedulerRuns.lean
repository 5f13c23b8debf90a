import Kinetick.Proofs.SchedulerRestore

/-!
# Runs of the scheduler

What holds of every run: how often handlers are called and by which timers, and that memory and
database agree unless a job that is looked up could not be stored.
-/

namespace Kinetick

namespace Scheduler

variable {exact : Prop} {source : UuidSource} {s : State} {id : String}

theorem Kept.called {s' : State} (h : Kept exact source s s') :
    Good exact source s' ∧ ∃ calls, Moves s s' calls ∧ ∀ call ∈ calls, Called s call :=
  ⟨h.1, [], h.2, by simp⟩

/-- A step keeps the invariant, and what it calls it calls by the job's timer. -/
theorem step_kept (h : Good exact source s) (e : Event) (hget : exact → GetPersists s e) :
    Good exact source (step source s e).1 ∧
      ∃ calls, Moves s (step source s e).1 calls ∧ ∀ call ∈ calls, Called s call := by
  cases e with
  | registerHandler handlerKey => exact (registerHandler_kept h handlerKey).called
  | start env restoreExecution => exact (start_kept restoreExecution env h).called
  | stop => exact (stop_kept h).called
  | crash => exact (crashed_kept h).called
  | schedule env handlerKey json => exact (schedule_kept h env handlerKey json).called
  | reschedule env schedulerId json => exact (reschedule_kept h env schedulerId json).called
  | cancel env schedulerId => exact (cancel_kept h env schedulerId).called
  | get env schedulerId => exact (get_kept h env schedulerId hget).called
  | remove fails schedulerId => exact (remove_kept h fails schedulerId).called
  | fire env timer =>
    simp only [step]
    split
    · exact h.kept_refl.called
    · exact trigger_kept h env _ timer

theorem initialState_good (exact : Prop) (source : UuidSource) :
    Good exact source initialState where
  stored := Stored.initial source
  held := ⟨fun _ _ => rfl, by simp [initialState], by simp [initialState], by simp [initialState]⟩

theorem after_good (source : UuidSource) (es : List Event) :
    Good False source ((machine source).after initialState es) :=
  (machine source).after_invariant (P := Good False source)
    (fun _ e hs _ => (step_kept hs e False.elim).1) (initialState_good False source)
    ((machine source).along_true _ es)

theorem Good.counts (h : Good exact source s) (e : Event) : Counts source s e := by
  obtain ⟨-, calls, hmoves, hcalls⟩ := step_kept h.weaken e False.elim
  intro call hcall hnew
  rw [hmoves.invocations] at hcall
  have hcalled := hcalls call ((List.mem_append.1 hcall).resolve_left hnew)
  exact ⟨hcalled.row, hcalled.counted⟩

/-- The jobs are exactly those of their rows. -/
theorem Good.mirrors (h : Good True source s) : Mirrors s := by
  intro id record hjob
  obtain ⟨-, stored, hrow, -, hexact⟩ := h.held.job id record hjob
  rw [State.row_eq, hrow, hexact trivial]

/-! ## Timers that are taken from a job -/

/-- The job's timer is a later one, and since the call so were those that called. -/
structure OnlyLater (id : String) (calls timer : ℕ) (s : State) : Prop where
  made : timer ≤ s.nextTimer
  timers : ∀ t, s.timers id = some t → timer ≤ t
  begun : calls ≤ s.invocations.length
  called : CalledByLater id calls timer s

theorem OnlyLater.step {calls timer : ℕ} (hlater : OnlyLater id calls timer s)
    (h : Good False source s) (e : Event) : OnlyLater id calls timer (step source s e).1 := by
  obtain ⟨-, new, hmoves, hnew⟩ := step_kept h e False.elim
  have hmade := hlater.made
  refine ⟨hmade.trans hmoves.nextTimer, fun t ht => ?_, ?_, fun call hcall hid => ?_⟩
  · rcases hmoves.timers id t ht with hold | hle
    · exact hlater.timers t hold
    · omega
  · have := hlater.begun
    rw [hmoves.invocations, List.length_append]
    omega
  · rw [hmoves.invocations, List.drop_append_of_le_length hlater.begun] at hcall
    rcases List.mem_append.1 hcall with hold | hcalled
    · exact hlater.called call hold hid
    · exact hlater.timers call.timer (hid ▸ (hnew call hcalled).timer)

@[simp] theorem isOk_error {α : Type} (e : String) :
    (Except.error e : Except String α).isOk = false := rfl

theorem reschedule_ends (env : Surroundings) (json : JsValue) (s : State) :
    (reschedule env id json s).1.isOk = true →
      ∀ t, (reschedule env id json s).2.timers id = some t → s.nextTimer ≤ t := by
  unfold reschedule
  split_ifs
  · simp
  split
  · simp
  split_ifs
  swap
  · simp
  split
  · simp
  split
  · simp
  rcases createTimer_cases env s with ⟨ms, -, htimer⟩ | ⟨e, htimer⟩
  · rw [htimer]
    dsimp only
    split
    · simp
    · intro _ t ht
      simp only [State.resumeTimer, State.setTimer, Function.update_self, Option.some.injEq] at ht
      omega
  · rw [htimer]
    simp

theorem Good.untimed_of_absent (h : Good exact source s) (hjob : s.jobs id = none) :
    s.timers id = none := by
  cases ht : s.timers id with
  | none => rfl
  | some t =>
    obtain ⟨-, record, hrecord, -⟩ := h.held.timer id t ht
    simp [hjob] at hrecord

theorem cancel_ends (h : Good exact source s) (env : Surroundings) :
    (cancel env id s).1.isOk = true → (cancel env id s).2.timers id = none := by
  unfold cancel
  by_cases hstarted : s.started = true
  swap
  · rw [if_pos (by simpa using hstarted)]
    simp
  rw [if_neg (by simpa using hstarted)]
  split
  · rename_i hjob
    exact fun _ => h.untimed_of_absent hjob
  rename_i current hjob
  by_cases hcancelled : current.state = .cancelled
  · rw [if_pos hcancelled]
    intro _
    cases ht : s.timers id with
    | none => rfl
    | some t =>
      obtain ⟨-, record, hrecord, hactive⟩ := h.held.timer id t ht
      rw [hjob, Option.some.injEq] at hrecord
      rw [← hrecord, hcancelled] at hactive
      simp at hactive
  rw [if_neg hcancelled]
  dsimp only
  split
  · simp
  · simp [State.setTimer, State.setJob]

theorem remove_ends (fails : Bool) (s : State) :
    (remove fails id s).1.isOk = true → (remove fails id s).2.timers id = none := by
  unfold remove
  split_ifs
  · simp
  · simp
  · simp [State.setTimer, State.setJob]

/-- An operation that takes the timer from a job leaves it none but a new one. -/
theorem ends_later (h : Good False source s) {e : Event} (hends : Ends id e)
    (hreturned : (step source s e).2 = true) :
    OnlyLater id s.invocations.length s.nextTimer (step source s e).1 := by
  have hnew : ∀ t, (step source s e).1.timers id = some t → s.nextTimer ≤ t := by
    cases e with
    | reschedule env id' json =>
      obtain rfl : id' = id := hends
      exact reschedule_ends env json s hreturned
    | cancel env id' =>
      obtain rfl : id' = id := hends
      have hnone := cancel_ends h env hreturned
      intro t ht
      change (cancel env id' s).2.timers id' = some t at ht
      simp [hnone] at ht
    | remove fails id' =>
      obtain rfl : id' = id := hends
      have hnone := remove_ends fails s hreturned
      intro t ht
      change (remove fails id' s).2.timers id' = some t at ht
      simp [hnone] at ht
    | _ => exact hends.elim
  have hquiet : Moves s (step source s e).1 [] := by
    cases e with
    | reschedule env id' json => exact (reschedule_kept h env id' json).2
    | cancel env id' => exact (cancel_kept h env id').2
    | remove fails id' => exact (remove_kept h fails id').2
    | _ => exact hends.elim
  have hinvocations := hquiet.invocations
  rw [List.append_nil] at hinvocations
  refine ⟨hquiet.nextTimer, hnew, by rw [hinvocations], fun call hcall => ?_⟩
  rw [hinvocations, List.drop_length] at hcall
  simp at hcall

/-- Ids that are longer each time. -/
def longerIds : UuidSource where
  uuid n := String.ofList (List.replicate (n + 1) 'u')
  injective := by
    intro n m h
    have hlength := congrArg String.length h
    simpa using hlength

/-- The clock, and the next run of a timer. -/
def surroundings (now : ℤ) (nextRun : DateMs) (fails : Bool) : Surroundings where
  now _ := now
  timer := .nextRun nextRun
  nextRun := some nextRun
  fails := fails

/-- Each generation of a job runs no more often than its schedule allows, and a run is counted
before its handler is called. Once a timer is taken from its job it calls no handler. Memory and
database agree as long as no job that is looked up fails to be stored. -/
theorem jobs_run_as_scheduled (source : UuidSource) (es : List Event) :
    WithinLimit ((machine source).after initialState es).invocations ∧
      (machine source).Along (Counts source) initialState es ∧
      (∀ earlier e later id, es = earlier ++ e :: later → Ends id e →
        (step source ((machine source).after initialState earlier) e).2 = true →
        CalledByLater id ((machine source).after initialState earlier).invocations.length
          ((machine source).after initialState earlier).nextTimer
          ((machine source).after initialState es)) ∧
      ((machine source).Along GetPersists initialState es →
        (machine source).Throughout Mirrors initialState es) := by
  refine ⟨(after_good source es).stored.within, ?_, ?_, fun hpersist => ?_⟩
  · exact Machine.Along.of_invariant (P := Good False source)
      (fun s e hs _ => ⟨(step_kept hs e False.elim).1, hs.counts e⟩) (initialState_good False source)
      ((machine source).along_true _ es)
  · rintro earlier e later id rfl hends hreturned
    have hs := after_good source earlier
    have hlater := ends_later hs hends hreturned
    have hboth := (machine source).after_invariant
      (P := fun s => OnlyLater id ((machine source).after initialState earlier).invocations.length
        ((machine source).after initialState earlier).nextTimer s ∧ Good False source s)
      (fun s e h _ => ⟨h.1.step h.2 e, (step_kept h.2 e False.elim).1⟩)
      ⟨hlater, (step_kept hs e False.elim).1⟩ ((machine source).along_true _ later)
    rw [Machine.after_append]
    exact hboth.1.called
  · exact hpersist.throughout (J := Good True source) (fun _ hs => hs.mirrors)
      (fun _ e hs hget => (step_kept hs e fun _ => hget).1) (initialState_good True source)

/-- A job that ran is cancelled, and its timer was to fire again. -/
def cancelledRun : List Event := [
  .registerHandler "report",
  .start (fun _ => surroundings 0 ⟨10, by decide⟩ false) true,
  .schedule (surroundings 0 ⟨10, by decide⟩ false) "report"
    (.object [("kind", .string "cron"), ("expression", .string "* * * * *")]),
  .fire (surroundings 10 ⟨20, by decide⟩ false) 0,
  .cancel (surroundings 15 ⟨20, by decide⟩ false) "u"]

theorem jobs_run_as_scheduled_cancelledRun :
    CalledByLater "u" 1 1 ((machine longerIds).after initialState (cancelledRun ++
      [.fire (surroundings 20 ⟨30, by decide⟩ false) 0])) ∧
      (machine longerIds).Throughout Mirrors initialState cancelledRun := by
  obtain ⟨-, -, hlater, -⟩ := jobs_run_as_scheduled longerIds (cancelledRun ++
    [.fire (surroundings 20 ⟨30, by decide⟩ false) 0])
  obtain ⟨-, -, -, hmirrors⟩ := jobs_run_as_scheduled longerIds cancelledRun
  refine ⟨?_, hmirrors ⟨trivial, trivial, trivial, trivial, trivial, trivial⟩⟩
  exact hlater (cancelledRun.take 4) (.cancel (surroundings 15 ⟨20, by decide⟩ false) "u")
    [.fire (surroundings 20 ⟨30, by decide⟩ false) 0] "u" rfl rfl (by decide)

/-- A row is read at any time as the one job that was stored, and an active job has runs left. -/
def ReadsBack (s : State) : Prop :=
  ∀ id row, s.row id = some row → ∃ record, row = jobRow record ∧ record.schedulerId = id ∧
    (∀ m, limit record.schedule = some m → record.state = .active → record.runCount < m) ∧
    ∀ now, parseJobRow row now = if isValidJobRow row then some record else none

theorem readsBack_after (source : UuidSource) (es : List Event) :
    ReadsBack ((machine source).after initialState es) := by
  intro id row hrow
  rw [State.row_eq] at hrow
  obtain ⟨record, rfl, hjob⟩ := (after_good source es).stored.jobs id row hrow
  refine ⟨record, rfl, hjob.schedulerId, fun m hm => (hjob.valid.limited m hm).2, fun now => ?_⟩
  cases hrow : isValidJobRow (jobRow record) with
  | false => simp [parseJobRow, hrow]
  | true =>
    have hread : normalizeSchedule (jobRow record).scheduleJson now true = .ok record.schedule :=
      normalizeSchedule_toJson hjob.valid.schedule now
    obtain ⟨parsed, hparsed⟩ : ∃ parsed, parseJobRow (jobRow record) now = some parsed := by
      simp [parseJobRow, hrow, hread]
    simp [hparsed, parseJobRow_jobRow hjob.valid hparsed]

/-! ## A job that is looked up and cannot be stored -/

/-- A job by a cron expression is restored where its handler is missing and is looked up when its
next run is past. It is not stored the first time. -/
def refreshedRun : List Event := [
  .registerHandler "report",
  .start (fun _ => surroundings 0 ⟨10, by decide⟩ false) true,
  .schedule (surroundings 0 ⟨10, by decide⟩ false) "report"
    (.object [("kind", .string "cron"), ("expression", .string "* * * * *")]),
  .crash,
  .start (fun _ => surroundings 5 ⟨10, by decide⟩ false) true,
  .get (surroundings 20 ⟨30, by decide⟩ true) "u"]

/-- The job is looked up again, and in memory its next run is another than in its row. -/
theorem jobs_not_always_mirrored :
    ¬ ∀ (source : UuidSource) (es : List Event) (e : Event),
      (step source ((machine source).after initialState es) e).2 = true →
        Mirrors (step source ((machine source).after initialState es) e).1 := by
  intro hmirrors
  let lookup : Event := .get (surroundings 20 ⟨30, by decide⟩ false) "u"
  let s := (step longerIds ((machine longerIds).after initialState refreshedRun) lookup).1
  have hreturned :
      (step longerIds ((machine longerIds).after initialState refreshedRun) lookup).2 = true := by
    decide
  have hjob : (s.jobs "u").map (·.nextRunAtMs) = some (some 30) := by decide
  have hrow : (s.row "u").map (·.nextRunAtMs) = some (some 10) := by decide
  cases hrecord : s.jobs "u" with
  | none => simp [hrecord] at hjob
  | some record =>
    have hmirror := hmirrors longerIds refreshedRun lookup hreturned "u" record hrecord
    change s.row "u" = some (jobRow record) at hmirror
    rw [hmirror] at hrow
    rw [hrecord] at hjob
    simp only [Option.map_some, jobRow, Option.some.injEq] at hjob hrow
    rw [hjob] at hrow
    simp at hrow

end Scheduler

end Kinetick
