import Kinetick.Task.System

/-!
# What a call on a task does

A call sees the task and may find it further on whenever it is answered. It patches the task only
when it owes no event, owes a completed event once its patch ended the task, and ends when it owes
none. What it answers is the task as it was stored.
-/

namespace Kinetick.Task

/-! ### Forward -/

/-- How far a status is. -/
def BackgroundTaskStatus.rank : BackgroundTaskStatus → ℕ
  | queued => 0
  | running => 1
  | stopping => 2
  | succeeded | failed | canceled | lost => 3

theorem canTransitionTaskStatus_iff {source target : BackgroundTaskStatus} :
    canTransitionTaskStatus source target = true ↔ source = target ∨ source.rank < target.rank := by
  cases source <;> cases target <;> decide

theorem isTerminalTaskStatus_iff {status : BackgroundTaskStatus} :
    isTerminalTaskStatus status = true ↔ status.rank = 3 := by
  cases status <;> decide

theorem rank_le (status : BackgroundTaskStatus) : status.rank ≤ 3 := by
  cases status <;> decide

theorem SameEnd.refl (task : BackgroundTask) : SameEnd task task := ⟨rfl, rfl, rfl, rfl, rfl, rfl⟩

theorem SameEnd.trans {task task' task'' : BackgroundTask} (h : SameEnd task task')
    (h' : SameEnd task' task'') : SameEnd task task'' :=
  ⟨h'.status.trans h.status, h'.endedAt.trans h.endedAt, h'.lastError.trans h.lastError,
    h'.usage.trans h.usage, h'.outputRef.trans h.outputRef, h'.metadata.trans h.metadata⟩

theorem Later.refl (task : BackgroundTask) : Later task task :=
  ⟨canTransitionTaskStatus_iff.2 (.inl rfl), fun _ => .refl task⟩

theorem Later.trans {task task' task'' : BackgroundTask} (h : Later task task')
    (h' : Later task' task'') : Later task task'' := by
  refine ⟨canTransitionTaskStatus_iff.2 ?_, fun hended => ?_⟩
  · rcases canTransitionTaskStatus_iff.1 h.forward with heq | hlt
    · rw [heq]
      exact canTransitionTaskStatus_iff.1 h'.forward
    · rcases canTransitionTaskStatus_iff.1 h'.forward with heq' | hlt'
      · rw [← heq']
        exact .inr hlt
      · exact .inr (hlt.trans hlt')
  · have hsame := h.ended hended
    exact hsame.trans (h'.ended (by rw [hsame.status]; exact hended))

/-- A patch that the transitions allow, of a task that has not ended. -/
theorem later_patched {task : BackgroundTask} {patch : BackgroundTaskPatch} {now : ℤ}
    (hopen : isTerminalTaskStatus task.status = false)
    (hallowed : canTransitionTaskStatus task.status (task.patched patch now).status = true) :
    Later task (task.patched patch now) :=
  ⟨hallowed, fun hended => by simp [hopen] at hended⟩

/-- A task that has not ended may end any way. -/
theorem canTransition_terminal {source target : BackgroundTaskStatus}
    (hopen : isTerminalTaskStatus source = false) (hended : isTerminalTaskStatus target = true) :
    canTransitionTaskStatus source target = true := by
  have hsource : source.rank ≠ 3 := fun h => by simp [isTerminalTaskStatus_iff.2 h] at hopen
  have hle := rank_le source
  refine canTransitionTaskStatus_iff.2 (.inr ?_)
  rw [isTerminalTaskStatus_iff.1 hended]
  omega

/-! ### What a call sees -/

/-- Whether the call owes a completed event, and what it may see of the task. -/
structure Seen where
  owes : Bool
  task : Option BackgroundTask
  outputErrors : List Thrown

variable (taskId : String) (starter : Bool)

/-- What is seen moves on. -/
structure Onward (v v' : Seen) : Prop where
  errors : v.outputErrors ⊆ v'.outputErrors
  later : ∀ task, v.task = some task → ∃ task', v'.task = some task' ∧ Later task task'

/-- What the other calls may do to what is seen: only `start` creates the task. -/
structure Rely (v v' : Seen) : Prop extends Onward v v' where
  owes : v'.owes = v.owes
  absent : v.task = none → starter = true → v'.task = none

/-- The payload says how the task ended. -/
def SaysEnd (payload : Option Record) (status : BackgroundTaskStatus) : Prop :=
  ∃ record, payload = some record ∧ JsValue.lookup "status" record = .string status.text

/-- What a call may ask. -/
def May : TaskCommand → Seen → Prop
  | .create task, v =>
    starter = true ∧ v.owes = false ∧ task.taskId = taskId ∧
      isTerminalTaskStatus task.status = false ∧ v.task = none
  | .get id, _ => id = taskId
  | .patch id _, v => id = taskId ∧ v.owes = false ∧ v.task ≠ none
  | .appendEvent event, v =>
    if event.type = .completed then
      event.taskId = taskId ∧ v.owes = true ∧
        ∃ task, v.task = some task ∧ isTerminalTaskStatus task.status = true ∧
          SaysEnd event.payload task.status
    else v.owes = false
  | _, _ => True

/-- What an answer says of what is seen after it. -/
def Performs : (c : TaskCommand) → Seen → c.Answer → Seen → Prop
  | .generateTaskId, v, r, v' => r = taskId ∧ v' = v
  | .create task, v, r, v' => v.task = none → r = .ok task ∧ v' = { v with task := some task }
  | .get _, v, r, v' => r = v.task ∧ v' = v
  | .patch _ patch, v, r, v' => ∀ task, v.task = some task →
    task.taskId = taskId ∧ isTerminalTaskStatus task.status = false ∧
      ((∃ now, canTransitionTaskStatus task.status (task.patched patch now).status = true ∧
          r = .ok (task.patched patch now) ∧
          v' = { v with
            task := some (task.patched patch now)
            owes := isTerminalTaskStatus (task.patched patch now).status }) ∨
        (∃ error, r = .error error) ∧ v' = v ∧
          ∃ status, patch.status = some status ∧
            canTransitionTaskStatus task.status status = false)
  | .appendEvent _, v, _, v' => v' = { v with owes := false }
  | .finalizeOutput _ _, v, r, v' =>
    v'.owes = v.owes ∧ v'.task = v.task ∧ v.outputErrors ⊆ v'.outputErrors ∧
      ∀ error, r = .error error → error ∈ v'.outputErrors
  | _, v, _, v' => v' = v

/-- What an answer may come with: the others first, then what was asked. -/
def Does (c : TaskCommand) (v : Seen) (r : c.Answer) (v' : Seen) : Prop :=
  ∃ between, Rely starter v between ∧ Performs taskId c between r v'

/-- What is left of a call, by what it sees. -/
abbrev Obeying {α : Type} (Q : Except Thrown α → Seen → Prop) (m : Program α) (v : Seen) : Prop :=
  m.Obeys (May taskId starter) (Does taskId starter) Q v

variable {taskId starter} {v v' v'' : Seen}

theorem Onward.of_same (herrors : v.outputErrors ⊆ v'.outputErrors) (htask : v'.task = v.task) :
    Onward v v' :=
  ⟨herrors, fun task h => ⟨task, htask.trans h, .refl task⟩⟩

theorem Onward.refl (v : Seen) : Onward v v := .of_same (List.Subset.refl _) rfl

theorem Onward.trans (h : Onward v v') (h' : Onward v' v'') : Onward v v'' := by
  refine ⟨List.Subset.trans h.errors h'.errors, fun task htask => ?_⟩
  obtain ⟨task', htask', hlater⟩ := h.later task htask
  obtain ⟨task'', htask'', hlater'⟩ := h'.later task' htask'
  exact ⟨task'', htask'', hlater.trans hlater'⟩

theorem Rely.refl (v : Seen) : Rely starter v v := ⟨.refl v, rfl, fun h _ => h⟩

theorem Rely.trans (h : Rely starter v v') (h' : Rely starter v' v'') : Rely starter v v'' :=
  ⟨h.toOnward.trans h'.toOnward, h'.owes.trans h.owes,
    fun hnone hstarter => h'.absent (h.absent hnone hstarter) hstarter⟩

/-- A task that ended stays as it ended. -/
theorem Rely.ended (h : Rely starter v v') {task : BackgroundTask} (htask : v.task = some task)
    (hended : isTerminalTaskStatus task.status = true) :
    ∃ task', v'.task = some task' ∧ task'.status = task.status := by
  obtain ⟨task', htask', hlater⟩ := h.later task htask
  exact ⟨task', htask', (hlater.ended hended).status⟩

theorem May.rely {c : TaskCommand} (h : May taskId starter c v) (hrely : Rely starter v v') :
    May taskId starter c v' := by
  cases c with
  | create task =>
    obtain ⟨hstarter, howes, hid, hopen, hnone⟩ := h
    exact ⟨hstarter, hrely.owes.trans howes, hid, hopen, hrely.absent hnone hstarter⟩
  | get id => exact h
  | patch id patch =>
    obtain ⟨hid, howes, hsome⟩ := h
    refine ⟨hid, hrely.owes.trans howes, ?_⟩
    obtain ⟨task, htask⟩ := Option.ne_none_iff_exists'.1 hsome
    obtain ⟨task', htask', -⟩ := hrely.later task htask
    simp [htask']
  | appendEvent event =>
    simp only [May] at h ⊢
    split_ifs at h ⊢ with hcompleted
    · obtain ⟨hid, howes, task, htask, hended, hsays⟩ := h
      obtain ⟨task', htask', hstatus⟩ := hrely.ended htask hended
      exact ⟨hid, hrely.owes.trans howes, task', htask', by rwa [hstatus], by rwa [hstatus]⟩
    · exact hrely.owes.trans h
  | _ => trivial

/-- What the others do changes nothing of what a call may do, if its end may come later. -/
theorem Obeying.rely {α : Type} {Q : Except Thrown α → Seen → Prop} {m : Program α}
    (hQ : ∀ r v v', Q r v → Rely starter v v' → Q r v') (h : Obeying taskId starter Q m v)
    (hrely : Rely starter v v') : Obeying taskId starter Q m v' := by
  cases m with
  | ret r => exact hQ r v v' h hrely
  | ask c next =>
    obtain ⟨hmay, hnext⟩ := h
    refine ⟨hmay.rely hrely, fun r v'' hdoes => hnext r v'' ?_⟩
    obtain ⟨between, hbetween, hperforms⟩ := hdoes
    exact ⟨between, hrely.trans hbetween, hperforms⟩

/-- A task as it was stored. -/
def Held (v : Seen) (task : BackgroundTask) : Prop :=
  ∃ task', v.task = some task' ∧ Later task task'

theorem Held.onward {task : BackgroundTask} (h : Held v task) (honward : Onward v v') :
    Held v' task := by
  obtain ⟨task', htask', hlater⟩ := h
  obtain ⟨task'', htask'', hlater'⟩ := honward.later task' htask'
  exact ⟨task'', htask'', hlater.trans hlater'⟩

theorem Held.ne_none {task : BackgroundTask} (h : Held v task) : v.task ≠ none := by
  obtain ⟨task', htask', -⟩ := h
  simp [htask']

/-! ### What is asked -/

variable (taskId starter)

/-- Whether a completed event is owed before an event, and what else it needs. -/
structure Emits (event : TaskLifecycleEventType) (task : BackgroundTask) (payload : Option Record)
    (v : Seen) : Prop where
  held : Held v task
  owes : v.owes = decide (event = .completed)
  ends : event = .completed → task.taskId = taskId ∧ isTerminalTaskStatus task.status = true ∧
    SaysEnd payload task.status

variable {taskId starter}

theorem Emits.rely {event : TaskLifecycleEventType} {task : BackgroundTask}
    {payload : Option Record} (h : Emits taskId event task payload v) (hrely : Rely starter v v') :
    Emits taskId event task payload v' :=
  ⟨h.held.onward hrely.toOnward, hrely.owes.trans h.owes, h.ends⟩

/-- An event is appended, after which nothing is owed. -/
theorem emit_obeys {event : TaskLifecycleEventType} {task : BackgroundTask}
    {payload : Option Record} (h : Emits taskId event task payload v) :
    Obeying taskId starter (fun r v' => r = .ok () ∧ v'.owes = false ∧ Onward v v')
      (emit task event payload) v := by
  refine ⟨trivial, fun stamp v' ⟨between, hrely, hstamp⟩ => ?_⟩
  obtain rfl : v' = between := hstamp
  have h := h.rely hrely
  change Obeying taskId starter _ (Program.appendEvent _) v'
  refine ⟨?_, fun _ v'' ⟨between, hrely', happend⟩ => ?_⟩
  · simp only [May]
    split_ifs with hcompleted
    · obtain ⟨hid, hended, hsays⟩ := h.ends hcompleted
      obtain ⟨task', htask', hlater⟩ := h.held
      have hstatus := (hlater.ended hended).status
      refine ⟨hid, by simp [h.owes, hcompleted], task', htask', ?_, ?_⟩
      · rwa [hstatus]
      · rwa [hstatus]
    · simp [h.owes, hcompleted]
  · obtain rfl : v'' = { between with owes := false } := happend
    exact ⟨rfl, rfl, (hrely.trans hrely').toOnward.trans (.of_same (List.Subset.refl _) rfl)⟩

/-- What a patch of a task that has not ended may come to. -/
theorem patch_obeys {patch : BackgroundTaskPatch} (howes : v.owes = false)
    (hsome : v.task ≠ none) :
    Obeying taskId starter (fun r v' => (∃ task,
        r = .ok task ∧ task.taskId = taskId ∧ (∀ status, patch.status = some status →
          task.status = status) ∧ v'.task = some task ∧
        v'.owes = isTerminalTaskStatus task.status ∧ v.outputErrors ⊆ v'.outputErrors) ∨
      (∃ error, r = .error error) ∧ v'.owes = false ∧ v'.task ≠ none ∧
        v.outputErrors ⊆ v'.outputErrors ∧
        ∀ status, patch.status = some status → ∃ source, isTerminalTaskStatus source = false ∧
          canTransitionTaskStatus source status = false)
      (Program.patch taskId patch) v := by
  refine ⟨⟨rfl, howes, hsome⟩, fun r v' ⟨between, hrely, hpatch⟩ => ?_⟩
  obtain ⟨task, htask⟩ := Option.ne_none_iff_exists'.1 hsome
  obtain ⟨task', htask', -⟩ := hrely.later task htask
  obtain ⟨hid, hopen, ⟨now, hallowed, rfl, rfl⟩ | ⟨⟨error, rfl⟩, rfl, status, hstatus, hnot⟩⟩ :=
    hpatch task' htask'
  · refine .inl ⟨_, rfl, hid, fun status hstatus => ?_, rfl, rfl, hrely.errors⟩
    simp [BackgroundTask.patched, hstatus]
  · refine .inr ⟨⟨error, rfl⟩, hrely.owes.trans howes, by simp [htask'], hrely.errors, ?_⟩
    intro status' hstatus'
    rw [hstatus] at hstatus'
    cases hstatus'
    exact ⟨task'.status, hopen, hnot⟩

/-- The task is patched to its end, and the event of that follows. -/
theorem ending_obeys {patch : ℤ → BackgroundTaskPatch} {status : BackgroundTaskStatus}
    {payload : BackgroundTask → Option Record} (howes : v.owes = false) (hsome : v.task ≠ none)
    (hstatus : ∀ now, (patch now).status = some status)
    (hended : isTerminalTaskStatus status = true)
    (hpayload : ∀ task, task.status = status → SaysEnd (payload task) status) :
    Obeying taskId starter
      (fun r v' => v'.owes = false ∧
        ∃ task, r = .ok task ∧ Held v' task ∧ isTerminalTaskStatus task.status = true)
      (do
        let ended ← Program.patch taskId (patch (← Program.now))
        emit ended .completed (payload ended)
        return ended) v := by
  refine ⟨trivial, fun now v' ⟨between, hrely, hnow⟩ => ?_⟩
  obtain rfl : v' = between := hnow
  have howes' := hrely.owes.trans howes
  obtain ⟨task, htask⟩ := Option.ne_none_iff_exists'.1 hsome
  have hsome' : v'.task ≠ none := by
    obtain ⟨task', htask', -⟩ := hrely.later task htask
    simp [htask']
  refine (patch_obeys howes' hsome').bind (fun v'' ended hpatched => ?_) (fun v'' error hpatched => ?_)
  · obtain ⟨_, ⟨⟩, hid, hstatus', hstored, howes'', -⟩ | ⟨⟨_, ⟨⟩⟩, -⟩ := hpatched
    have hst := hstatus' status (hstatus now)
    have hemits : Emits taskId .completed ended (payload ended) v'' := by
      refine ⟨⟨ended, hstored, .refl ended⟩, by simp [howes'', hst, hended], fun _ => ⟨hid, ?_, ?_⟩⟩
      · rwa [hst]
      · rw [hst]
        exact hpayload ended hst
    refine (emit_obeys hemits).bind (fun w _ hemitted => ?_) (fun _ _ hemitted => nomatch hemitted.1)
    obtain ⟨-, hnone, honward⟩ := hemitted
    exact ⟨hnone, ended, rfl, hemits.held.onward honward, by rwa [hst]⟩
  · obtain ⟨_, ⟨⟩, -⟩ | ⟨-, -, -, -, hnot⟩ := hpatched
    obtain ⟨source, hopen, hnot⟩ := hnot status (hstatus now)
    simp [canTransition_terminal hopen hended] at hnot

/-- The task is read, if it is there. -/
theorem requireTask_obeys (howes : v.owes = false) :
    Obeying taskId starter (fun r v' => v'.owes = false ∧
        ((∃ task, r = .ok task ∧ Held v' task) ∨ r = .error (taskNotFoundError taskId)))
      (requireTask taskId) v := by
  refine ⟨rfl, fun r v' ⟨between, hrely, hget⟩ => ?_⟩
  obtain ⟨rfl, rfl⟩ := hget
  rcases htask : v'.task with _ | task
  · exact ⟨hrely.owes.trans howes, .inr rfl⟩
  · exact ⟨hrely.owes.trans howes, .inl ⟨task, rfl, task, htask, .refl task⟩⟩

/-! ### The calls -/

variable (runners : BackgroundTaskKind → Bool)

/-- How a call ends. -/
def Result (taskId : String) (call : TaskCall) : Except Thrown BackgroundTask → Seen → Prop
  | .ok task, v => v.owes = false ∧ Held v task ∧ AnswersWith task.status call
  | .error error, v => v.owes = false ∧ MayThrow runners taskId v.outputErrors error call

theorem Result.rely {call : TaskCall} {r : Except Thrown BackgroundTask}
    (h : Result runners taskId call r v) (hrely : Rely starter v v') :
    Result runners taskId call r v' := by
  rcases r with error | task
  · obtain ⟨howes, hthrows⟩ := h
    refine ⟨hrely.owes.trans howes, ?_⟩
    cases call with
    | complete options => exact hthrows.imp_right fun hmem => hrely.errors hmem
    | _ => exact hthrows
  · obtain ⟨howes, hheld, hanswers⟩ := h
    exact ⟨hrely.owes.trans howes, hheld.onward hrely.toOnward, hanswers⟩

variable {runners}

/-- What ended the task is what a call may answer. -/
theorem Result.of_ended {call : TaskCall} {r : Except Thrown BackgroundTask}
    (h : v.owes = false ∧
      ∃ task, r = .ok task ∧ Held v task ∧ isTerminalTaskStatus task.status = true) :
    Result runners taskId call r v := by
  obtain ⟨howes, task, rfl, hheld, hended⟩ := h
  refine ⟨howes, hheld, ?_⟩
  cases call with
  | start request => trivial
  | stop reason => exact .inl hended
  | _ => exact hended

theorem fail_obeys {error : Thrown} (howes : v.owes = false) :
    Obeying taskId starter (Result runners taskId (.fail error)) (fail taskId error) v := by
  refine (requireTask_obeys howes).bind (fun v' task hread => ?_) (fun v' e hread => ?_)
  · obtain ⟨howes', ⟨_, ⟨⟩, hheld⟩ | ⟨⟨⟩⟩⟩ := hread
    by_cases hended : isTerminalTaskStatus task.status = true
    · rw [if_pos hended]
      exact ⟨howes', hheld, hended⟩
    · rw [if_neg hended]
      exact (ending_obeys howes' hheld.ne_none (fun _ => rfl) rfl fun _ _ => ⟨_, rfl, rfl⟩).mono
        fun _ _ => .of_ended
  · obtain ⟨howes', ⟨_, ⟨⟩, -⟩ | hthrown⟩ := hread
    cases hthrown
    exact ⟨howes', rfl⟩

theorem completeOpen_obeys {options : CompleteTaskOptions} (howes : v.owes = false)
    (hsome : v.task ≠ none) :
    Obeying taskId starter (Result runners taskId (.complete options))
      (completeOpen taskId options) v := by
  have hended : isTerminalTaskStatus (options.status.getD .succeeded).status = true := by
    cases options.status.getD .succeeded <;> rfl
  refine (ending_obeys howes hsome (fun _ => rfl) hended fun task htask => ⟨_, rfl, ?_⟩).mono
    fun _ _ => .of_ended
  rw [htask]
  rfl

theorem complete_obeys {options : CompleteTaskOptions} (howes : v.owes = false) :
    Obeying taskId starter (Result runners taskId (.complete options))
      (complete taskId options) v := by
  refine (requireTask_obeys howes).bind (fun v' task hread => ?_) (fun v' e hread => ?_)
  · obtain ⟨howes', ⟨_, ⟨⟩, hheld⟩ | ⟨⟨⟩⟩⟩ := hread
    by_cases hended : isTerminalTaskStatus task.status = true
    · rw [if_pos hended]
      exact ⟨howes', hheld, hended⟩
    rw [if_neg hended]
    rcases options.summary with _ | summary
    · exact completeOpen_obeys howes' hheld.ne_none
    -- the output store may throw what `complete` throws
    refine ⟨trivial, fun r v'' ⟨between, hrely, howes'', htask, herrors, hthrows⟩ => ?_⟩
    have hheld' : Held v'' task := by
      obtain ⟨task', htask', hlater⟩ := hheld.onward hrely.toOnward
      exact ⟨task', htask.trans htask', hlater⟩
    have hnone := howes''.trans (hrely.owes.trans howes')
    rcases r with e | _
    · exact ⟨hnone, .inr (hthrows e rfl)⟩
    · exact completeOpen_obeys hnone hheld'.ne_none
  · obtain ⟨howes', ⟨_, ⟨⟩, -⟩ | hthrown⟩ := hread
    cases hthrown
    exact ⟨howes', .inl rfl⟩

/-- Neither the runner nor its absence does anything to the task. -/
theorem stopRunner_obeys {task : BackgroundTask} {reason : Option String} (howes : v.owes = false)
    (hsome : v.task ≠ none) :
    Obeying taskId starter (fun r v' => v'.owes = false ∧ v'.task ≠ none ∧
        ∀ canceled, r = .ok canceled →
          Held v' canceled ∧ isTerminalTaskStatus canceled.status = true)
      (stopRunner runners task taskId reason) v := by
  by_cases hrunner : runners task.kind = true
  · simp only [stopRunner, getRunner, hrunner, if_true]
    refine ⟨trivial, fun r v' ⟨between, hrely, hstop⟩ => ?_⟩
    obtain rfl : v' = between := hstop
    have howes' := hrely.owes.trans howes
    obtain ⟨stored, hstored⟩ := Option.ne_none_iff_exists'.1 hsome
    obtain ⟨stored', hstored', -⟩ := hrely.later stored hstored
    have hsome' : v'.task ≠ none := by simp [hstored']
    rcases r with error | _
    · exact ⟨howes', hsome', by simp⟩
    · refine (ending_obeys howes' hsome' (fun _ => rfl) rfl fun _ _ => ⟨_, rfl, rfl⟩).mono ?_
      rintro _ w ⟨hnone, canceled, rfl, hheld, hended⟩
      exact ⟨hnone, hheld.ne_none, by simp [hheld, hended]⟩
  · simp only [stopRunner, getRunner, hrunner]
    exact ⟨howes, hsome, by simp⟩

theorem stop_obeys {reason : Option String} (howes : v.owes = false) :
    Obeying taskId starter (Result runners taskId (.stop reason)) (stop runners taskId reason) v := by
  refine (requireTask_obeys howes).bind (fun v' task hread => ?_) (fun v' e hread => ?_)
  · obtain ⟨howes', ⟨_, ⟨⟩, hheld⟩ | ⟨⟨⟩⟩⟩ := hread
    by_cases hended : isTerminalTaskStatus task.status = true
    · rw [if_pos hended]
      exact ⟨howes', hheld, .inl hended⟩
    rw [if_neg hended]
    by_cases hstopping : task.status = .stopping
    · rw [if_pos hstopping]
      exact ⟨howes', hheld, .inr hstopping⟩
    rw [if_neg hstopping]
    refine (patch_obeys howes' hheld.ne_none).bind (fun w stopping hpatched => ?_)
      (fun w error hpatched => ?_)
    · obtain ⟨_, ⟨⟩, hid, hstatus, hstored, howes'', -⟩ | ⟨⟨_, ⟨⟩⟩, -⟩ := hpatched
      have hst := hstatus .stopping rfl
      have hemits : Emits taskId .stopRequested stopping
          (some [("reason", reason.elim .undefined .string)]) w :=
        ⟨⟨stopping, hstored, .refl stopping⟩, by simp [howes'', hst, isTerminalTaskStatus],
          by simp⟩
      refine (emit_obeys hemits).bind (fun w' _ hemitted => ?_)
        (fun _ _ hemitted => nomatch hemitted.1)
      obtain ⟨-, hnone, honward⟩ := hemitted
      refine (stopRunner_obeys hnone (hemits.held.onward honward).ne_none).bind_attempt
        fun u r hstopped => ?_
      obtain ⟨hnone', hsome', hcanceled⟩ := hstopped
      rcases r with error | canceled
      · exact (ending_obeys hnone' hsome' (fun _ => rfl) rfl fun _ _ => ⟨_, rfl, rfl⟩).mono
          fun _ _ => .of_ended
      · obtain ⟨hheld', hended'⟩ := hcanceled canceled rfl
        exact ⟨hnone', hheld', .inl hended'⟩
    · -- a task that has not ended may always be stopping
      obtain ⟨_, ⟨⟩, -⟩ | ⟨-, -, -, -, hnot⟩ := hpatched
      obtain ⟨source, hopen, hnot⟩ := hnot .stopping rfl
      cases source <;> simp [canTransitionTaskStatus, isTerminalTaskStatus] at hopen hnot
  · obtain ⟨howes', ⟨_, ⟨⟩, -⟩ | hthrown⟩ := hread
    cases hthrown
    exact ⟨howes', rfl⟩

theorem startCreated_obeys {created : BackgroundTask} {input : JsValue}
    (hid : created.taskId = taskId) (howes : v.owes = false) (hsome : v.task ≠ none) :
    Obeying taskId starter (fun r v' => v'.owes = false ∧ v'.task ≠ none ∧
        ∀ started, r = .ok started → Held v' started)
      (startCreated created input) v := by
  refine ⟨trivial, fun r v' ⟨between, hrely, hstart⟩ => ?_⟩
  obtain rfl : v' = between := hstart
  obtain ⟨task, htask⟩ := Option.ne_none_iff_exists'.1 hsome
  obtain ⟨task', htask', -⟩ := hrely.later task htask
  have howes' := hrely.owes.trans howes
  rcases r with error | handle
  · exact ⟨howes', by simp [htask'], by simp⟩
  refine ⟨trivial, fun now w ⟨between, hrely', hnow⟩ => ?_⟩
  obtain rfl : w = between := hnow
  obtain ⟨task'', htask'', -⟩ := hrely'.later task' htask'
  subst hid
  refine (patch_obeys (hrely'.owes.trans howes') (by simp [htask''])).bind
    (fun u started hpatched => ?_) (fun u error hpatched => ?_)
  · obtain ⟨_, ⟨⟩, hid, hstatus, hstored, howes'', -⟩ | ⟨⟨_, ⟨⟩⟩, -⟩ := hpatched
    have hst := hstatus .running rfl
    have hemits : Emits created.taskId .started started
        (some [("hasOutputRef", .boolean handle.outputRef.isSome)]) u :=
      ⟨⟨started, hstored, .refl started⟩, by simp [howes'', hst, isTerminalTaskStatus], by simp⟩
    refine (emit_obeys hemits).bind (fun u' _ hemitted => ?_) (fun _ _ hemitted => nomatch hemitted.1)
    obtain ⟨-, hnone, honward⟩ := hemitted
    have hheld := hemits.held.onward honward
    refine ⟨hnone, hheld.ne_none, fun _ hreturned => ?_⟩
    cases hreturned
    exact hheld
  · obtain ⟨_, ⟨⟩, -⟩ | ⟨-, hnone, hsome', -⟩ := hpatched
    exact ⟨hnone, hsome', by simp⟩

/-- The starter finds the task absent until it has created it. -/
theorem start_obeys {request : StartTaskRequest} (howes : v.owes = false) (habsent : v.task = none) :
    Obeying taskId true (Result runners taskId (.start request)) (start runners request) v := by
  by_cases hrunner : runners request.kind = true
  · simp only [start, getRunner, hrunner, if_true]
    refine ⟨trivial, fun now v' ⟨between, hrely, hnow⟩ => ?_⟩
    obtain rfl : v' = between := hnow
    refine ⟨trivial, fun id w ⟨between, hrely', hgenerated⟩ => ?_⟩
    obtain ⟨rfl, rfl⟩ := hgenerated
    have hrely := hrely.trans hrely'
    refine ⟨⟨rfl, hrely.owes.trans howes, rfl, rfl, hrely.absent habsent rfl⟩, ?_⟩
    rintro r u ⟨between, hrely', hcreated⟩
    have hrely := hrely.trans hrely'
    obtain ⟨rfl, rfl⟩ := hcreated (hrely.absent habsent rfl)
    change Obeying _ _ _ (emit _ .created _ >>= _) _
    refine Async.Obeys.bind (emit_obeys ?_) (fun u' _ hemitted => ?_)
      (fun _ _ hemitted => nomatch hemitted.1)
    · exact ⟨⟨_, rfl, .refl _⟩, hrely.owes.trans howes, by simp⟩
    obtain ⟨-, hnone, honward⟩ := hemitted
    obtain ⟨task, htask, -⟩ := honward.later _ rfl
    refine (startCreated_obeys rfl hnone (by simp [htask])).bind_attempt fun u'' r hstarted => ?_
    obtain ⟨hnone', hsome', hheld⟩ := hstarted
    rcases r with error | started
    · exact (ending_obeys hnone' hsome' (fun _ => rfl) rfl fun _ _ => ⟨_, rfl, rfl⟩).mono
        fun _ _ => .of_ended
    · exact ⟨hnone', hheld started rfl, trivial⟩
  · simp only [start, getRunner, hrunner]
    exact ⟨howes, by simpa [MayThrow] using hrunner⟩

end Kinetick.Task
