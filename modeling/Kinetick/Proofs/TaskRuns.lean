import Kinetick.Proofs.TaskCalls

/-!
# A task ends once

Each call is beside what it owes. What is owed and the completed events there are count one
together from when the task has ended, and nothing before; the answer to a call moves its account,
and the other calls find the task as it was or further on.
-/

namespace Kinetick.Task

/-! ### The store -/

namespace InMemoryTaskStore

variable {store : InMemoryTaskStore} {taskId : String} {task : BackgroundTask}

theorem get_taskId (h : store.get taskId = some task) : task.taskId = taskId := by
  simpa using List.find?_some h

theorem create_ok (hnone : store.get task.taskId = none) :
    (store.create task).1 = .ok task ∧ (store.create task).2.get task.taskId = some task := by
  unfold get at hnone
  simp [create, get, hnone]

/-- A patch is refused, or the task is patched. -/
theorem patch_cases (patch : BackgroundTaskPatch) (now : ℤ) (h : store.get taskId = some task) :
    ((∃ error, (store.patch taskId patch now).1 = .error error) ∧
        (store.patch taskId patch now).2 = store ∧
        ∃ status, patch.status = some status ∧
          canTransitionTaskStatus task.status status = false) ∨
      canTransitionTaskStatus task.status (task.patched patch now).status = true ∧
        (store.patch taskId patch now).1 = .ok (task.patched patch now) ∧
        (store.patch taskId patch now).2.get taskId = some (task.patched patch now) ∧
        (store.patch taskId patch now).2.events = store.events := by
  have hid := get_taskId h
  rcases hrefused : patch.status.filter fun status => !canTransitionTaskStatus task.status status
    with _ | status
  · refine .inr ⟨?_, ?_, ?_, ?_⟩
    · rcases hstatus : patch.status with _ | status
      · simp [BackgroundTask.patched, hstatus, canTransitionTaskStatus_iff]
      · simpa [BackgroundTask.patched, hstatus, Option.filter] using hrefused
    · simp [InMemoryTaskStore.patch, h, hrefused]
    · have hsame : ((fun other : BackgroundTask => decide (other.taskId = taskId)) ∘ fun other =>
          if other.taskId = taskId then task.patched patch now else other) =
          fun other => decide (other.taskId = taskId) := by
        funext other
        by_cases hother : other.taskId = taskId
        · simp [hother, BackgroundTask.patched, hid]
        · simp [hother]
      simp only [InMemoryTaskStore.patch, h, hrefused]
      unfold get at h ⊢
      rw [List.find?_map, hsame, h]
      simp [hid]
    · simp [InMemoryTaskStore.patch, h, hrefused]
  · obtain ⟨hstatus, hnot⟩ := Option.filter_eq_some_iff.1 hrefused
    refine .inl ⟨⟨invalidTaskStatusTransitionError taskId task.status status, ?_⟩, ?_, status,
      hstatus, ?_⟩
    · simp [InMemoryTaskStore.patch, h, hrefused]
    · simp [InMemoryTaskStore.patch, h, hrefused]
    · simpa using hnot

end InMemoryTaskStore

section

variable {runners : BackgroundTaskKind → Bool} {taskId : String} {s : TaskSystem}

namespace TaskSystem

/-- What a call sees of the state. -/
def seen (taskId : String) (s : TaskSystem) (owes : Bool) : Seen :=
  ⟨owes, s.task taskId, s.outputErrors⟩

/-- One from when the task has ended. -/
def ends (taskId : String) (s : TaskSystem) : ℕ := (s.ended taskId).toNat

theorem ended_of_none (h : s.task taskId = none) : s.ended taskId = false := by simp [ended, h]

theorem ended_of_some {task : BackgroundTask} (h : s.task taskId = some task) :
    s.ended taskId = isTerminalTaskStatus task.status := by simp [ended, h]

/-- An event of a task that has ended, with its status. -/
def Final (taskId : String) (s : TaskSystem) (event : TaskLifecycleEvent) : Prop :=
  ∃ task, s.task taskId = some task ∧ isTerminalTaskStatus task.status = true ∧
    SaysEnd event.payload task.status

theorem Final.onward {s' : TaskSystem} {event : TaskLifecycleEvent} {o o' : Bool}
    (h : s.Final taskId event) (honward : Onward (s.seen taskId o) (s'.seen taskId o')) :
    s'.Final taskId event := by
  obtain ⟨task, htask, hended, hsays⟩ := h
  obtain ⟨task', htask', hlater⟩ := honward.later task htask
  have hstatus := (hlater.ended hended).status
  exact ⟨task', htask', by rwa [hstatus], by rwa [hstatus]⟩

/-- What an answer does for the call it answers, by what it owed and owes then. -/
structure Moves (taskId : String) (starter : Bool) (s s' : TaskSystem) (owes owes' : Bool) :
    Prop where
  onward : Onward (s.seen taskId owes) (s'.seen taskId owes')
  absent : s.task taskId = none → starter = false → s'.task taskId = none
  account : owes'.toNat + (s'.completedEvents taskId).length + s.ends taskId =
    owes.toNat + (s.completedEvents taskId).length + s'.ends taskId
  final : ∀ event ∈ s'.completedEvents taskId,
    event ∈ s.completedEvents taskId ∨ s'.Final taskId event
  calls : s'.calls = s.calls

/-- An answer that leaves the store as it is. -/
theorem Moves.of_store {starter : Bool} {s' : TaskSystem} {owes : Bool}
    (hstore : s'.store = s.store) (herrors : s.outputErrors ⊆ s'.outputErrors)
    (hcalls : s'.calls = s.calls) : Moves taskId starter s s' owes owes := by
  have htask : s'.task taskId = s.task taskId := by simp [task, hstore]
  have hevents : s'.completedEvents taskId = s.completedEvents taskId := by
    simp [completedEvents, hstore]
  refine ⟨.of_same herrors htask, fun h _ => htask.trans h, ?_,
    fun event h => .inl (hevents ▸ h), hcalls⟩
  have hended : s'.ended taskId = s.ended taskId := by simp [ended, htask]
  simp [hevents, ends, hended]

end TaskSystem

open TaskSystem

/-- The answer to what a call may ask is as the call expects it. -/
theorem answer_performs {starter owes : Bool} {c : TaskCommand} (reply : Reply)
    (hmay : May taskId starter c (s.seen taskId owes))
    (hunended : ∀ id patch, c = .patch id patch → s.ended taskId = false) :
    ∃ owes', Performs taskId c (s.seen taskId owes) (s.answer taskId reply c).1
        ((s.answer taskId reply c).2.seen taskId owes') ∧
      Moves taskId starter s (s.answer taskId reply c).2 owes owes' := by
  cases c with
  | now => exact ⟨owes, rfl, .of_store rfl (List.Subset.refl _) rfl⟩
  | generateTaskId => exact ⟨owes, ⟨rfl, rfl⟩, .of_store rfl (List.Subset.refl _) rfl⟩
  | stampEvent => exact ⟨owes, rfl, .of_store rfl (List.Subset.refl _) rfl⟩
  | get id =>
    obtain rfl : id = taskId := hmay
    exact ⟨owes, ⟨rfl, rfl⟩, .of_store rfl (List.Subset.refl _) rfl⟩
  | runnerStart task input => exact ⟨owes, rfl, .of_store rfl (List.Subset.refl _) rfl⟩
  | runnerStop kind id reason => exact ⟨owes, rfl, .of_store rfl (List.Subset.refl _) rfl⟩
  | create task =>
    obtain ⟨hstarter, howes, rfl, hopen, hnone⟩ := hmay
    obtain rfl : owes = false := howes
    obtain ⟨hok, hget⟩ := InMemoryTaskStore.create_ok hnone
    have hevents : (s.store.create task).2.events = s.store.events := by
      unfold InMemoryTaskStore.create
      split_ifs <;> rfl
    refine ⟨false, fun _ => ⟨hok, by simp [seen, answer, TaskSystem.task, hget]⟩, ?_⟩
    refine ⟨⟨List.Subset.refl _, fun stored hstored => ?_⟩, fun _ hnot => ?_, ?_,
      fun event hevent => .inl ?_, rfl⟩
    · simp [hnone] at hstored
    · simp [hstarter] at hnot
    · have hcreated : (s.answer task.taskId reply (.create task)).2.task task.taskId = some task :=
        hget
      rw [ends, ends, ended_of_none hnone, ended_of_some hcreated, hopen]
      simp [completedEvents, answer, hevents]
    · simpa [completedEvents, answer, hevents] using hevent
  | patch id patch =>
    obtain ⟨rfl, howes, hsome⟩ := hmay
    obtain rfl : owes = false := howes
    obtain ⟨task, htask⟩ := Option.ne_none_iff_exists'.1 hsome
    have hopen := hunended _ _ rfl
    rw [ended_of_some htask] at hopen
    have hid := InMemoryTaskStore.get_taskId htask
    obtain ⟨hrefused, hsame, hnot⟩ | ⟨hallowed, hok, hget, hevents⟩ :=
      InMemoryTaskStore.patch_cases patch reply.now htask
    · refine ⟨false, fun stored hstored => ?_, .of_store hsame (List.Subset.refl _) rfl⟩
      obtain rfl : task = stored := by simpa [htask] using hstored
      refine ⟨hid, hopen, .inr ⟨hrefused, ?_, hnot⟩⟩
      simp [seen, answer, TaskSystem.task, hsame]
    · refine ⟨isTerminalTaskStatus (task.patched patch reply.now).status,
        fun stored hstored => ?_, ?_⟩
      · obtain rfl : task = stored := by simpa [htask] using hstored
        refine ⟨hid, hopen, .inl ⟨reply.now, hallowed, hok, ?_⟩⟩
        simp [seen, answer, TaskSystem.task, hget]
      · refine ⟨⟨List.Subset.refl _, fun stored hstored => ?_⟩, fun hnone _ => ?_, ?_,
          fun event hevent => .inl ?_, rfl⟩
        · obtain rfl : task = stored := by simpa [htask] using hstored
          exact ⟨_, hget, later_patched hopen hallowed⟩
        · exact absurd hnone hsome
        · have hpatched : (s.answer id reply (.patch id patch)).2.task id =
              some (task.patched patch reply.now) := hget
          rw [ends, ends, ended_of_some htask, ended_of_some hpatched, hopen]
          simp [completedEvents, answer, hevents]
          omega
        · simpa [completedEvents, answer, hevents] using hevent
  | appendEvent event =>
    refine ⟨false, rfl, ?_⟩
    simp only [May] at hmay
    have honward : Onward (s.seen taskId owes) (TaskSystem.seen taskId
        (s.answer taskId reply (.appendEvent event)).2 false) := .of_same (List.Subset.refl _) rfl
    split_ifs at hmay with hcompleted
    · obtain ⟨hid, howes, task, htask, hended, hpayload⟩ := hmay
      obtain rfl : owes = true := howes
      have hevents : TaskSystem.completedEvents taskId
          (s.answer taskId reply (.appendEvent event)).2 = s.completedEvents taskId ++ [event] := by
        simp [completedEvents, answer, InMemoryTaskStore.appendEvent, hcompleted, hid]
      have hends : TaskSystem.ends taskId (s.answer taskId reply (.appendEvent event)).2 =
          s.ends taskId := rfl
      refine ⟨honward, fun h _ => h, ?_, fun other hother => ?_, rfl⟩
      · rw [hevents, hends]
        simp
        omega
      · rw [hevents, List.mem_append] at hother
        refine hother.imp id fun hother => ?_
        obtain rfl : other = event := by simpa using hother
        exact ⟨task, htask, hended, hpayload⟩
    · obtain rfl : owes = false := hmay
      have hevents : TaskSystem.completedEvents taskId
          (s.answer taskId reply (.appendEvent event)).2 = s.completedEvents taskId := by
        simp [completedEvents, answer, InMemoryTaskStore.appendEvent, hcompleted]
      refine ⟨honward, fun h _ => h, ?_, fun other hother => .inl ?_, rfl⟩
      · rw [hevents]
        rfl
      · rwa [hevents] at hother
  | finalizeOutput id summary =>
    refine ⟨owes, ⟨rfl, rfl, ?_, ?_⟩, .of_store rfl ?_ rfl⟩
    · simp [seen, answer]
    · simp +contextual [seen, answer]
    · simp [answer]

/-! ### Runs -/

/-- Each call with what it owes. -/
structure Accounts (runners : BackgroundTaskKind → Bool) (taskId : String) (s : TaskSystem)
    (owed : List Bool) : Prop where
  length : owed.length = s.calls.length
  calls : ∀ (i : ℕ) owes (begun : BegunCall), owed[i]? = some owes → s.calls[i]? = some begun →
    Obeying taskId begun.call.isStart (Result runners taskId begun.call) begun.rest
      (s.seen taskId owes)
  single : owed.count true + (s.completedEvents taskId).length = s.ends taskId
  final : ∀ event ∈ s.completedEvents taskId, s.Final taskId event
  absent : (∀ begun ∈ s.calls, begun.call.isStart = false) → s.task taskId = none
  starter : ∀ (i j : ℕ) (begun begun' : BegunCall), s.calls[i]? = some begun →
    s.calls[j]? = some begun' → begun.call.isStart = true → begun'.call.isStart = true → i = j

variable {owed : List Bool}

/-- What the others see of an answer, of which at most one can create the task. -/
theorem TaskSystem.Moves.rely {starter starter' owes owes' : Bool} {s' : TaskSystem} (o : Bool)
    (h : Moves taskId starter s s' owes owes') (hother : starter' = true → starter = false) :
    Rely starter' (s.seen taskId o) (s'.seen taskId o) :=
  ⟨⟨h.onward.errors, h.onward.later⟩, rfl, fun hnone hstarter => h.absent hnone (hother hstarter)⟩

theorem count_set_toNat {i : ℕ} {owes : Bool} (owes' : Bool) (h : owed[i]? = some owes) :
    (owed.set i owes').count true + owes.toNat = owed.count true + owes'.toNat := by
  obtain ⟨hi, rfl⟩ := List.getElem?_eq_some_iff.1 h
  have hcount := List.count_set (a := owes') (b := true) hi
  rw [hcount]
  by_cases howes : owed[i] = true
  · have hpos : 0 < owed.count true := List.count_pos_iff.2 (howes ▸ List.getElem_mem hi)
    cases owes' <;> simp [howes] <;> omega
  · cases owes' <;> simp [howes]

theorem Accounts.owes (h : Accounts runners taskId s owed) {i : ℕ} {begun : BegunCall}
    (hbegun : s.calls[i]? = some begun) : ∃ owes, owed[i]? = some owes := by
  have hi := (List.getElem?_eq_some_iff.1 hbegun).1
  rw [← h.length] at hi
  exact ⟨owed[i], List.getElem?_eq_getElem hi⟩

theorem Accounts.endsOnce (h : Accounts runners taskId s owed) : s.EndsOnce runners taskId := by
  have hone : s.ends taskId ≤ 1 := by
    unfold ends
    cases s.ended taskId <;> simp
  have hresult : ∀ (i : ℕ) owes (begun : BegunCall) r, owed[i]? = some owes → s.calls[i]? = some begun →
      begun.rest = .ret r → Result runners taskId begun.call r (s.seen taskId owes) := by
    intro i owes begun r howes hbegun hr
    have := h.calls i owes begun howes hbegun
    rwa [hr] at this
  refine ⟨?_, h.final, fun hended hall => ?_, fun begun hbegun answered hanswered => ?_,
    fun begun hbegun error herror => ?_⟩
  · have := h.single
    omega
  · have hnone : owed.count true = 0 := by
      refine List.count_eq_zero.2 fun hmem => ?_
      obtain ⟨i, hi⟩ := List.mem_iff_getElem?.1 hmem
      have hlt := (List.getElem?_eq_some_iff.1 hi).1
      rw [h.length] at hlt
      have hbegun := List.getElem?_eq_getElem hlt
      have hfinished : finished s.calls[i] := hall _ (List.getElem_mem hlt)
      rcases hrest : s.calls[i].rest with r | ⟨c, next⟩
      · have hresult := hresult i true _ r hi hbegun hrest
        rcases r with error | task
        · exact nomatch hresult.1
        · exact nomatch hresult.1
      · simp [finished, hrest, Async.asked] at hfinished
    have := h.single
    simp only [ends, hended, hnone, Bool.toNat_true] at this
    omega
  · obtain ⟨i, hi⟩ := List.mem_iff_getElem?.1 hbegun
    obtain ⟨owes, howes⟩ := h.owes hi
    obtain ⟨-, hheld, hanswers⟩ := hresult i owes begun _ howes hi hanswered
    exact ⟨hheld, hanswers⟩
  · obtain ⟨i, hi⟩ := List.mem_iff_getElem?.1 hbegun
    obtain ⟨owes, howes⟩ := h.owes hi
    exact (hresult i owes begun _ howes hi herror).2

theorem call_obeys {call : TaskCall} (habsent : call.isStart = true → s.task taskId = none) :
    Obeying taskId call.isStart (Result runners taskId call) (call.program runners taskId)
      (s.seen taskId false) := by
  cases call with
  | start request => exact start_obeys rfl (habsent rfl)
  | stop reason => exact stop_obeys rfl
  | complete options => exact complete_obeys rfl
  | fail error => exact fail_obeys rfl

theorem getElem?_append_singleton {α : Type} {xs : List α} {x y : α} {i : ℕ}
    (h : (xs ++ [x])[i]? = some y) : xs[i]? = some y ∨ i = xs.length ∧ y = x := by
  rw [List.getElem?_append] at h
  split_ifs at h with hlt
  · exact .inl h
  · obtain ⟨hi, rfl⟩ := List.getElem?_eq_some_iff.1 h
    simp only [List.length_singleton] at hi
    exact .inr ⟨by omega, by simp⟩

/-- A call that is begun owes nothing. -/
theorem Accounts.begin (h : Accounts runners taskId s owed) {call : TaskCall}
    (hpermitted : s.Permitted (.begin call)) :
    Accounts runners taskId (s.step runners taskId (.begin call)) (owed ++ [false]) := by
  refine ⟨?_, fun i owes begun howes hbegun => ?_, ?_, h.final, fun hall => ?_,
    fun i j begun begun' hi hj hstart hstart' => ?_⟩
  · simp [step, h.length]
  · have hlength := h.length
    rcases getElem?_append_singleton howes with howes | ⟨hi, rfl⟩
    · have hlt := (List.getElem?_eq_some_iff.1 howes).1
      rcases getElem?_append_singleton hbegun with hbegun | ⟨hi, rfl⟩
      · exact h.calls i owes begun howes hbegun
      · omega
    · rcases getElem?_append_singleton hbegun with hbegun | ⟨hi, rfl⟩
      · have hlt := (List.getElem?_eq_some_iff.1 hbegun).1
        omega
      · exact call_obeys fun hstart => h.absent (hpermitted hstart)
  · rw [List.count_append]
    exact h.single
  · exact h.absent fun begun hbegun => hall begun (List.mem_append_left _ hbegun)
  · have hnot : ∀ (k : ℕ) (other : BegunCall), s.calls[k]? = some other → other.call.isStart = true →
        call.isStart = true → False := by
      intro k other hk hother hstart
      simp [hpermitted hstart other (List.mem_of_getElem? hk)] at hother
    rcases getElem?_append_singleton hi with hi | ⟨heq, rfl⟩
    · rcases getElem?_append_singleton hj with hj | ⟨-, rfl⟩
      · exact h.starter i j begun begun' hi hj hstart hstart'
      · exact (hnot i begun hi hstart hstart').elim
    · rcases getElem?_append_singleton hj with hj | ⟨heq', rfl⟩
      · exact (hnot j begun' hj hstart' hstart).elim
      · exact heq.trans heq'.symm

/-- The answer of a call moves what it owes, and the others stay as they may be. -/
theorem Accounts.answer (h : Accounts runners taskId s owed) {i : ℕ} {reply : Reply}
    (hunended : s.Unended taskId (.answer i reply)) {call : TaskCall} {c : TaskCommand}
    {next : c.Answer → Program BackgroundTask} (hbegun : s.calls[i]? = some ⟨call, .ask c next⟩) :
    (∃ owed', Accounts runners taskId (s.step runners taskId (.answer i reply)) owed') ∧
      s.Forward runners taskId (.answer i reply) := by
  obtain ⟨owes, howes⟩ := h.owes hbegun
  obtain ⟨hmay, hnext⟩ := h.calls i owes _ howes hbegun
  obtain ⟨owes', hperforms, hmoves⟩ := answer_performs reply hmay
    fun id patch hc => hunended (by simp [asked, hbegun, Async.asked, hc, TaskCommand.isPatch])
  set r := (s.answer taskId reply c).1 with hr
  set s' := (s.answer taskId reply c).2 with hs'
  have hstep : s.step runners taskId (.answer i reply) =
      { s' with calls := s.calls.set i ⟨call, next r⟩ } := by
    simp only [step, hbegun, hr, hs']
  have hi := (List.getElem?_eq_some_iff.1 hbegun).1
  have hi' : i < owed.length := by rwa [h.length]
  have hcalls : ∀ (j : ℕ) (begun : BegunCall), (s.calls.set i ⟨call, next r⟩)[j]? = some begun →
      ∃ old, s.calls[j]? = some old ∧ old.call = begun.call := by
    intro j begun hj
    rw [List.getElem?_set] at hj
    split_ifs at hj with hij
    · subst hij
      cases hj
      exact ⟨_, hbegun, rfl⟩
    · exact ⟨begun, hj, rfl⟩
  refine ⟨⟨owed.set i owes', ?_⟩, fun task htask => ?_⟩
  · rw [hstep]
    refine ⟨by simp [h.length], fun j o begun ho hj => ?_, ?_, fun event hevent => ?_,
      fun hall => ?_, fun j k begun begun' hj hk hstart hstart' => ?_⟩
    · simp only [List.getElem?_set] at ho hj
      by_cases hij : i = j
      · rw [if_pos hij, if_pos hi'] at ho
        rw [if_pos hij, if_pos hi] at hj
        cases ho
        cases hj
        exact hnext r _ ⟨_, .refl _, hperforms⟩
      · rw [if_neg hij] at ho hj
        refine (h.calls j o begun ho hj).rely (fun _ _ _ => .rely runners) (hmoves.rely o fun hstart => ?_)
        by_contra hother
        exact hij (h.starter i j _ begun hbegun hj (by simpa using hother) hstart)
    · have hbefore := h.single
      have haccount := hmoves.account
      have hcount := count_set_toNat owes' howes
      change (owed.set i owes').count true + (s'.completedEvents taskId).length = s'.ends taskId
      omega
    · rcases hmoves.final event hevent with hold | hfinal
      · exact (h.final event hold).onward hmoves.onward
      · exact hfinal
    · have hold : ∀ begun ∈ s.calls, begun.call.isStart = false := by
        intro begun hmem
        obtain ⟨j, hj⟩ := List.mem_iff_getElem?.1 hmem
        by_cases hij : i = j
        · subst hij
          rw [hbegun] at hj
          cases hj
          exact hall ⟨call, next r⟩ (List.mem_iff_getElem?.2 ⟨i, by simp [hi]⟩)
        · exact hall begun (List.mem_iff_getElem?.2 ⟨j, by simp [hij, hj]⟩)
      exact hmoves.absent (h.absent hold) (hold _ (List.mem_of_getElem? hbegun))
    · obtain ⟨old, hold, heq⟩ := hcalls j begun hj
      obtain ⟨old', hold', heq'⟩ := hcalls k begun' hk
      exact h.starter j k old old' hold hold' (heq ▸ hstart) (heq' ▸ hstart')
  · rw [hstep]
    exact hmoves.onward.later task htask

/-- One step keeps the accounts and moves the task forward. -/
theorem Accounts.step (h : Accounts runners taskId s owed) {event : TaskSystemEvent}
    (hpermitted : s.Permitted event) (hunended : s.Unended taskId event) :
    (∃ owed', Accounts runners taskId (s.step runners taskId event) owed') ∧
      s.Forward runners taskId event := by
  have hrefl : s.step runners taskId event = s →
      (∃ owed', Accounts runners taskId (s.step runners taskId event) owed') ∧
        s.Forward runners taskId event := fun hsame =>
    ⟨⟨owed, by rwa [hsame]⟩, fun task htask => ⟨task, by rwa [hsame], .refl task⟩⟩
  cases event with
  | «begin» call =>
    exact ⟨⟨_, h.begin hpermitted⟩, fun task htask => ⟨task, htask, .refl task⟩⟩
  | answer i reply =>
    rcases hbegun : s.calls[i]? with _ | ⟨call, r | ⟨c, next⟩⟩
    · exact hrefl (by simp [TaskSystem.step, hbegun])
    · exact hrefl (by simp [TaskSystem.step, hbegun])
    · exact h.answer hunended hbegun

end

/-- A command of the shell, whose runner there is. -/
def startCommand : List TaskSystemEvent :=
  .begin (.start { kind := .bash, ownerSessionId := "session" }) ::
    .replicate 10 (.answer 0 { now := 1, eventId := "event", handle := .ok ⟨"task", none⟩ })

/-- Two calls of `complete` that have both found the task running: the second says again that the
task has ended. -/
def completeTwice : List TaskSystemEvent :=
  startCommand ++ [.begin (.complete {}), .begin (.complete {}), .answer 1 {}, .answer 2 {}] ++
    .replicate 4 (.answer 1 { now := 2 }) ++ .replicate 4 (.answer 2 { now := 3 })

end Kinetick.Task
