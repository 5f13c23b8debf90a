import Kinetick.Proofs.DispatcherSteps

/-!
# Wakes over the runs of the dispatcher

Every event keeps drains, states and wakes linked, so one drain of a Session runs at most. A wake that
a drain started was followed by a claim, or the drain still recovers or failed: a `dispatch` that
resolves awaited none of those.
-/

namespace Kinetick

variable {ε : Type}

namespace DispatcherState

variable {st : DispatcherState ε}

/-! ## One drain at a time -/

/-- How the tasks hang together, and who is stopped. -/
structure Sound (st : DispatcherState ε) : Prop extends st.Linked where
  quiesced : ∀ q ∈ st.quiesces, st.blockedSessions.contains q.sessionId = true
  closing : st.closing.isSome = true → st.closed = true

/-- States are taken from stopped Sessions only. -/
theorem Linked.frame (h : st.Linked) {st' : DispatcherState ε} (hobjects : st'.objects = st.objects)
    (hdrains : st'.drains = st.drains) (hwakes : st'.wakes = st.wakes)
    (hstopped : ∀ s, st'.stopped s = false → st.stopped s = false)
    (hstates : ∀ s, st'.states s = st.states s ∨ st'.states s = none ∧ st'.stopped s = true) :
    st'.Linked := by
  obtain ⟨hdrain, hrunning, hstarted, hmapped, hidle, halone, hwake⟩ := h
  unfold WakeLinked at hwake
  rw [← hobjects, ← hdrains] at *
  rw [← hwakes] at hwake
  refine ⟨hdrain, hrunning, hstarted, ?_, ?_, halone, hwake⟩
  · intro s i hs
    rcases hstates s with heq | ⟨hnone, -⟩
    · exact hmapped s i (heq ▸ hs)
    · rw [hnone] at hs
      cases hs
  · intro i o ho hne hs
    rcases hstates o.sessionId with heq | ⟨-, hstopped'⟩
    · exact hidle i o ho (heq ▸ hne) (hstopped _ hs)
    · rw [hstopped'] at hs
      cases hs

theorem Linked.setWakes (h : st.Linked) {wakes : List WakeCall}
    (hwakes : ∀ w ∈ wakes, st.WakeLinked w) :
    Linked { st with wakes } :=
  ⟨h.drain, h.running, h.started, h.mapped, h.idle, h.alone, hwakes⟩

/-- A drain before its first pass. -/
def firstDrain (i : ℕ) (o : SessionDispatchState) : Drain ε where
  sessionId := o.sessionId
  state := i
  yielded := []
  point := .attempted true

theorem startDrain_eq (i : ℕ) (o : SessionDispatchState) :
    st.startDrain i o = { st with
      drains := st.drains ++ [(passed (st.stopped o.sessionId) (firstDrain i o) o).1]
      objects := st.objects.set i
        { o with running := some st.drains.length, startedWake := o.requestedWake }
      calls := st.calls ++ (passed (st.stopped o.sessionId) (@firstDrain ε i o) o).2 } := by
  have hset : ∀ d d' : Drain ε, (st.drains ++ [d]).set st.drains.length d' = st.drains ++ [d'] := by
    intro d d'
    rw [List.set_append_right _ _ (Nat.le_refl _), Nat.sub_self]
    rfl
  unfold startDrain
  rw [drainPass_eq, moved]
  simp only [hset, passed_state]
  rfl

theorem Linked.startDrain (h : st.Linked) {i : ℕ} {o : SessionDispatchState}
    (ho : st.objects[i]? = some o) (hrunning : o.running = none)
    (hlate : o.startedWake < o.requestedWake) : (st.startDrain i o).Linked := by
  have hpassed := @passed_step ε (st.stopped o.sessionId) (firstDrain i o) o
  have hunsettled := hpassed.unsettled
  rw [startDrain_eq]
  refine h.put rfl rfl rfl (set_get ho _) (append_get _ _) ho (fun hidle => ?_) rfl rfl (Nat.le_refl _)
    ⟨hpassed.state, hpassed.sessionId⟩ (fun d hd => ?_) (.inl hrunning) fun m => ?_
  · have := hidle.2
    omega
  · have := (List.getElem?_eq_some_iff.1 hd).1
    omega
  · simp [hunsettled]

/-- What a `dispatch` awaits keeps the links, its own among them. -/
theorem Linked.awaitWake (h : st.Linked) {i wake : ℕ} {o : SessionDispatchState}
    (ho : st.objects[i]? = some o) (hwake : wake ≤ o.requestedWake) (startedAt : ℕ) :
    (st.awaitWake i wake).2.Linked ∧ (st.awaitWake i wake).2.WakeLinked
      { sessionId := o.sessionId, state := i, wake, point := (st.awaitWake i wake).1, startedAt } := by
  unfold DispatcherState.awaitWake
  simp only [ho]
  split_ifs with hlate
  · rcases hrunning : o.running with _ | n <;> dsimp only
    · refine ⟨h.startDrain ho hrunning (by omega),
        { o with running := some st.drains.length, startedWake := o.requestedWake }, ?_, rfl, hwake, ?_⟩
      · rw [startDrain_eq]
        exact (set_get ho _ i).trans (if_pos rfl)
      · rintro n hn
        cases hn
        rw [startDrain_eq]
        refine ⟨_, (append_get _ _ _).trans (if_pos rfl), ?_⟩
        rw [passed_state]
        rfl
    · refine ⟨h, o, ho, rfl, hwake, ?_⟩
      rintro m hm
      cases hm
      obtain ⟨d, hd, hstate, -⟩ := (h.running i n o ho).1 hrunning
      exact ⟨d, hd, hstate⟩
  · exact ⟨h, o, ho, rfl, hwake, nofun⟩

/-- A state of a Session that is not stopped is put where it was, or is new. -/
theorem Linked.putObject (h : st.Linked) {st' : DispatcherState ε} {i : ℕ} {o : SessionDispatchState}
    (hdrains : st'.drains = st.drains) (hwakes : st'.wakes = st.wakes)
    (hstopped : st'.stopped = st.stopped) (hopen : st.stopped o.sessionId = false)
    (hobj : ∀ j, st'.objects[j]? = if i = j then some o else st.objects[j]?)
    (hstates : ∀ s, st'.states s = if s = o.sessionId then some i else st.states s)
    (hstarted : o.startedWake ≤ o.requestedWake)
    (hold : (∀ o', st.objects[i]? ≠ some o') ∧ o.running = none ∧ st.states o.sessionId = none ∨
      ∃ o', st.objects[i]? = some o' ∧ o'.sessionId = o.sessionId ∧ o'.running = o.running ∧
        o'.requestedWake ≤ o.requestedWake ∧ st.states o.sessionId = some i) : st'.Linked := by
  constructor
  · intro n d hd
    have := h.drain n d (hdrains ▸ hd)
    simp only [hobj]
    grind
  · intro j n o' ho'
    have := h.running
    have := h.drain
    simp only [hobj, hdrains] at ho' ⊢
    grind
  · intro j o' ho'
    have := h.started
    simp only [hobj] at ho'
    grind
  · intro s j hs
    have := h.mapped
    simp only [hobj, hstates] at hs ⊢
    grind
  · intro j o' ho' hne hs
    have := h.idle
    rw [hstopped] at hs
    simp only [hobj, hstates] at ho' hne
    grind
  · intro j k o₁ o₂ h₁ h₂
    have := h.alone
    have := h.idle
    simp only [hobj] at h₁ h₂
    grind
  · intro w hw
    have := h.wakes w (hwakes ▸ hw)
    unfold WakeLinked at this ⊢
    simp only [hobj, hdrains]
    grind

/-- A further wake is requested of the Session's state. -/
theorem Linked.requested (h : st.Linked) {sessionId : String} (hopen : st.stopped sessionId = false) :
    ∃ o, (st.stateOf sessionId).2.objects[(st.stateOf sessionId).1]? = some o ∧
      o.sessionId = sessionId ∧ o.startedWake ≤ o.requestedWake ∧
      ((st.stateOf sessionId).2.setObject (st.stateOf sessionId).1
        { o with requestedWake := o.requestedWake + 1 }).Linked := by
  unfold DispatcherState.stateOf
  rcases hi : st.states sessionId with _ | i <;> dsimp only
  · have hnew := (append_get st.objects { sessionId } st.objects.length).trans (if_pos rfl)
    refine ⟨_, hnew, rfl, Nat.le_refl _, @Linked.putObject _ _ h _ _
      { sessionId, requestedWake := 1 } rfl rfl rfl hopen (fun j => ?_) (fun s => Function.update_apply _ _ _ _) (Nat.zero_le _)
      (.inl ⟨fun o ho => ?_, rfl, hi⟩)⟩
    · refine (set_get hnew _ j).trans ?_
      split_ifs with hj
      · rfl
      · exact (append_get _ _ _).trans (if_neg hj)
    · have := (List.getElem?_eq_some_iff.1 ho).1
      omega
  · obtain ⟨o, ho, rfl⟩ := h.mapped _ _ hi
    refine ⟨o, ho, rfl, h.started i o ho, @Linked.putObject _ _ h _ _
      { o with requestedWake := o.requestedWake + 1 } rfl rfl rfl hopen (set_get ho _)
      (fun s => ?_) (Nat.le_succ_of_le (h.started i o ho))
      (.inr ⟨o, ho, rfl, rfl, Nat.le_succ _, hi⟩)⟩
    split_ifs with hs
    · rw [hs]
      exact hi
    · rfl

theorem Linked.dispatch (h : st.Linked) (sessionId : String) : (st.dispatch sessionId).Linked := by
  unfold DispatcherState.dispatch
  split_ifs with hstopped
  · exact h
  obtain ⟨o, ho, rfl, -, hrequested⟩ := h.requested (Bool.eq_false_iff.2 hstopped)
  dsimp only
  rw [ho]
  dsimp only
  obtain ⟨hlinked, hwake⟩ := hrequested.awaitWake ((set_get ho _ _).trans (if_pos rfl))
    (Nat.le_refl (o.requestedWake + 1)) st.calls.length
  refine hlinked.setWakes fun w hw => ?_
  rcases List.mem_append.1 hw with hw | hw
  · exact hlinked.wakes w hw
  · rw [List.mem_singleton.1 hw]
    exact hwake

theorem Linked.setWake (h : st.Linked) {x : ℕ} {w : WakeCall} (hw : st.WakeLinked w) :
    Linked { st with wakes := st.wakes.set x w } := by
  refine h.setWakes fun w' hw' => ?_
  rcases List.mem_or_eq_of_mem_set hw' with hw' | rfl
  · exact h.wakes w' hw'
  · exact hw

theorem Linked.wakeResumed (h : st.Linked) (x : ℕ) : (st.wakeResumed x).Linked := by
  unfold DispatcherState.wakeResumed
  split
  · rename_i s i wake n startedAt hx
    obtain ⟨o, ho, rfl, hle, hwait⟩ := h.wakes _ (List.mem_of_getElem? hx)
    dsimp only at ho hle
    split
    · rename_i result o' hresult ho'
      obtain rfl := Option.some.inj (ho.symm.trans ho')
      split_ifs with hrejected
      · exact h.setWake ⟨o, ho, rfl, hle, nofun⟩
      · obtain ⟨hlinked, hwake⟩ := h.awaitWake ho hle startedAt
        exact hlinked.setWake hwake
    · exact h
  · exact h

/-- A Session may lose a state that is done. -/
theorem Linked.forget (h : st.Linked) {s : String} {i : ℕ} {o : SessionDispatchState}
    (hmapped : st.states s = some i) (ho : st.objects[i]? = some o) (hidle : o.Idle) :
    (st.setState s none).Linked := by
  refine ⟨h.drain, h.running, h.started, ?_, ?_, h.alone, h.wakes⟩
  · intro s' j hs
    simp only [setState, Function.update_apply] at hs
    split_ifs at hs
    exact h.mapped s' j hs
  · intro j o' ho' hne hstopped
    simp only [setState, Function.update_apply] at hne
    by_cases hj : st.states o'.sessionId = some j
    · split_ifs at hne with hs
      · rw [hs, hmapped] at hj
        cases hj
        rwa [← Option.some.inj (ho.symm.trans ho')]
      · exact absurd hj hne
    · exact h.idle j o' ho' hj hstopped

/-- A drain that is over gives its state back, which its Session may lose where it is done. -/
theorem drainSettled_cases (n : ℕ) : st.drainSettled n = st ∨ ∃ d o result states,
    st.drains[n]? = some d ∧ st.objects[d.state]? = some o ∧ d.point = .ended result ∧
    st.drainSettled n = { st with
      states, objects := st.objects.set d.state { o with running := none }
      drains := st.drains.set n { d with point := .settled result } } ∧
    (states = st.states ∨ o.startedWake = o.requestedWake ∧
      st.states d.sessionId = some d.state ∧ states = Function.update st.states d.sessionId none) := by
  unfold drainSettled
  split
  · rename_i d hd
    split
    · rename_i result o hpoint ho
      refine .inr ⟨d, o, result, ?_⟩
      dsimp only
      split_ifs with hdone
      · exact ⟨_, hd, ho, hpoint, rfl, .inr ⟨hdone.1, hdone.2.2, rfl⟩⟩
      · exact ⟨_, hd, ho, hpoint, rfl, .inl rfl⟩
    · exact .inl rfl
  · exact .inl rfl

theorem Linked.drainSettled (h : st.Linked) (n : ℕ) : (st.drainSettled n).Linked := by
  obtain heq | ⟨d, o, result, states, hd, ho, hpoint, heq, hstates⟩ := st.drainSettled_cases n
  · rwa [heq]
  have hrun := h.runs hd ho (by
    rw [hpoint]
    exact id)
  obtain ⟨o', ho', hsession⟩ := h.drain n d hd
  obtain rfl := Option.some.inj (ho.symm.trans ho')
  have hobj := set_get ho { o with running := none }
  have hlinked : ((st.setDrain n { d with point := .settled result }).setObject d.state
      { o with running := none }).Linked := by
    have hle := h.started _ _ ho
    refine h.put rfl rfl rfl hobj (set_get hd _) ho (not_idle_of_running hrun) rfl rfl hle
      ⟨rfl, hsession.symm⟩ (fun d₁ h₁ => ?_) (.inr hrun) fun m => ?_
    · rw [hd] at h₁
      cases h₁
      rfl
    · simp [DrainPoint.Settled]
  rw [heq]
  obtain rfl | ⟨hdone, hmapped, rfl⟩ := hstates
  · exact hlinked
  · exact hlinked.forget hmapped ((hobj _).trans (if_pos rfl)) ⟨rfl, hdone⟩

theorem Linked.stepped (h : st.Linked) {st' : DispatcherState ε} {n : ℕ} (hstep : st.Stepped n st') :
    st'.Linked := by
  obtain ⟨d, o, d', o', cs, hd, ho, hover, hstep, rfl⟩ := hstep
  exact h.moved hd ho hover hstep

/-! ### Who is stopped -/

/-- What the events other than `quiesceSession` and `close` leave. -/
def guards (st : DispatcherState ε) : List String × Bool × List QuiesceCall × Option Closing :=
  (st.blockedSessions, st.closed, st.quiesces, st.closing)

theorem Linked.sound {st' : DispatcherState ε} (h : st'.Linked) (hsound : st.Sound)
    (hguards : st'.guards = st.guards) : st'.Sound := by
  simp only [guards, Prod.mk.injEq] at hguards
  obtain ⟨hblocked, hclosed, hquiesces, hclosing⟩ := hguards
  refine ⟨h, ?_, ?_⟩
  · rw [hquiesces, hblocked]
    exact hsound.quiesced
  · rw [hclosing, hclosed]
    exact hsound.closing

theorem awaitWake_frame (i wake : ℕ) :
    (st.awaitWake i wake).2.guards = st.guards ∧ (st.awaitWake i wake).2.states = st.states := by
  unfold awaitWake
  split
  · exact ⟨rfl, rfl⟩
  · split_ifs
    · split
      · exact ⟨rfl, rfl⟩
      · rw [startDrain_eq]
        exact ⟨rfl, rfl⟩
    · exact ⟨rfl, rfl⟩

theorem dispatch_frame (sessionId : String) : (st.dispatch sessionId).guards = st.guards ∧
    ∀ s i, st.states s = some i → (st.dispatch sessionId).states s = some i := by
  unfold dispatch
  split_ifs
  · exact ⟨rfl, fun _ _ => id⟩
  have hstate : (st.stateOf sessionId).2.guards = st.guards ∧
      ∀ s i, st.states s = some i → (st.stateOf sessionId).2.states s = some i := by
    unfold stateOf
    split
    · exact ⟨rfl, fun _ _ => id⟩
    · rename_i hnone
      refine ⟨rfl, fun s i h => (Function.update_of_ne (fun heq => ?_) _ _).trans h⟩
      rw [heq, hnone] at h
      cases h
  dsimp only
  split
  · exact hstate
  · obtain ⟨hguards, hstates⟩ := @awaitWake_frame _ (setObject _ _ _) _ _
    exact ⟨hguards.trans hstate.1, fun s i h => (congrFun hstates s).trans (hstate.2 s i h)⟩

theorem wakeResumed_frame (x : ℕ) :
    (st.wakeResumed x).guards = st.guards ∧ (st.wakeResumed x).states = st.states := by
  unfold wakeResumed
  split
  · split
    · split_ifs
      · exact ⟨rfl, rfl⟩
      · exact awaitWake_frame _ _
    · exact ⟨rfl, rfl⟩
  · exact ⟨rfl, rfl⟩

theorem stepped_guards {st' : DispatcherState ε} {n : ℕ} (hstep : st.Stepped n st') :
    st'.guards = st.guards := by
  obtain ⟨d, o, d', o', cs, -, -, -, -, rfl⟩ := hstep
  rfl

theorem drainSettled_guards (n : ℕ) : (st.drainSettled n).guards = st.guards := by
  obtain heq | ⟨_, _, _, _, -, -, -, heq, -⟩ := st.drainSettled_cases n <;> rw [heq]
  rfl

/-- Continued heads and recoveries changed, and calls were made. -/
def Aside (st st' : DispatcherState ε) : Prop :=
  ∃ continued continuedDispatches recoveries cs,
    st' = { st with continued, continuedDispatches, recoveries, calls := st.calls ++ cs }

theorem Aside.refl : st.Aside st := ⟨_, _, _, [], by rw [List.append_nil]⟩

theorem continuePaused_aside (sessionId : String) : st.Aside (st.continuePaused sessionId) := by
  unfold continuePaused
  split_ifs
  · exact .refl
  split
  · exact .refl
  · dsimp only
    split_ifs
    · exact ⟨_, _, _, [], by rw [List.append_nil]⟩
    · exact ⟨_, _, _, _, rfl⟩

theorem continuedAnswered_aside (n : ℕ) (answer : ClaimAnswer ε) :
    st.Aside (st.continuedAnswered n answer) := by
  unfold continuedAnswered
  split
  · split
    · dsimp only
      split
      · exact .refl
      · rw [callOf_eq]
        exact ⟨_, _, _, _, rfl⟩
    · exact .refl
  · exact .refl

theorem continuedSettled_aside (n : ℕ) : st.Aside (st.continuedSettled n) := by
  unfold continuedSettled
  split
  · split
    · exact ⟨_, _, _, [], by rw [List.append_nil]⟩
    · exact .refl
  · exact .refl

theorem setRecovery_aside (n : ℕ) (point : RecoveryPoint ε) : st.Aside (st.setRecovery n point) :=
  ⟨_, _, _, [], by rw [List.append_nil]; rfl⟩

theorem recoverNext_aside (n : ℕ) (sessionIds : List String) :
    st.Aside (st.recoverNext n sessionIds) := by
  rcases sessionIds with _ | ⟨sessionId, rest⟩
  · exact setRecovery_aside n _
  · unfold recoverNext
    split_ifs
    · exact setRecovery_aside n _
    · exact ⟨_, _, _, _, rfl⟩

/-- What a recovery goes on to. -/
theorem recovery_aside (n : ℕ) (stateAnswer claimsAnswer : Except ε Unit)
    (listed : Except ε (List String)) : st.Aside (st.recoveredState n stateAnswer) ∧
      st.Aside (st.pendingListed n listed) ∧ st.Aside (st.recoveredClaims n claimsAnswer) ∧
      st.Aside (st.recoveryForgotten n) := by
  refine ⟨?_, ?_, ?_, ?_⟩
  · unfold recoveredState
    split <;> first | exact setRecovery_aside n _ | exact .refl
  · unfold pendingListed
    split <;> first | exact setRecovery_aside n _ | exact recoverNext_aside n _ | exact .refl
  · unfold recoveredClaims
    split <;> first | exact setRecovery_aside n _ | exact recoverNext_aside n _ | exact .refl
  · unfold recoveryForgotten
    split
    · exact ⟨_, _, _, [], by rw [List.append_nil]⟩
    · exact .refl

theorem recoverPending_aside : st.Aside st.recoverPending := by
  unfold recoverPending
  split_ifs
  · exact .refl
  · exact ⟨_, _, _, [], by rw [List.append_nil]⟩

theorem Sound.aside (h : st.Sound) {st' : DispatcherState ε} (haside : st.Aside st') : st'.Sound := by
  obtain ⟨_, _, _, _, rfl⟩ := haside
  refine Linked.sound ?_ h rfl
  exact h.toLinked.frame rfl rfl rfl (fun _ => id) fun _ => .inl rfl

theorem quiesceSession_blocked (sessionId s : String) :
    (st.quiesceSession sessionId).blockedSessions.contains s =
      (st.blockedSessions.contains s || s == sessionId) := by
  unfold quiesceSession
  dsimp only
  split_ifs with hs
  · by_cases h : s = sessionId
    · rw [h, hs, Bool.true_or]
    · rw [beq_false_of_ne h, Bool.or_false]
  · rw [List.contains_append, List.contains_cons, List.contains_nil, Bool.or_false]

theorem quiesceSession_stopped (sessionId : String) {s : String} (h : st.stopped s = true) :
    (st.quiesceSession sessionId).stopped s = true := by
  unfold stopped at h ⊢
  rw [quiesceSession_blocked, ← Bool.or_assoc]
  exact Bool.or_eq_true_iff.2 (.inl h)

theorem Sound.quiesceSession (h : st.Sound) (sessionId : String) :
    (st.quiesceSession sessionId).Sound := by
  refine ⟨h.toLinked.frame rfl rfl rfl (fun s hs => ?_) fun _ => .inl rfl, fun q hq => ?_, h.closing⟩
  · rw [Bool.eq_false_iff] at hs ⊢
    exact fun hstopped => hs (quiesceSession_stopped sessionId hstopped)
  · rw [quiesceSession_blocked, Bool.or_eq_true_iff]
    rcases List.mem_append.1 hq with hq | hq
    · exact .inl (h.quiesced q hq)
    · rw [List.mem_singleton.1 hq]
      exact .inr (beq_self_eq_true _)

theorem Sound.quiesceResumed (h : st.Sound) (n : ℕ) : (st.quiesceResumed n).Sound := by
  unfold DispatcherState.quiesceResumed
  split
  · rename_i q hq
    have hblocked := h.quiesced q (List.mem_of_getElem? hq)
    have hset : ∀ point, Sound { st.setState q.sessionId none with
        quiesces := st.quiesces.set n { q with point } } := by
      intro point
      refine ⟨h.toLinked.frame rfl rfl rfl (fun _ => id) fun s => ?_, fun q' hq' => ?_, h.closing⟩
      · by_cases hs : s = q.sessionId
        · subst hs
          refine .inr ⟨Function.update_self _ _ _, ?_⟩
          rw [stopped]
          exact Bool.or_eq_true_iff.2 (.inr hblocked)
        · exact .inl (Function.update_of_ne hs _ _)
      · rcases List.mem_or_eq_of_mem_set hq' with hq' | rfl
        · exact h.quiesced q' hq'
        · exact hblocked
    dsimp only
    split_ifs
    · exact hset _
    · exact hset _
    · exact h
  · exact h

theorem Sound.close (h : st.Sound) : st.close.Sound := by
  unfold DispatcherState.close
  split
  · exact h
  · exact ⟨h.toLinked.frame rfl rfl rfl (fun s hs => by cases hs) fun _ => .inl rfl, h.quiesced,
      fun _ => rfl⟩

theorem Sound.closeResumed (h : st.Sound) : st.closeResumed.Sound := by
  unfold DispatcherState.closeResumed
  split
  · rename_i c hc
    have hclosed : st.closed = true := h.closing (by rw [hc]; rfl)
    split_ifs
    · refine ⟨h.toLinked.frame rfl rfl rfl (fun _ => id) fun s => .inr ⟨rfl, ?_⟩, h.quiesced,
        fun _ => hclosed⟩
      rw [stopped]
      exact Bool.or_eq_true_iff.2 (.inl hclosed)
    · exact h
  · exact h

/-- An event is a step of a drain, goes on aside, or is one of seven. -/
theorem next_induction {P : DispatcherState ε → Prop} (aside : ∀ st', st.Aside st' → P st')
    (stepped : ∀ n st', st.Stepped n st' → P st') (dispatch : ∀ s, P (st.dispatch s))
    (wakeResumed : ∀ x, P (st.wakeResumed x)) (drainSettled : ∀ n, P (st.drainSettled n))
    (quiesceSession : ∀ s, P (st.quiesceSession s)) (quiesceResumed : ∀ n, P (st.quiesceResumed n))
    (close : P st.close) (closeResumed : P st.closeResumed) (e : DispatcherEvent ε) :
    P (st.next e) := by
  have hdrain : ∀ {n : ℕ} {st' : DispatcherState ε}, st' = st ∨ st.Stepped n st' → P st' := by
    rintro n st' (rfl | hstep)
    · exact aside _ .refl
    · exact stepped n st' hstep
  cases e with
  | dispatch sessionId => exact dispatch sessionId
  | wakeResumed x => exact wakeResumed x
  | drainSettled n => exact drainSettled n
  | drainRecovered n answer => exact hdrain (st.drainRecovered_step n answer)
  | drainAnswered n answer => exact hdrain (st.drainAnswered_step n answer)
  | drainResumed n => exact hdrain (st.drainResumed_step n)
  | continuePaused sessionId => exact aside _ (continuePaused_aside sessionId)
  | continuedAnswered n answer => exact aside _ (continuedAnswered_aside n answer)
  | continuedSettled n => exact aside _ (continuedSettled_aside n)
  | recoverPending => exact aside _ recoverPending_aside
  | recoveredState n answer => exact aside _ (recovery_aside n answer answer (.ok [])).1
  | pendingListed n answer => exact aside _ (recovery_aside n (.ok ()) (.ok ()) answer).2.1
  | recoveredClaims n answer => exact aside _ (recovery_aside n answer answer (.ok [])).2.2.1
  | recoveryForgotten n => exact aside _ (recovery_aside n (.ok ()) (.ok ()) (.ok [])).2.2.2
  | quiesceSession sessionId => exact quiesceSession sessionId
  | quiesceResumed n => exact quiesceResumed n
  | close => exact close
  | closeResumed => exact closeResumed

theorem Sound.next (h : st.Sound) (e : DispatcherEvent ε) : (st.next e).Sound :=
  next_induction (fun _ => h.aside)
    (fun _ _ hstep => (h.toLinked.stepped hstep).sound h (stepped_guards hstep))
    (fun s => (h.toLinked.dispatch s).sound h (dispatch_frame s).1)
    (fun x => (h.toLinked.wakeResumed x).sound h (wakeResumed_frame x).1)
    (fun n => (h.toLinked.drainSettled n).sound h (drainSettled_guards n))
    h.quiesceSession h.quiesceResumed h.close h.closeResumed e

theorem initial_sound : (initial : DispatcherState ε).Sound := by
  refine ⟨⟨?_, ?_, ?_, ?_, ?_, ?_, ?_⟩, ?_, ?_⟩ <;> intros <;> simp_all [initial]

end DispatcherState

end Kinetick
