import Kinetick.Proofs.DispatcherRuns

/-!
# Wakes are kept and Sessions stay drained

A wake that a drain started was followed by a call of the queue. A drain that waits for the queue or a
dispatch is the one that a `quiesceSession` of its Session and the closing of the dispatcher wait for,
and no drain of a stopped Session begins to wait.
-/

namespace Kinetick

variable {ε : Type}

namespace DispatcherState

variable {st st' st'' : DispatcherState ε}

/-- A wake that was started, or resolved its `dispatch`, made the dispatcher ask the queue. -/
def WakeAsked (st : DispatcherState ε) (w : WakeCall) : Prop :=
  w.startedAt ≤ st.calls.length ∧ ∀ o, st.objects[w.state]? = some o →
    w.wake ≤ o.startedWake ∨ w.point = .resolved →
    st.stopped w.sessionId = true ∨ Asks w.sessionId (st.calls.drop w.startedAt)

/-- What awaits the drain, and where its Session finds it. -/
def BusyLinked (st : DispatcherState ε) (n : ℕ) (d : Drain ε) : Prop :=
  st.states d.sessionId = some d.state ∧
    (∀ q ∈ st.quiesces, q.sessionId = d.sessionId → q.point = .waiting ∧ q.running = some n) ∧
    ∀ c, st.closing = some c → c.settled = false ∧ n ∈ c.drains

structure Kept (st : DispatcherState ε) : Prop extends st.Sound where
  asked : ∀ w ∈ st.wakes, st.WakeAsked w
  busy : ∀ (n : ℕ) (d : Drain ε), st.drains[n]? = some d → d.point.Busy → st.BusyLinked n d

/-- States start wakes only as the queue is asked, and no drain of a stopped Session becomes busy. -/
structure Evolves (st st' : DispatcherState ε) : Prop where
  stopped : st'.stopped = st.stopped
  objects : ∃ cs, st'.calls = st.calls ++ cs ∧ ∀ (i : ℕ) (o : SessionDispatchState),
    st.objects[i]? = some o → ∃ o', st'.objects[i]? = some o' ∧ o'.sessionId = o.sessionId ∧
      (o'.startedWake = o.startedWake ∨ st.stopped o.sessionId = true ∨ Asks o.sessionId cs)
  drains : ∀ (n : ℕ) (d' : Drain ε), st'.drains[n]? = some d' → d'.point.Busy →
    st.stopped d'.sessionId = false ∨ ∃ d, st.drains[n]? = some d ∧ d.point.Busy ∧
      d.sessionId = d'.sessionId ∧ d.state = d'.state

theorem Evolves.refl : st.Evolves st :=
  ⟨rfl, ⟨[], (List.append_nil _).symm, fun _ o ho => ⟨o, ho, rfl, .inl rfl⟩⟩,
    fun _ d hd hb => .inr ⟨d, hd, hb, rfl, rfl⟩⟩

theorem asks_append {s : String} {cs cs' : List (String × DispatcherCall)}
    (h : Asks s cs ∨ Asks s cs') : Asks s (cs ++ cs') := by
  rcases h with (⟨items, h⟩ | h) | ⟨items, h⟩ | h
  · exact .inl ⟨items, List.mem_append_left _ h⟩
  · exact .inr (List.mem_append_left _ h)
  · exact .inl ⟨items, List.mem_append_right _ h⟩
  · exact .inr (List.mem_append_right _ h)

theorem Evolves.trans (h : st.Evolves st') (h' : st'.Evolves st'') : st.Evolves st'' := by
  obtain ⟨cs, hcalls, hobj⟩ := h.objects
  obtain ⟨cs', hcalls', hobj'⟩ := h'.objects
  refine ⟨h'.stopped.trans h.stopped, ⟨cs ++ cs', ?_, fun i o ho => ?_⟩, fun n d'' hd hb => ?_⟩
  · rw [hcalls', hcalls, List.append_assoc]
  · obtain ⟨o', ho', hs, hstarted⟩ := hobj i o ho
    obtain ⟨o'', ho'', hs', hstarted'⟩ := hobj' i o' ho'
    refine ⟨o'', ho'', hs'.trans hs, ?_⟩
    rw [hs, h.stopped] at hstarted'
    rcases hstarted with heq | hstopped | hasks
    · rw [heq] at hstarted'
      exact hstarted'.imp_right (Or.imp_right fun hasks => asks_append (.inr hasks))
    · exact .inr (.inl hstopped)
    · exact .inr (.inr (asks_append (.inl hasks)))
  · rcases h'.drains n d'' hd hb with hopen | ⟨d', hd', hb', hs', hstate'⟩
    · exact .inl (h.stopped ▸ hopen)
    · rw [← hs', ← hstate']
      exact h.drains n d' hd' hb'

/-- What a wake made the dispatcher ask stays asked. -/
theorem Evolves.asked (h : st.Evolves st') (hl : st.Linked) {w : WakeCall} (hw : w ∈ st.wakes)
    (hasked : st.WakeAsked w) : st'.WakeAsked w := by
  obtain ⟨cs, hcalls, hobj⟩ := h.objects
  obtain ⟨o, ho, hs, -⟩ := hl.wakes w hw
  obtain ⟨o', ho', -, hstarted⟩ := hobj _ o ho
  unfold WakeAsked
  rw [hcalls, h.stopped, List.length_append, List.drop_append_of_le_length hasked.1]
  refine ⟨Nat.le_add_right_of_le hasked.1, fun o₂ ho₂ hdone => ?_⟩
  obtain rfl := Option.some.inj (ho'.symm.trans ho₂)
  rw [hs] at hstarted
  rcases hstarted with heq | hstopped | hasks
  · rw [heq] at hdone
    exact (hasked.2 o ho hdone).imp_right fun hasks => asks_append (.inl hasks)
  · exact .inl hstopped
  · exact .inr (asks_append (.inr hasks))

/-- A state and a drain are put. -/
theorem evolves_put {i n : ℕ} {o o' : SessionDispatchState} {d' : Drain ε}
    {cs : List (String × DispatcherCall)} (hstopped : st'.stopped = st.stopped)
    (hcalls : st'.calls = st.calls ++ cs)
    (hobj : ∀ j, st'.objects[j]? = if i = j then some o' else st.objects[j]?)
    (hdr : ∀ m, st'.drains[m]? = if n = m then some d' else st.drains[m]?)
    (ho : st.objects[i]? = some o) (hs : o'.sessionId = o.sessionId)
    (hstarted : o'.startedWake = o.startedWake ∨ st.stopped o.sessionId = true ∨ Asks o.sessionId cs)
    (hbusy : d'.point.Busy → st.stopped d'.sessionId = false ∨ ∃ d, st.drains[n]? = some d ∧
      d.point.Busy ∧ d.sessionId = d'.sessionId ∧ d.state = d'.state) : st.Evolves st' := by
  refine ⟨hstopped, ⟨cs, hcalls, fun j o₁ ho₁ => ?_⟩, fun m d₁ hd₁ hb => ?_⟩
  · rw [hobj]
    split_ifs with hj
    · subst hj
      obtain rfl := Option.some.inj (ho.symm.trans ho₁)
      exact ⟨o', rfl, hs, hstarted⟩
    · exact ⟨o₁, ho₁, rfl, .inl rfl⟩
  · rw [hdr] at hd₁
    split_ifs at hd₁ with hm
    · cases hd₁
      exact hm ▸ hbusy hb
    · exact .inr ⟨d₁, hd₁, hb, rfl, rfl⟩

theorem Stepped.evolves (hl : st.Linked) {n : ℕ} (hstep : st.Stepped n st') : st.Evolves st' := by
  obtain ⟨d, o, d', o', cs, hd, ho, -, hstep, rfl⟩ := hstep
  obtain ⟨o₁, ho₁, hs⟩ := hl.drain n d hd
  obtain rfl := Option.some.inj (ho.symm.trans ho₁)
  refine evolves_put rfl rfl (fun j => ?_) (set_get hd d') ho hstep.object.1 ?_ fun hb => ?_
  · unfold moved
    rw [hstep.state]
    exact set_get ho o' j
  · rw [hs]
    exact hstep.started.imp_right And.right
  · rw [hstep.sessionId]
    exact (hstep.busy hb).symm.imp_right fun hb => ⟨d, hd, hb, rfl, hstep.state.symm⟩

theorem startDrain_evolves {i : ℕ} {o : SessionDispatchState} (ho : st.objects[i]? = some o) :
    st.Evolves (st.startDrain i o) := by
  have hstep := @passed_step ε (st.stopped o.sessionId) (firstDrain i o) o
  rw [startDrain_eq]
  refine evolves_put rfl rfl (set_get ho _) (append_get _ _) ho rfl ?_ fun hb => ?_
  · exact hstep.started.imp_right And.right
  · rw [hstep.sessionId]
    exact .inl ((hstep.busy hb).resolve_left id)

/-- A `dispatch` goes on awaiting, or resolves where its wake was asked for. -/
theorem awaitWake_asked {i wake startedAt : ℕ} {o : SessionDispatchState}
    (ho : st.objects[i]? = some o) (hstartedAt : startedAt ≤ st.calls.length)
    (hasked : wake ≤ o.startedWake →
      st.stopped o.sessionId = true ∨ Asks o.sessionId (st.calls.drop startedAt)) :
    st.Evolves (st.awaitWake i wake).2 ∧ (st.awaitWake i wake).2.wakes = st.wakes ∧
    (st.awaitWake i wake).2.WakeAsked
      { sessionId := o.sessionId, state := i, wake, point := (st.awaitWake i wake).1, startedAt } := by
  unfold awaitWake
  simp only [ho]
  split_ifs with hlate
  · rcases o.running with _ | n
    · refine ⟨startDrain_evolves ho, by rw [startDrain_eq], ?_⟩
      have hstep := (@passed_step ε (st.stopped o.sessionId) (firstDrain i o) o).started
      dsimp only
      rw [startDrain_eq]
      refine ⟨by rw [List.length_append]; exact Nat.le_add_right_of_le hstartedAt,
        fun o' ho' hdone => ?_⟩
      obtain rfl := Option.some.inj (((set_get ho _ i).trans (if_pos rfl)).symm.trans ho')
      dsimp only at hstep hdone ⊢
      rw [List.drop_append_of_le_length hstartedAt]
      rcases hstep with heq | ⟨-, hstopped | hasks⟩
      · rcases hdone with hdone | hdone
        · omega
        · cases hdone
      · exact .inl hstopped
      · exact .inr (asks_append (.inr hasks))
    · refine ⟨.refl, rfl, hstartedAt, fun o' ho' hdone => ?_⟩
      obtain rfl := Option.some.inj (ho.symm.trans ho')
      rcases hdone with hdone | hdone
      · exact hasked hdone
      · cases hdone
  · exact ⟨.refl, rfl, hstartedAt, fun _ _ _ => hasked (Nat.le_of_not_lt hlate)⟩

theorem requested_evolves {sessionId : String} {o : SessionDispatchState}
    (ho : (st.stateOf sessionId).2.objects[(st.stateOf sessionId).1]? = some o) :
    st.Evolves ((st.stateOf sessionId).2.setObject (st.stateOf sessionId).1
      { o with requestedWake := o.requestedWake + 1 }) := by
  revert ho
  unfold stateOf
  rcases st.states sessionId with _ | i <;> intro ho
  · refine ⟨rfl, ⟨[], (List.append_nil _).symm, fun j o₁ ho₁ => ⟨o₁, ?_, rfl, .inl rfl⟩⟩,
      fun _ d hd hb => .inr ⟨d, hd, hb, rfl, rfl⟩⟩
    have hj : st.objects.length ≠ j := by
      have := (List.getElem?_eq_some_iff.1 ho₁).1
      omega
    exact (set_get ho _ j).trans ((if_neg hj).trans ((append_get _ _ j).trans ((if_neg hj).trans ho₁)))
  · refine ⟨rfl, ⟨[], (List.append_nil _).symm, fun j o₁ ho₁ => ?_⟩,
      fun _ d hd hb => .inr ⟨d, hd, hb, rfl, rfl⟩⟩
    by_cases hj : i = j
    · subst hj
      obtain rfl := Option.some.inj (ho.symm.trans ho₁)
      exact ⟨_, (set_get ho _ i).trans (if_pos rfl), rfl, .inl rfl⟩
    · exact ⟨o₁, (set_get ho _ j).trans ((if_neg hj).trans ho₁), rfl, .inl rfl⟩

/-- The wakes of a state that evolved, with another. -/
theorem Evolves.setWakes (h : st.Evolves st') (hl : st.Linked)
    (hasked : ∀ w ∈ st.wakes, st.WakeAsked w)
    {w : WakeCall} (hw : st'.WakeAsked w) {wakes : List WakeCall}
    (hwakes : ∀ w' ∈ wakes, w' ∈ st.wakes ∨ w' = w) :
    st.Evolves { st' with wakes } ∧ ∀ w ∈ wakes, WakeAsked { st' with wakes } w := by
  refine ⟨⟨h.stopped, h.objects, h.drains⟩, fun w' hw' => ?_⟩
  rcases hwakes w' hw' with hold | rfl
  · exact h.asked hl hold (hasked w' hold)
  · exact hw

theorem dispatch_asked (hl : st.Linked) (hasked : ∀ w ∈ st.wakes, st.WakeAsked w)
    (sessionId : String) :
    st.Evolves (st.dispatch sessionId) ∧
      ∀ w ∈ (st.dispatch sessionId).wakes, (st.dispatch sessionId).WakeAsked w := by
  unfold dispatch
  split_ifs with hstopped
  · exact ⟨.refl, hasked⟩
  obtain ⟨o, ho, rfl, hle, -⟩ := hl.requested (Bool.eq_false_iff.2 hstopped)
  have hreq := requested_evolves ho
  have hsame : (st.stateOf o.sessionId).2.calls = st.calls ∧
      (st.stateOf o.sessionId).2.wakes = st.wakes := by
    unfold stateOf
    split <;> exact ⟨rfl, rfl⟩
  have hput := (set_get ho { o with requestedWake := o.requestedWake + 1 } _).trans (if_pos rfl)
  dsimp only
  rw [ho]
  obtain ⟨hevolves, hwakes, hnew⟩ := @awaitWake_asked _ ((st.stateOf o.sessionId).2.setObject
    (st.stateOf o.sessionId).1 { o with requestedWake := o.requestedWake + 1 })
    (st.stateOf o.sessionId).1 (o.requestedWake + 1) st.calls.length _ hput
    (Nat.le_of_eq (congrArg List.length hsame.1.symm)) fun hlate =>
      absurd (Nat.le_trans hlate hle) (Nat.not_succ_le_self _)
  refine (hreq.trans hevolves).setWakes hl hasked hnew fun w hw => ?_
  rcases List.mem_append.1 hw with hw | hw
  · exact .inl (hsame.2 ▸ hwakes ▸ hw)
  · exact .inr (List.mem_singleton.1 hw)

theorem wakeResumed_asked (hl : st.Linked) (hasked : ∀ w ∈ st.wakes, st.WakeAsked w) (x : ℕ) :
    st.Evolves (st.wakeResumed x) ∧
      ∀ w ∈ (st.wakeResumed x).wakes, (st.wakeResumed x).WakeAsked w := by
  unfold wakeResumed
  split
  · rename_i s i wake n startedAt hx
    have hmem := List.mem_of_getElem? hx
    obtain ⟨o, ho, rfl, hle, -⟩ := hl.wakes _ hmem
    have hold := hasked _ hmem
    split
    · rename_i result o' hresult ho'
      obtain rfl := Option.some.inj (ho.symm.trans ho')
      split_ifs with hrejected
      · have hnew : st.WakeAsked ⟨o.sessionId, i, wake, .rejected, startedAt⟩ :=
          ⟨hold.1, fun o₁ ho₁ hdone => hold.2 o₁ ho₁ (hdone.imp_right nofun)⟩
        exact Evolves.refl.setWakes hl hasked hnew fun w hw => List.mem_or_eq_of_mem_set hw
      · obtain ⟨hevolves, hwakes, hnew⟩ := @awaitWake_asked _ st i wake startedAt o ho hold.1
          fun hdone => hold.2 o ho (.inl hdone)
        exact hevolves.setWakes hl hasked hnew fun w hw =>
          List.mem_or_eq_of_mem_set (hwakes ▸ hw)
    · exact ⟨.refl, hasked⟩
  · exact ⟨.refl, hasked⟩

/-- Calls are made, and Sessions are stopped. -/
theorem asked_frame (hasked : ∀ w ∈ st.wakes, st.WakeAsked w) (hobjects : st'.objects = st.objects)
    (hwakes : st'.wakes = st.wakes) (hcalls : ∃ cs, st'.calls = st.calls ++ cs)
    (hstopped : ∀ s, st.stopped s = true → st'.stopped s = true) :
    ∀ w ∈ st'.wakes, st'.WakeAsked w := by
  obtain ⟨cs, hcalls⟩ := hcalls
  rw [hwakes]
  intro w hw
  obtain ⟨hle, hdone⟩ := hasked w hw
  unfold WakeAsked
  rw [hobjects, hcalls, List.length_append, List.drop_append_of_le_length hle]
  exact ⟨Nat.le_add_right_of_le hle, fun o ho hd =>
    (hdone o ho hd).imp (hstopped _) fun hasks => asks_append (.inl hasks)⟩

/-! ### Busy drains -/

theorem not_settled_of_busy {p : DrainPoint ε} (h : p.Busy) : ¬ p.Settled := by
  cases p <;> first | exact h.elim | exact id

theorem drainResult_busy {n : ℕ} {d : Drain ε} (hd : st.drains[n]? = some d) (hb : d.point.Busy) :
    ¬ (st.drainResult n).isSome := by
  rcases d with ⟨s, i, yielded, p⟩
  unfold drainResult
  rw [hd]
  cases p <;> first | exact hb.elim | exact nofun

/-- The drain of a Session that is not stopped is where its Session finds it. -/
theorem Sound.busy (h : st.Sound) {n : ℕ} {d : Drain ε} (hd : st.drains[n]? = some d)
    (hb : d.point.Busy) (hopen : st.stopped d.sessionId = false) : st.BusyLinked n d := by
  obtain ⟨o, ho, hs⟩ := h.drain n d hd
  have hrun := h.runs hd ho (not_settled_of_busy hb)
  unfold stopped at hopen
  rw [Bool.or_eq_false_iff] at hopen
  refine ⟨?_, fun q hq hqs => ?_, fun c hc => ?_⟩
  · by_contra hne
    exact not_idle_of_running hrun (h.idle _ o ho (hs ▸ hne) (hs ▸ Bool.or_eq_false_iff.2 hopen))
  · rw [← hqs, h.quiesced q hq] at hopen
    cases hopen.2
  · rw [h.closing (by rw [hc]; rfl)] at hopen
    cases hopen.1

/-- A busy drain stays linked where no Session loses the state of one. -/
theorem Evolves.busy (h : st.Evolves st') (hk : st.Kept) (hsound : st'.Sound)
    (hguards : st'.guards = st.guards) (hstates : ∀ (n : ℕ) (d : Drain ε), st'.drains[n]? = some d →
      d.point.Busy → st.states d.sessionId = some d.state →
        st'.states d.sessionId = some d.state) (n : ℕ) (d : Drain ε)
    (hd : st'.drains[n]? = some d) (hb : d.point.Busy) : st'.BusyLinked n d := by
  rcases h.drains n d hd hb with hopen | ⟨d₀, hd₀, hb₀, hs, hstate⟩
  · exact hsound.busy hd hb (h.stopped ▸ hopen)
  · simp only [guards, Prod.mk.injEq] at hguards
    obtain ⟨hmapped, hrest⟩ := hk.busy n d₀ hd₀ hb₀
    rw [hs] at hrest
    rw [hs, hstate] at hmapped
    refine ⟨hstates n d hd hb hmapped, ?_⟩
    rw [hguards.2.2.1, hguards.2.2.2]
    exact hrest

theorem Kept.stepped (h : st.Kept) (hsound : st'.Sound) (hevolves : st.Evolves st')
    (hasked : ∀ w ∈ st'.wakes, st'.WakeAsked w) (hguards : st'.guards = st.guards)
    (hstates : ∀ s i, st.states s = some i → st'.states s = some i) : st'.Kept :=
  ⟨hsound, hasked, hevolves.busy h hsound hguards fun _ _ _ _ => hstates _ _⟩

theorem Kept.drainSettled (h : st.Kept) (n : ℕ) : (st.drainSettled n).Kept := by
  have hsound := h.toSound.next (.drainSettled n)
  revert hsound
  dsimp only [DispatcherState.next]
  obtain heq | ⟨d₀, o, result, states, hd₀, ho, -, heq, hstates⟩ := st.drainSettled_cases n <;>
    rw [heq]
  · exact fun _ => h
  have hobj := set_get ho { o with running := none }
  have hevolves : st.Evolves { st with
      states, objects := st.objects.set d₀.state { o with running := none }
      drains := st.drains.set n { d₀ with point := .settled result } } :=
    evolves_put rfl (List.append_nil _).symm hobj (set_get hd₀ _) ho rfl (.inl rfl) False.elim
  refine fun hsound => ⟨hsound, fun w hw => hevolves.asked h.toLinked hw (h.asked w hw),
    hevolves.busy h hsound rfl fun m d hd hb hs => ?_⟩
  obtain rfl | ⟨-, hmapped, rfl⟩ := hstates
  · exact hs
  · refine (Function.update_of_ne (fun heq => ?_) _ _).trans hs
    rw [heq, hmapped] at hs
    have ho' := (hobj d.state).trans (if_pos (Option.some.inj hs))
    cases hsound.runs hd ho' (not_settled_of_busy hb)

theorem Kept.quiesceSession (h : st.Kept) (sessionId : String) :
    (st.quiesceSession sessionId).Kept := by
  refine ⟨h.toSound.next (.quiesceSession sessionId), asked_frame h.asked rfl rfl
    ⟨[], (List.append_nil _).symm⟩ fun _ => quiesceSession_stopped sessionId, fun n d hd hb => ?_⟩
  obtain ⟨hmapped, hq, hc⟩ := h.busy n d hd hb
  refine ⟨hmapped, fun q hmem hs => ?_, hc⟩
  rcases List.mem_append.1 hmem with hmem | hmem
  · exact hq q hmem hs
  · obtain rfl := List.mem_singleton.1 hmem
    obtain ⟨o, ho, -⟩ := h.drain n d hd
    obtain rfl : sessionId = d.sessionId := hs
    simp [hmapped, ho, h.runs hd ho (not_settled_of_busy hb)]

theorem Kept.quiesceResumed (h : st.Kept) (n : ℕ) : (st.quiesceResumed n).Kept := by
  have hsound := h.toSound.next (.quiesceResumed n)
  revert hsound
  dsimp only [DispatcherState.next]
  unfold DispatcherState.quiesceResumed
  split
  · rename_i q hq
    have hset : ∀ point, (∀ r ∈ (q.running.map st.drainResult).toList, r.isSome) →
        Sound { st.setState q.sessionId none with quiesces := st.quiesces.set n { q with point } } →
        Kept { st.setState q.sessionId none with quiesces := st.quiesces.set n { q with point } } := by
      refine fun point hdone hsound => ⟨hsound, asked_frame h.asked rfl rfl
        ⟨[], (List.append_nil _).symm⟩ fun _ => id, fun m d hd hb => ?_⟩
      obtain ⟨hmapped, hqs, hc⟩ := h.busy m d hd hb
      have hne : d.sessionId ≠ q.sessionId := by
        intro heq
        obtain ⟨-, hrun⟩ := hqs q (List.mem_of_getElem? hq) heq.symm
        rw [hrun] at hdone
        exact drainResult_busy hd hb (hdone _ (List.mem_singleton_self _))
      refine ⟨(Function.update_of_ne hne _ _).trans hmapped, fun q' hq' hs => ?_, hc⟩
      rcases List.mem_or_eq_of_mem_set hq' with hq' | rfl
      · exact hqs q' hq' hs
      · exact absurd hs.symm hne
    dsimp only
    split_ifs with hdone
    · exact hset _ fun r hr => hdone.2 r (List.mem_append_left _ hr)
    · exact hset _ fun r hr => hdone.2 r (List.mem_append_left _ hr)
    · exact fun _ => h
  · exact fun _ => h

theorem Kept.close (h : st.Kept) : st.close.Kept := by
  have hsound := h.toSound.next .close
  revert hsound
  dsimp only [DispatcherState.next]
  unfold DispatcherState.close
  split
  · exact fun _ => h
  · refine fun hsound => ⟨hsound, asked_frame h.asked rfl rfl ⟨[], (List.append_nil _).symm⟩
      fun _ _ => rfl, fun n d hd hb => ?_⟩
    obtain ⟨hmapped, hq, -⟩ := h.busy n d hd hb
    refine ⟨hmapped, hq, fun c hc => ?_⟩
    cases hc
    obtain ⟨o, ho, hs⟩ := h.drain n d hd
    refine ⟨rfl, List.mem_filterMap.2 ⟨d.state, ?_, ?_⟩⟩
    · exact List.mem_range.2 (List.getElem?_eq_some_iff.1 ho).1
    · rw [ho]
      simp [hs, hmapped, h.runs hd ho (not_settled_of_busy hb)]

theorem Kept.closeResumed (h : st.Kept) : st.closeResumed.Kept := by
  have hsound := h.toSound.next .closeResumed
  revert hsound
  dsimp only [DispatcherState.next]
  unfold DispatcherState.closeResumed
  split
  · rename_i c hc
    split_ifs with hdone
    · refine fun hsound => ⟨hsound, asked_frame h.asked rfl rfl ⟨[], (List.append_nil _).symm⟩
        fun _ => id, fun n d hd hb => ?_⟩
      exact absurd (hdone.2.1 n ((h.busy n d hd hb).2.2 c hc).2) (drainResult_busy hd hb)
    · exact fun _ => h
  · exact fun _ => h

theorem Kept.next (h : st.Kept) (e : DispatcherEvent ε) : (st.next e).Kept := by
  refine next_induction (fun st' hst => ?_) (fun n st' hstep => ?_) (fun s => ?_) (fun x => ?_)
    h.drainSettled h.quiesceSession h.quiesceResumed h.close h.closeResumed e
  · have hsound := h.toSound.aside hst
    obtain ⟨_, _, _, cs, rfl⟩ := hst
    exact ⟨hsound, asked_frame h.asked rfl rfl ⟨cs, rfl⟩ fun _ => id, h.busy⟩
  · have hevolves := hstep.evolves h.toLinked
    obtain ⟨d, o, d', o', cs, -, -, -, -, rfl⟩ := id hstep
    exact h.stepped ((h.toLinked.stepped hstep).sound h.toSound (stepped_guards hstep)) hevolves
      (fun w hw => hevolves.asked h.toLinked hw (h.asked w hw)) rfl fun _ _ => id
  · obtain ⟨hevolves, hasked⟩ := dispatch_asked h.toLinked h.asked s
    exact h.stepped (h.toSound.next (.dispatch s)) hevolves hasked (dispatch_frame s).1
      (dispatch_frame s).2
  · obtain ⟨hevolves, hasked⟩ := wakeResumed_asked h.toLinked h.asked x
    exact h.stepped (h.toSound.next (.wakeResumed x)) hevolves hasked (wakeResumed_frame x).1
      fun s i h => (congrFun (wakeResumed_frame x).2 s).trans h

theorem kept_after (es : List (DispatcherEvent ε)) :
    ((dispatcherSystem ε).after (dispatcherSystem ε).initial es).Kept :=
  (dispatcherSystem ε).after_invariant (fun _ e h _ => h.next e)
    ⟨initial_sound, nofun, nofun⟩ ((dispatcherSystem ε).along_true _ es)

theorem oneDrain_after (sessionId : String) (es : List (DispatcherEvent ε)) :
    ((dispatcherSystem ε).after (dispatcherSystem ε).initial es).OneDrain sessionId :=
  (kept_after es).toLinked.oneDrain sessionId

theorem wakesKept_after (sessionId : String) (es : List (DispatcherEvent ε)) :
    ((dispatcherSystem ε).after (dispatcherSystem ε).initial es).WakesKept sessionId := by
  rintro w hw rfl hresolved
  have hkept := kept_after es
  obtain ⟨o, ho, -⟩ := hkept.wakes w hw
  exact (hkept.asked w hw).2 o ho (.inr hresolved)

theorem staysDrained_after (es : List (DispatcherEvent ε)) :
    ((dispatcherSystem ε).after (dispatcherSystem ε).initial es).StaysDrained := by
  have hkept := kept_after es
  refine ⟨fun q hq hover d hd hs hb => ?_, fun c hc hsettled s d hd hs hb => ?_⟩
  all_goals
    obtain ⟨n, hn⟩ := List.mem_iff_getElem?.1 hd
    obtain ⟨-, hquiesces, hclosing⟩ := hkept.busy n d hn hb
  · exact hover (hquiesces q hq hs.symm).1
  · rw [(hclosing c hc).1] at hsettled
    cases hsettled

end DispatcherState

end Kinetick
