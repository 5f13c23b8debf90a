import Kinetick.Turn.DispatcherSystem

/-!
# The steps of a drain

The steps of a drain change one drain, the state of its Session and the log of calls (`moved`), and
`DrainStep` says all they do that the other tasks depend on: a wake is started only where a claim or
the recovery before it follows, or the Session is stopped, and a stopped drain asks for nothing new.
-/

namespace Kinetick

variable {ε : Type}

/-- The drain's loop is over. -/
def DrainPoint.Over : DrainPoint ε → Prop
  | ended _ => True
  | settled _ => True
  | _ => False

theorem DrainPoint.over_of_settled {p : DrainPoint ε} (h : p.Settled) : p.Over := by
  cases p <;> first | exact h.elim | trivial

/-- What a step of a drain does. -/
structure DrainStep (stopped : Bool) (d : Drain ε) (o : SessionDispatchState)
    (d' : Drain ε) (o' : SessionDispatchState) (cs : List (String × DispatcherCall)) : Prop where
  sessionId : d'.sessionId = d.sessionId
  state : d'.state = d.state
  unsettled : ¬ d'.point.Settled
  object : o'.sessionId = o.sessionId ∧ o'.running = o.running ∧ o'.requestedWake = o.requestedWake
  started : o'.startedWake = o.startedWake ∨ o'.startedWake = o.requestedWake ∧
    (stopped = true ∨ Asks d.sessionId cs)
  busy : d'.point.Busy → d.point.Busy ∨ stopped = false

namespace DispatcherState

variable (st : DispatcherState ε)

/-- One drain, its Session's state and the log of calls changed. -/
def moved (n : ℕ) (d : Drain ε) (o : SessionDispatchState) (cs : List (String × DispatcherCall)) :
    DispatcherState ε :=
  { st with
    drains := st.drains.set n d
    objects := st.objects.set d.state o
    calls := st.calls ++ cs }

/-- The drain asks for its next head, unless it is stopped. -/
def headed (stopped : Bool) (d : Drain ε) : Drain ε × List (String × DispatcherCall) :=
  if stopped then ({ d with point := .attempted false }, [])
  else ({ d with point := .heading .claiming }, [(d.sessionId, .claimNext false d.yielded)])

/-- The drain with what it yielded, nothing where a wake is new. -/
def refreshed (d : Drain ε) (o : SessionDispatchState) : Drain ε :=
  { d with yielded := if o.startedWake < o.requestedWake then [] else d.yielded }

/-- The drain passes its loop's head. -/
def passed (stopped : Bool) (d : Drain ε) (o : SessionDispatchState) :
    Drain ε × List (String × DispatcherCall) :=
  if o.recoverBeforeNextClaim && !stopped then
    ({ refreshed d o with point := .recovering }, [(d.sessionId, .recoverClaims)])
  else headed stopped (refreshed d o)

@[simp] theorem headed_sessionId (stopped : Bool) (d : Drain ε) :
    (headed stopped d).1.sessionId = d.sessionId := by
  unfold headed
  split_ifs <;> rfl

@[simp] theorem headed_state (stopped : Bool) (d : Drain ε) :
    (headed stopped d).1.state = d.state := by
  unfold headed
  split_ifs <;> rfl

@[simp] theorem passed_state (stopped : Bool) (d : Drain ε) (o : SessionDispatchState) :
    (passed stopped d o).1.state = d.state := by
  unfold passed
  split
  · rfl
  · exact headed_state _ _

theorem set_self {o : SessionDispatchState} {i : ℕ} (h : st.objects[i]? = some o) :
    st.objects.set i o = st.objects := by
  obtain ⟨hi, rfl⟩ := List.getElem?_eq_some_iff.1 h
  exact List.set_getElem_self hi

/-- A step that leaves the Session's state. -/
theorem moved_same (n : ℕ) {d : Drain ε} {o : SessionDispatchState}
    (h : st.objects[d.state]? = some o) : st.moved n d o [] = st.setDrain n d := by
  simp only [moved, st.set_self h, List.append_nil]
  rfl

theorem dispatchNext_eq (n : ℕ) (d : Drain ε) :
    st.dispatchNext n d = { st with
      drains := st.drains.set n (headed (st.stopped d.sessionId) d).1
      calls := st.calls ++ (headed (st.stopped d.sessionId) d).2 } := by
  unfold dispatchNext headed
  split_ifs
  · simp only [setDrain, List.append_nil]
  · rfl

theorem drainPass_eq (n : ℕ) (d : Drain ε) (o : SessionDispatchState) :
    st.drainPass n d o = st.moved n (passed (st.stopped d.sessionId) d o).1
      { o with startedWake := o.requestedWake } (passed (st.stopped d.sessionId) d o).2 := by
  have hstopped : ∀ i o', (st.setObject i o').stopped d.sessionId = st.stopped d.sessionId :=
    fun _ _ => rfl
  unfold drainPass moved
  rw [passed_state]
  simp only [hstopped, dispatchNext_eq]
  unfold passed
  by_cases h : (o.recoverBeforeNextClaim && !st.stopped d.sessionId) = true
  · rw [if_pos h, if_pos h]
    rfl
  · rw [if_neg h, if_neg h]
    rfl

theorem headed_step (stopped : Bool) (d : Drain ε) (o o' : SessionDispatchState)
    (hobject : o'.sessionId = o.sessionId ∧ o'.running = o.running ∧
      o'.requestedWake = o.requestedWake)
    (hstarted : o'.startedWake = o.startedWake ∨ o'.startedWake = o.requestedWake) :
    DrainStep stopped d o (headed stopped d).1 o' (headed stopped d).2 := by
  refine ⟨headed_sessionId _ _, headed_state _ _, ?_, hobject, hstarted.imp_right fun h => ⟨h, ?_⟩, ?_⟩
  · cases stopped <;> exact id
  · cases stopped
    · exact .inr (.inl ⟨d.yielded, List.mem_singleton_self _⟩)
    · exact .inl rfl
  · intro h
    cases stopped
    · exact .inr rfl
    · exact h.elim

theorem passed_step (stopped : Bool) (d : Drain ε) (o : SessionDispatchState) :
    DrainStep stopped d o (passed stopped d o).1 { o with startedWake := o.requestedWake }
      (passed stopped d o).2 := by
  unfold passed
  split
  · rename_i h
    simp only [Bool.and_eq_true, Bool.not_eq_true'] at h
    exact ⟨rfl, rfl, id, ⟨rfl, rfl, rfl⟩, .inr ⟨rfl, .inr (.inr (List.mem_singleton_self _))⟩,
      fun _ => .inr h.2⟩
  · have hstep := headed_step stopped (refreshed d o) o
      { o with startedWake := o.requestedWake } ⟨rfl, rfl, rfl⟩ (.inr rfl)
    exact { hstep with }

/-- What a head goes on to is what it waits for next, and the executor is called as it waits. -/
theorem callOf_eq (s : String) (p : ClaimPoint ε) :
    st.callOf s p = { st with calls := st.calls ++ (p.asked.map (s, ·)).toList } := by
  unfold callOf
  cases p.asked with
  | none => simp
  | some c => rfl

/-- A step of a drain that is not over. -/
def Stepped (n : ℕ) (st' : DispatcherState ε) : Prop :=
  ∃ d o d' o' cs, st.drains[n]? = some d ∧ st.objects[d.state]? = some o ∧ ¬ d.point.Over ∧
    DrainStep (st.stopped d.sessionId) d o d' o' cs ∧ st' = st.moved n d' o' cs

theorem drainRecovered_step (n : ℕ) (answer : Except ε Unit) :
    st.drainRecovered n answer = st ∨ st.Stepped n (st.drainRecovered n answer) := by
  unfold drainRecovered
  split
  · rename_i d hd
    split
    · rename_i o hpoint ho
      have hover : ¬ d.point.Over := by
        rw [hpoint]
        exact id
      right
      rcases answer with error | _
      · exact ⟨d, o, { d with point := .ended (.error error) }, o, [], hd, ho, hover,
          ⟨rfl, rfl, id, ⟨rfl, rfl, rfl⟩, .inl rfl, False.elim⟩,
          (@moved_same _ st n { d with point := .ended (.error error) } _ ho).symm⟩
      · refine ⟨d, o, _, _, _, hd, ho, hover, headed_step _ d o
          { o with recoverBeforeNextClaim := false } ⟨rfl, rfl, rfl⟩ (.inl rfl), ?_⟩
        simp only [dispatchNext_eq, moved, headed_state]
        rfl
    · exact .inl rfl
  · exact .inl rfl

theorem drainResumed_step (n : ℕ) :
    st.drainResumed n = st ∨ st.Stepped n (st.drainResumed n) := by
  unfold drainResumed
  split
  · rename_i d hd
    split
    · rename_i drainAgain o hpoint ho
      have hover : ¬ d.point.Over := by
        rw [hpoint]
        exact id
      right
      split
      · rw [drainPass_eq]
        exact ⟨d, o, _, _, _, hd, ho, hover, passed_step _ d o, rfl⟩
      · exact ⟨d, o, { d with point := .ended (.ok ()) }, o, [], hd, ho, hover,
          ⟨rfl, rfl, id, ⟨rfl, rfl, rfl⟩, .inl rfl, False.elim⟩,
          (@moved_same _ st n { d with point := .ended (.ok ()) } _ ho).symm⟩
    · exact .inl rfl
  · exact .inl rfl

theorem drainPoint_unsettled (p : ClaimPoint ε) : ¬ (drainPoint p).Settled := by
  rcases p with _ | _ | _ | error | attempt <;> exact id

theorem drainAnswered_step (n : ℕ) (answer : ClaimAnswer ε) :
    st.drainAnswered n answer = st ∨ st.Stepped n (st.drainAnswered n answer) := by
  unfold drainAnswered
  split
  · rename_i d hd
    split
    · rename_i point o hpoint ho
      have hbusy : d.point.Busy ∧ ¬ d.point.Over := by
        rw [hpoint]
        exact ⟨trivial, id⟩
      dsimp only
      split
      · exact .inl rfl
      · rename_i h _
        right
        rw [callOf_eq]
        exact ⟨d, o, { d with point := drainPoint h.point, yielded := h.marks.yielded },
          { o with recoverBeforeNextClaim := h.marks.recoverBeforeNextClaim },
          (h.point.asked.map (d.sessionId, ·)).toList, hd, ho, hbusy.2,
          ⟨rfl, rfl, drainPoint_unsettled _, ⟨rfl, rfl, rfl⟩, .inl rfl, fun _ => .inl hbusy.1⟩, rfl⟩
    · exact .inl rfl
  · exact .inl rfl

end DispatcherState

/-!
## One drain at a time

A state of a Session and its running drain point at each other, and a state no Session has any more
is done unless the Session is stopped. So one state of a Session at most is not done
(`Linked.alone`), and its drain is the only one that runs.
-/

theorem set_get {α : Type*} {l : List α} {i : ℕ} {x : α} (h : l[i]? = some x) (a : α) (j : ℕ) :
    (l.set i a)[j]? = if i = j then some a else l[j]? := by
  obtain ⟨hi, -⟩ := List.getElem?_eq_some_iff.1 h
  rw [List.getElem?_set, if_pos hi]

theorem append_get {α : Type*} (l : List α) (a : α) (j : ℕ) :
    (l ++ [a])[j]? = if l.length = j then some a else l[j]? := by
  rcases Nat.lt_trichotomy j l.length with h | h | h
  · rw [if_neg (by omega), List.getElem?_append_left h]
  · rw [if_pos h.symm, h]
    simp
  · rw [if_neg (by omega), List.getElem?_eq_none (by simp; omega),
      List.getElem?_eq_none (by omega)]

/-- No drain runs for the state, and its last wake was started. -/
def SessionDispatchState.Idle (o : SessionDispatchState) : Prop :=
  o.running = none ∧ o.startedWake = o.requestedWake

namespace DispatcherState

/-- A wake was requested of its Session's state, and awaits a drain of that state. -/
def WakeLinked (st : DispatcherState ε) (w : WakeCall) : Prop :=
  ∃ o, st.objects[w.state]? = some o ∧ o.sessionId = w.sessionId ∧ w.wake ≤ o.requestedWake ∧
    ∀ n, w.point = .waiting n → ∃ d, st.drains[n]? = some d ∧ d.state = w.state

/-- How drains, states and wakes hang together. -/
structure Linked (st : DispatcherState ε) : Prop where
  drain : ∀ (n : ℕ) (d : Drain ε), st.drains[n]? = some d →
    ∃ o, st.objects[d.state]? = some o ∧ o.sessionId = d.sessionId
  running : ∀ (i n : ℕ) (o : SessionDispatchState), st.objects[i]? = some o →
    (o.running = some n ↔ ∃ d, st.drains[n]? = some d ∧ d.state = i ∧ ¬ d.point.Settled)
  started : ∀ (i : ℕ) (o : SessionDispatchState), st.objects[i]? = some o →
    o.startedWake ≤ o.requestedWake
  mapped : ∀ (s : String) (i : ℕ), st.states s = some i →
    ∃ o, st.objects[i]? = some o ∧ o.sessionId = s
  idle : ∀ (i : ℕ) (o : SessionDispatchState), st.objects[i]? = some o →
    st.states o.sessionId ≠ some i → st.stopped o.sessionId = false → o.Idle
  alone : ∀ (i j : ℕ) (o o' : SessionDispatchState), st.objects[i]? = some o →
    st.objects[j]? = some o' → o.sessionId = o'.sessionId → ¬ o.Idle → ¬ o'.Idle → i = j
  wakes : ∀ w ∈ st.wakes, st.WakeLinked w

variable {st : DispatcherState ε}

theorem Linked.oneDrain (h : st.Linked) (s : String) : st.OneDrain s := by
  intro n m d d' hd hd' hs hs' hn hm
  obtain ⟨o, ho, hos⟩ := h.drain n d hd
  obtain ⟨o', ho', hos'⟩ := h.drain m d' hd'
  have hrun : o.running = some n := (h.running _ _ _ ho).2 ⟨d, hd, rfl, hn⟩
  have hrun' : o'.running = some m := (h.running _ _ _ ho').2 ⟨d', hd', rfl, hm⟩
  have hij : d.state = d'.state := by
    refine h.alone _ _ _ _ ho ho' (by rw [hos, hos', hs, hs']) ?_ ?_
    · intro hidle
      rw [hidle.1] at hrun
      cases hrun
    · intro hidle
      rw [hidle.1] at hrun'
      cases hrun'
  rw [hij, ho'] at ho
  cases ho
  rw [hrun] at hrun'
  exact Option.some.inj hrun'

/-- A drain that runs is the one its state says. -/
theorem Linked.runs (h : st.Linked) {n : ℕ} {d : Drain ε} {o : SessionDispatchState}
    (hd : st.drains[n]? = some d) (ho : st.objects[d.state]? = some o)
    (hsettled : ¬ d.point.Settled) : o.running = some n :=
  (h.running _ _ _ ho).2 ⟨d, hd, rfl, hsettled⟩

/-- A state that is not done, and a drain of it, are put where they were, or the drain is new. -/
theorem Linked.put (h : st.Linked) {st' : DispatcherState ε} {i n : ℕ} {o o' : SessionDispatchState}
    {d : Drain ε} (hstates : st'.states = st.states) (hwakes : st'.wakes = st.wakes)
    (hstopped : st'.stopped = st.stopped)
    (hobj : ∀ j, st'.objects[j]? = if i = j then some o' else st.objects[j]?)
    (hdr : ∀ m, st'.drains[m]? = if n = m then some d else st.drains[m]?)
    (ho : st.objects[i]? = some o) (hidle : ¬ o.Idle) (hsession : o'.sessionId = o.sessionId)
    (hrequested : o'.requestedWake = o.requestedWake) (hstarted : o'.startedWake ≤ o.requestedWake)
    (hd : d.state = i ∧ d.sessionId = o.sessionId)
    (hold : ∀ d, st.drains[n]? = some d → d.state = i)
    (hrun : o.running = none ∨ o.running = some n)
    (hrun' : ∀ m, o'.running = some m ↔ n = m ∧ ¬ d.point.Settled) : st'.Linked := by
  constructor
  · intro m d₁ h₁
    have := h.drain
    simp only [hdr, hobj] at h₁ ⊢
    grind
  · intro j m o₁ h₁
    have := h.running
    simp only [hdr, hobj] at h₁ ⊢
    grind
  · intro j o₁ h₁
    have := h.started
    simp only [hobj] at h₁
    grind
  · intro s j h₁
    have := h.mapped
    simp only [hobj, hstates] at h₁ ⊢
    grind
  · intro j o₁ h₁ h₂ h₃
    have := h.idle
    simp only [hobj, hstates] at h₁ h₂
    rw [hstopped] at h₃
    grind
  · intro j k o₁ o₂ h₁ h₂
    have := h.alone
    simp only [hobj] at h₁ h₂
    grind
  · intro w hw
    have := h.wakes w (hwakes ▸ hw)
    unfold WakeLinked at this ⊢
    simp only [hdr, hobj]
    grind

/-- A drain that runs has a state that is not done. -/
theorem not_idle_of_running {o : SessionDispatchState} {n : ℕ} (h : o.running = some n) :
    ¬ o.Idle := by
  intro hidle
  rw [hidle.1] at h
  cases h

theorem Linked.moved (h : st.Linked) {n : ℕ} {d d' : Drain ε} {o o' : SessionDispatchState}
    {cs : List (String × DispatcherCall)} (hd : st.drains[n]? = some d)
    (ho : st.objects[d.state]? = some o) (hover : ¬ d.point.Over)
    (hstep : DrainStep (st.stopped d.sessionId) d o d' o' cs) : (st.moved n d' o' cs).Linked := by
  have hrun := h.runs hd ho fun hs => hover (DrainPoint.over_of_settled hs)
  have hle := h.started _ _ ho
  obtain ⟨hs, hr, hq⟩ := hstep.object
  obtain ⟨o₁, ho₁, hsession⟩ := h.drain n d hd
  obtain rfl := Option.some.inj (ho.symm.trans ho₁)
  refine h.put rfl rfl rfl (fun j => ?_) (set_get hd d') ho (not_idle_of_running hrun)
    hs hq ?_ ⟨hstep.state, hstep.sessionId.trans hsession.symm⟩ (fun d₁ h₁ => ?_) (.inr hrun)
    fun m => ?_
  · unfold DispatcherState.moved
    rw [hstep.state]
    exact set_get ho o' j
  · rcases hstep.started with h | ⟨h, -⟩ <;> omega
  · rw [hd] at h₁
    cases h₁
    rfl
  · rw [hr, hrun]
    simp [hstep.unsettled]

end DispatcherState

end Kinetick
