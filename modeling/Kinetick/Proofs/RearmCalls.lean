import Kinetick.Goal.RearmSystem

/-!
# What a call does about a debt

A debt is what an arm leaves. To a call it is not there yet, or is for someone else to pay, or is
the call's own since it claimed the marker. `Debt.Turns` is what an answer makes of that as long as
the Goal stays active and no answer loses the debt, and `Debt.May` what a call may ask: it drops no
marker of the debt but for a message, and restores what it claimed. Every call obeys, and none ends
with the debt its own (`run_obeys`).
-/

namespace Kinetick.Goal

open Continuation ContinuationAsk Async

structure Debt where
  sessionId : String
  goalId : String
  epoch : ℤ
  generation : ℕ

/-- How a call stands to a debt. -/
inductive Standing
  /-- The arm did not take place yet. -/
  | ahead
  /-- The debt is not the call's. -/
  | aside
  /-- The call claimed the marker; the kickoff of the Goal is at this rank or a later one. -/
  | owing (kickoff : ℕ)
  /-- The call handed a message over that pays the debt. -/
  | paid

def Standing.isOwing : Standing → Bool
  | owing _ => true
  | _ => false

/-- Where a call that asks for no marker goes from where it stands, unless it owes. -/
def Standing.Onward : Standing → Standing → Prop
  | ahead, p => p.isOwing = false
  | aside, p => p = aside ∨ p = paid
  | owing _, _ => False
  | paid, p => p = paid

namespace Debt

variable (d : Debt)

/-- A message of the Goal at the epoch or a later one pays the debt. -/
def PaidBy (message : GoalMessage) : Prop :=
  message.goalId = d.goalId ∧ d.epoch ≤ message.goalUpdatedAt

/-- The Goal of a row that is read while the debt stands. -/
structure IsGoal (goal : ThreadGoalState) : Prop where
  sessionId : goal.sessionId = d.sessionId
  goalId : goal.goalId = d.goalId
  status : goal.status = .active
  epoch : d.epoch ≤ goal.updatedAt

/-- What a call may ask, unless it paid the debt. -/
def May (drains : Bool) (c : ContinuationAsk) (p : Standing) : Prop :=
  match p, c with
  | .paid, _ => True
  | _, .claim _ => drains
  | _, .clearScheduled sessionId observed => sessionId = d.sessionId →
      ∀ generation, observed = some generation → generation < d.generation
  | .owing _, .restore sessionId armed => sessionId = d.sessionId →
      d.generation ≤ armed.generation ∧ armed.goalId = d.goalId
  | _, .restore sessionId armed => sessionId = d.sessionId → armed.generation < d.generation
  | _, .transitionKickoffState _ _ expected next => expected.rank ≤ next.rank
  | _, _ => True

/-- What may be answered before the arm takes place. -/
def Before : (c : ContinuationAsk) → c.Reply → Prop
  | .observe sessionId _, r => sessionId = d.sessionId →
      ∀ generation, r = some generation → generation < d.generation
  | .claim sessionId, r => sessionId = d.sessionId →
      ∀ armed, r = some armed → armed.generation < d.generation
  | _, _ => True

/-- What may be answered while the debt stands. -/
def During : (c : ContinuationAsk) → c.Reply → Standing → Prop
  | .observe sessionId kicked, r, _ => sessionId = d.sessionId →
      ∀ generation, r = some generation → d.generation ≤ generation →
        ∀ goal, kicked = some goal → goal.goalId = d.goalId ∧ d.epoch ≤ goal.updatedAt
  | .claim sessionId, r, _ => sessionId = d.sessionId →
      ∀ armed, r = some armed → d.generation ≤ armed.generation → armed.goalId = d.goalId
  | .getBySession sessionId observed, r, p => sessionId = d.sessionId →
      ∀ row, r = .ok row → ∃ goal, row = some goal ∧ d.IsGoal goal ∧
        ∀ kickoff, p = .owing kickoff → kickoff ≤ goal.kickoffState.rank ∧
          ∀ earlier, observed = some earlier → goal.goalId = earlier.goalId →
            goal.kickoffState ≠ .consumed
  | .hasPendingInitialContinuation _ _ cancelled, r, p => p.isOwing → cancelled → r ≠ .ok true
  | .enqueueInitialContinuationTurn _ _, r, p => p.isOwing → r ≠ .ok false
  | .hasPostTurnQueue, r, p => p.isOwing → r = true
  | _, _, _ => True

open scoped Classical in
/-- How the call stands once that is answered. -/
noncomputable def next : (c : ContinuationAsk) → c.Reply → Standing → Standing
  | .claim sessionId, r, p =>
    match p with
    | .aside =>
      if sessionId = d.sessionId ∧ ∃ armed, r = some armed ∧ d.generation ≤ armed.generation then
        .owing 0
      else p
    | _ => p
  | .restore sessionId _, _, p =>
    match p with
    | .owing _ => if sessionId = d.sessionId then .aside else p
    | _ => p
  | .getBySession sessionId _, r, p =>
    match p, r with
    | .owing _, .ok (some goal) =>
      if sessionId = d.sessionId then .owing goal.kickoffState.rank else p
    | _, _ => p
  | .transitionKickoffState sessionId goalId expected next, r, p =>
    match p, r with
    | .owing kickoff, .ok _ =>
      if sessionId = d.sessionId ∧ goalId = d.goalId ∧ expected = .enqueued ∧ next = .consumed ∧
          1 ≤ kickoff then .owing 2
      else p
    | _, _ => p
  | .enqueueInitialContinuationTurn _ message, r, p =>
    if r = .ok true ∧ d.PaidBy message then .paid else p
  | .enqueuePostTurnContinuation _ _ message _, r, p =>
    if r = .ok () ∧ d.PaidBy message then .paid else p
  | .startContinuationTurn _ message, r, p =>
    if r = .ok .started ∧ d.PaidBy message then .paid else p
  | _, _, p => p

/-- What an answer makes of how a call stands: before it the arm may have taken place. -/
def Turns (c : ContinuationAsk) (p : Standing) (r : c.Reply) (p' : Standing) : Prop :=
  match p with
  | .paid => p' = .paid
  | .ahead => d.Before c r ∧ p' = .ahead ∨ d.During c r .aside ∧ p' = d.next c r .aside
  | p => d.During c r p ∧ p' = d.next c r p

/-- The computation asks what it may and ends in `Q`. -/
abbrev Obeys {α : Type} (drains : Bool) (Q : Except Unit α → Standing → Prop)
    (m : ContinuationM α) (p : Standing) : Prop :=
  Async.Obeys (d.May drains) d.Turns Q m p

/-! ### Rules -/

variable {d} {drains : Bool} {α β : Type} {p p' : Standing}

theorem may_paid (c : ContinuationAsk) : d.May drains c .paid := by
  unfold May
  trivial

/-- A call that paid the debt may go on as it likes. -/
theorem obeys_paid {Q : Except Unit α → Standing → Prop} (hQ : ∀ r, Q r .paid)
    (m : ContinuationM α) : d.Obeys drains Q m .paid := by
  induction m with
  | ret r => exact hQ r
  | ask c next ih =>
    refine ⟨may_paid c, fun r p' hturns => ?_⟩
    obtain rfl : p' = .paid := hturns
    exact ih r

theorem obeys_request {c : ContinuationAsk} {Q : Except Unit c.Reply → Standing → Prop}
    (hmay : d.May drains c p) (hQ : ∀ r p', d.Turns c p r p' → Q (.ok r) p') :
    d.Obeys drains Q (request c) p := ⟨hmay, fun r p' h => hQ r p' h⟩

/-- Asks, and goes on by the answer. -/
theorem obeys_request_bind {c : ContinuationAsk} {f : c.Reply → ContinuationM β}
    {R : Except Unit β → Standing → Prop} (hmay : d.May drains c p)
    (hnext : ∀ r p', d.Turns c p r p' → d.Obeys drains R (f r) p') :
    d.Obeys drains R (request c >>= f) p :=
  Async.Obeys.bind (Q := fun r p' => ∃ a, r = .ok a ∧ d.Turns c p a p')
    (obeys_request hmay fun r _ h => ⟨r, rfl, h⟩)
    (by
      rintro p' a ⟨_, ⟨rfl⟩, h⟩
      exact hnext a p' h)
    (by rintro p' e ⟨_, ⟨⟩, -⟩)

end Debt

/-! ### Computations that ask for no marker -/

def ContinuationAsk.IsQuiet : ContinuationAsk → Prop
  | claim _ => False
  | clearScheduled _ _ => False
  | restore _ _ => False
  | transitionKickoffState _ _ expected next => expected.rank ≤ next.rank
  | _ => True

/-- The computation claims, restores and drops no marker, and moves no kickoff back. -/
def Quiet {α : Type} : ContinuationM α → Prop
  | .ret _ => True
  | .ask c next => c.IsQuiet ∧ ∀ r, Quiet (next r)

section Quiet

variable {α β : Type}

theorem quiet_bind {m : ContinuationM α} {f : α → ContinuationM β} (hm : Quiet m)
    (hf : ∀ a, Quiet (f a)) : Quiet (m >>= f) := by
  induction m with
  | ret r =>
    rcases r with e | a
    · trivial
    · exact hf a
  | ask c next ih => exact ⟨hm.1, fun r => ih r (hm.2 r)⟩

theorem quiet_pure (a : α) : Quiet (pure a : ContinuationM α) := trivial

theorem quiet_request {c : ContinuationAsk} (h : c.IsQuiet) : Quiet (request c) :=
  ⟨h, fun _ => trivial⟩

theorem quiet_orThrow {m : ContinuationM (Except Unit α)} (h : Quiet m) : Quiet (orThrow m) :=
  quiet_bind h fun _ => trivial

theorem quiet_attempt {m : ContinuationM α} (h : Quiet m) : Quiet m.attempt := by
  induction m with
  | ret r => trivial
  | ask c next ih => exact ⟨h.1, fun r => ih r (h.2 r)⟩

theorem quiet_ite {c : Prop} [Decidable c] {m n : ContinuationM α} (hm : Quiet m) (hn : Quiet n) :
    Quiet (if c then m else n) := by
  split_ifs
  · exact hm
  · exact hn

theorem quiet_when {c : Prop} [Decidable c] {m : ContinuationM Unit} (h : Quiet m) :
    Quiet (when c m) := quiet_ite h (quiet_pure ())

theorem ThreadGoalKickoffState.rank_le (kickoff : ThreadGoalKickoffState) :
    kickoff.rank ≤ ThreadGoalKickoffState.consumed.rank := by
  cases kickoff <;> simp [ThreadGoalKickoffState.rank]

theorem quiet_consume (goal : ThreadGoalState) : Quiet (consume goal) :=
  quiet_when (quiet_orThrow (quiet_request goal.kickoffState.rank_le))

theorem quiet_enqueueKickoff (goal : ThreadGoalState) : Quiet (enqueueKickoff goal) :=
  quiet_bind (quiet_orThrow (quiet_request trivial)) fun _ =>
    quiet_bind (quiet_orThrow (quiet_request trivial)) fun _ => quiet_pure _

theorem quiet_deliverKickoff (goal : ThreadGoalState) (dispatch queued : Bool) :
    Quiet (deliverKickoff goal dispatch queued) :=
  quiet_bind (quiet_when (quiet_enqueueKickoff goal)) fun _ =>
    quiet_bind (quiet_request trivial) fun _ =>
      quiet_bind (quiet_when (quiet_orThrow (quiet_request (Nat.zero_le _)))) fun _ =>
        quiet_bind (quiet_when (quiet_request trivial)) fun _ => quiet_pure _

theorem quiet_reconcile (goal : ThreadGoalState) (dispatch refreshQueued : Bool) :
    Quiet (reconcile goal dispatch refreshQueued) := by
  refine quiet_bind (quiet_orThrow (quiet_request trivial)) fun queued => quiet_ite ?_ ?_
  · refine quiet_bind (quiet_when (quiet_orThrow (quiet_request trivial))) fun _ => ?_
    exact quiet_bind (quiet_consume goal) fun _ => quiet_pure _
  refine quiet_bind (quiet_request trivial) fun awaiting => quiet_ite ?_ (quiet_ite ?_ ?_)
  · exact quiet_bind (quiet_consume goal) fun _ => quiet_pure _
  · refine quiet_bind (quiet_orThrow (quiet_request trivial)) fun _ => ?_
    refine quiet_bind (quiet_request trivial) fun _ => ?_
    refine quiet_bind (quiet_orThrow (quiet_request trivial)) fun _ => ?_
    exact quiet_deliverKickoff goal dispatch _
  · exact quiet_deliverKickoff goal dispatch queued

theorem quiet_refreshQueuedKickoff (observed : ThreadGoalState) :
    Quiet (refreshQueuedKickoff observed) := by
  have hrefresh : Quiet (refresh observed) := by
    refine quiet_bind (quiet_orThrow (quiet_request trivial)) fun current => ?_
    cases current with
    | none => exact quiet_pure _
    | some current =>
      refine quiet_ite (quiet_pure _) (quiet_bind (quiet_reconcile current true true) fun _ => ?_)
      exact quiet_bind (quiet_orThrow (quiet_request trivial)) fun _ => quiet_pure _
  refine quiet_bind (quiet_request trivial) fun joined => ?_
  refine quiet_bind (quiet_request trivial) fun _ => ?_
  refine quiet_bind (quiet_attempt hrefresh) fun result => ?_
  exact quiet_bind (quiet_request trivial) fun _ => trivial

theorem quiet_submitActiveContinuation (sessionId turnId : String) (rebuilt : Bool) :
    Quiet (submitActiveContinuation sessionId turnId rebuilt) := by
  refine quiet_bind (quiet_request trivial) fun available => quiet_ite (quiet_pure _) ?_
  refine quiet_bind (quiet_orThrow (quiet_request trivial)) fun goal => ?_
  split
  · exact quiet_pure _
  · refine quiet_bind (quiet_orThrow (quiet_request trivial)) fun _ => ?_
    exact quiet_bind (quiet_orThrow (quiet_request trivial)) fun _ => quiet_pure _

theorem quiet_rebuild (sessionId turnId : String) (armed : ArmedRearm) :
    Quiet (rebuild sessionId turnId armed) := by
  have hsubmit : Quiet (do let _ ← submitActiveContinuation sessionId turnId true) :=
    quiet_bind (quiet_submitActiveContinuation _ _ _) fun _ => quiet_pure _
  refine quiet_bind (quiet_orThrow (quiet_request trivial)) fun goal => ?_
  split
  · exact quiet_pure _
  · refine quiet_ite (quiet_bind (quiet_refreshQueuedKickoff _) fun refreshed => ?_) hsubmit
    split
    · exact quiet_pure _
    · exact hsubmit

theorem quiet_armUserPatch (goal : ThreadGoalState) : Quiet (armUserPatch goal) := by
  refine quiet_bind ?_ fun _ => quiet_when (quiet_request trivial)
  refine quiet_ite (quiet_pure _) (quiet_bind (quiet_request trivial) fun busy => ?_)
  refine quiet_ite (quiet_pure _) ?_
  split
  · exact quiet_pure _
  · exact quiet_pure _
  · exact quiet_bind (quiet_request trivial) fun _ => quiet_pure _

theorem quiet_consumeDelivered (goal : ThreadGoalState) : Quiet (consumeDelivered goal) :=
  quiet_when (quiet_bind (quiet_orThrow (quiet_request trivial)) fun _ =>
    quiet_when (quiet_consume goal))

theorem quiet_retire (sessionId goalId : String) (kickoffCancelled : Bool) :
    Quiet (retire sessionId goalId kickoffCancelled) :=
  quiet_bind (quiet_request trivial) fun _ => quiet_bind (quiet_request trivial) fun _ =>
    quiet_when (quiet_bind (quiet_request trivial) fun _ => quiet_pure _)

theorem quiet_canProbeActiveTurn (goal : ThreadGoalState) : Quiet (canProbeActiveTurn goal) := by
  refine quiet_ite (quiet_pure _) (quiet_bind (quiet_request trivial) fun _ => ?_)
  refine quiet_ite (quiet_pure _) (quiet_bind (quiet_request trivial) fun _ => ?_)
  exact quiet_ite (quiet_pure _) (quiet_bind (quiet_request trivial) fun _ => quiet_pure _)

theorem quiet_steer (goal : ThreadGoalState) (observedTurnId : Option String) :
    Quiet (steer goal observedTurnId) := by
  refine quiet_bind (quiet_request trivial) fun prepared => quiet_ite (quiet_pure _) ?_
  refine quiet_bind (quiet_request trivial) fun steered => ?_
  split
  · exact quiet_pure _
  · exact quiet_pure _

/-! ### Calls that owe nothing -/

variable {d : Debt} {drains : Bool} {p p' p'' : Standing}

theorem Standing.Onward.isOwing (h : p.Onward p') : p'.isOwing = false := by
  cases p with
  | ahead => exact h
  | aside => rcases h with rfl | rfl <;> rfl
  | owing k => cases h
  | paid =>
    obtain rfl : p' = .paid := h
    rfl

theorem Standing.Onward.trans (h : p.Onward p') (h' : p'.Onward p'') : p.Onward p'' := by
  cases p with
  | ahead => exact h'.isOwing
  | aside =>
    rcases h with rfl | rfl
    · exact h'
    · exact Or.inr h'
  | owing k => cases h
  | paid =>
    obtain rfl : p' = .paid := h
    exact h'

theorem Standing.onward_refl (h : p.isOwing = false) : p.Onward p := by
  cases p with
  | ahead => rfl
  | aside => exact Or.inl rfl
  | owing k => cases h
  | paid => rfl

theorem Debt.next_aside {c : ContinuationAsk} (hc : c.IsQuiet) (r : c.Reply) :
    d.next c r .aside = .aside ∨ d.next c r .aside = .paid := by
  cases c <;> first | exact absurd hc id | exact Or.inl rfl | skip
  all_goals
    simp only [Debt.next]
    split_ifs
    · exact Or.inr rfl
    · exact Or.inl rfl

/-- A quiet answer leaves a call that owes nothing so. -/
theorem Debt.Turns.onward {c : ContinuationAsk} {r : c.Reply} (h : d.Turns c p r p')
    (hc : c.IsQuiet) (hp : p.isOwing = false) : p.Onward p' := by
  cases p with
  | ahead =>
    rcases h with ⟨-, rfl⟩ | ⟨-, rfl⟩
    · rfl
    · rcases d.next_aside hc r with hnext | hnext <;> rw [hnext] <;> rfl
  | aside =>
    obtain ⟨-, rfl⟩ := h
    exact d.next_aside hc r
  | owing k => cases hp
  | paid => exact h

theorem Debt.may_quiet {c : ContinuationAsk} (hc : c.IsQuiet) : d.May drains c p := by
  cases c <;> first | exact absurd hc id | skip
  all_goals cases p <;> trivial

theorem obeys_quiet {m : ContinuationM α} (hm : Quiet m) (hp : p.isOwing = false) :
    d.Obeys drains (fun _ => p.Onward) m p := by
  induction m generalizing p with
  | ret r => exact Standing.onward_refl hp
  | ask c next ih =>
    refine ⟨Debt.may_quiet hm.1, fun r p' hturns => ?_⟩
    have honward := hturns.onward hm.1 hp
    exact (ih r (hm.2 r) honward.isOwing).mono fun _ _ h => honward.trans h

end Quiet

/-! ### Submitting a continuation -/

section Calls

variable {d : Debt} {drains : Bool} {p p' : Standing}

theorem obeys_ask {α : Type} {c : ContinuationAsk} {next : c.Reply → ContinuationM α}
    {Q : Except Unit α → Standing → Prop} (hmay : d.May drains c p)
    (hnext : ∀ r p', d.Turns c p r p' → d.Obeys drains Q (next r) p') :
    d.Obeys drains Q (.ask c next) p := ⟨hmay, hnext⟩

/-- Asks what may fail, and goes on by the answer. -/
theorem obeys_call {α β : Type} {c : ContinuationAsk} (toExcept : c.Reply → Except Unit α)
    {f : α → ContinuationM β} {Q : Except Unit β → Standing → Prop} (hmay : d.May drains c p)
    (hok : ∀ r a p', toExcept r = .ok a → d.Turns c p r p' → d.Obeys drains Q (f a) p')
    (herror : ∀ r e p', toExcept r = .error e → d.Turns c p r p' → Q (.error e) p') :
    d.Obeys drains Q (.ask c fun r => (.ret (toExcept r) : ContinuationM α) >>= f) p := by
  refine obeys_ask hmay fun r p' hturns => ?_
  cases hr : toExcept r with
  | error e => exact herror r e p' hr hturns
  | ok a => exact hok r a p' hr hturns

/-- The debt stands, and the call neither waits for it nor has paid it. -/
def Standing.Stands : Standing → Prop
  | aside => True
  | owing _ => True
  | _ => False

theorem Debt.Turns.during {c : ContinuationAsk} {r : c.Reply} (h : d.Turns c p r p')
    (hp : p.Stands) : d.During c r p ∧ p' = d.next c r p := by
  cases p with
  | ahead => cases hp
  | aside => exact h
  | owing k => exact h
  | paid => cases hp

/-- How a call stands that did not pay: as it did. -/
structure Standing.Same (p p' : Standing) : Prop where
  stands : p'.Stands
  isOwing : p'.isOwing = p.isOwing

theorem Standing.Stands.same (hp : p.Stands) : p.Same p := ⟨hp, rfl⟩

/-- Where a call reads the Goal. -/
theorem Debt.Turns.read {sessionId : String} {observed : Option ThreadGoalState}
    {row : Option ThreadGoalState} (h : d.Turns (.getBySession sessionId observed) p (.ok row) p')
    (hp : p.Stands) (hsession : sessionId = d.sessionId) : ∃ goal, row = some goal ∧ d.IsGoal goal ∧
      p.Same p' ∧ ∀ kickoff, p = .owing kickoff → p' = .owing goal.kickoffState.rank ∧
        kickoff ≤ goal.kickoffState.rank ∧ ∀ earlier, observed = some earlier →
          goal.goalId = earlier.goalId → goal.kickoffState ≠ .consumed := by
  obtain ⟨hduring, hnext⟩ := h.during hp
  obtain ⟨goal, rfl, hgoal, hkickoff⟩ := hduring hsession row rfl
  refine ⟨goal, rfl, hgoal, ?_, fun kickoff howing => ?_⟩
  · cases p with
    | ahead => cases hp
    | aside =>
      rw [hnext]
      exact ⟨trivial, rfl⟩
    | owing k =>
      rw [hnext]
      simp only [Debt.next, if_pos hsession]
      exact ⟨trivial, rfl⟩
    | paid => cases hp
  · subst howing
    refine ⟨?_, hkickoff kickoff rfl⟩
    rw [hnext]
    simp [Debt.next, hsession]

theorem Standing.Same.trans (h : p.Same p') (h' : p'.Same p'') : p.Same p'' :=
  ⟨h'.stands, h'.isOwing.trans h.isOwing⟩

/-- An answer that is no news leaves how a call stands. -/
theorem Debt.Turns.same {c : ContinuationAsk} {r : c.Reply} (h : d.Turns c p r p')
    (hp : p.Stands) (hnext : d.next c r p = p) : p.Same p' := by
  obtain ⟨-, rfl⟩ := h.during hp
  rw [hnext]
  exact hp.same

theorem Debt.IsGoal.paidBy {goal : ThreadGoalState} (h : d.IsGoal goal) :
    d.PaidBy (buildThreadGoalContinuationMessage goal) ∧
      d.PaidBy (buildThreadGoalKickoffMessage goal) :=
  ⟨⟨h.goalId, h.epoch⟩, ⟨h.goalId, h.epoch⟩⟩

/-- Where a submission of the Goal that is read does not fail, it pays, unless there is no Queue. -/
theorem submit_pays {sessionId turnId : String} {rebuilt : Bool}
    (hsession : sessionId = d.sessionId) (hp : p.Stands) :
    d.Obeys drains (fun r p' => p' = .paid ∨ p.Same p' ∧
      ∀ x, r = .ok x → p.isOwing = false ∧ x = .unavailable)
      (submitActiveContinuation sessionId turnId rebuilt) p := by
  refine obeys_ask (Debt.may_quiet trivial) fun available p₁ hturns => ?_
  obtain ⟨hduring, rfl⟩ : d.During hasPostTurnQueue available p ∧ p₁ = p := hturns.during hp
  cases available with
  | false =>
    refine Or.inr ⟨hp.same, fun x hx => ⟨?_, (Except.ok.inj hx).symm⟩⟩
    by_contra howing
    exact absurd (hduring (by simpa using howing)) (by simp)
  | true =>
  refine obeys_call (c := getBySession sessionId none) id (Debt.may_quiet trivial)
    (fun r row p₂ hr hturns => ?_) fun r e p₂ hr hturns => ?_
  · obtain rfl : r = .ok row := hr
    obtain ⟨goal, rfl, hgoal, hsame, -⟩ := hturns.read hp hsession
    have hfilter : (some goal).filter (fun goal => isContinuationStatus goal.status) = some goal := by
      simp [isContinuationStatus, hgoal.status]
    rw [hfilter]
    refine obeys_call (c := preparePrompt goal) id (Debt.may_quiet trivial)
      (fun r _ p₃ hr hturns => ?_) fun r e p₃ hr hturns => ?_
    · have hsame := hsame.trans (hturns.same hsame.stands (by cases p₂ <;> rfl))
      refine obeys_call (c := enqueuePostTurnContinuation sessionId turnId _ _) id
        (Debt.may_quiet trivial) (fun r _ p₄ hr hturns => ?_) fun r e p₄ hr hturns => ?_
      · obtain ⟨-, rfl⟩ := hturns.during hsame.stands
        refine Or.inl ?_
        rw [Debt.next, if_pos ⟨hr, hgoal.paidBy.1⟩]
      · obtain rfl : r = .error e := hr
        exact Or.inr ⟨hsame.trans (hturns.same hsame.stands (by simp [Debt.next])), nofun⟩
    · exact Or.inr ⟨hsame.trans (hturns.same hsame.stands (by cases p₂ <;> rfl)), nofun⟩
  · obtain rfl : r = .error e := hr
    exact Or.inr ⟨hturns.same hp (by cases p₁ <;> rfl), nofun⟩

/-! ### The calls -/

/-- A call ends with no debt of its own. -/
abbrev Done {α : Type} (_ : Except Unit α) (p : Standing) : Prop := p.isOwing = false

theorem done_of_quiet {α : Type} {m : ContinuationM α} (hm : Quiet m) (hp : p.isOwing = false) :
    d.Obeys drains Done m p := (obeys_quiet hm hp).mono fun _ _ h => h.isOwing

/-- The generation was observed before the arm. -/
def Debt.Precedes (d : Debt) (observed : Option ℕ) : Prop :=
  ∀ generation, observed = some generation → generation < d.generation

/-- A marker is dropped that was armed before the debt, or for which a message was handed over. -/
theorem clearScheduled_obeys {c : Prop} [Decidable c] {sessionId : String} {observed : Option ℕ}
    (hp : p.isOwing = false) (h : c → sessionId = d.sessionId → p = .paid ∨ d.Precedes observed) :
    d.Obeys drains Done (when c (request (clearScheduled sessionId observed))) p := by
  unfold Async.when
  split_ifs with hc
  · refine obeys_ask ?_ fun r p' hturns => ?_
    · cases p with
      | paid => trivial
      | owing k => cases hp
      | ahead => exact fun hsession => (h hc hsession).resolve_left nofun
      | aside => exact fun hsession => (h hc hsession).resolve_left nofun
    · cases p with
      | ahead =>
        rcases hturns with ⟨-, rfl⟩ | ⟨-, rfl⟩ <;> rfl
      | aside =>
        obtain ⟨-, rfl⟩ := hturns
        rfl
      | owing k => cases hp
      | paid =>
        obtain rfl : p' = .paid := hturns
        rfl
  · exact hp

/-- What is observed is armed before the debt, unless the debt stands already. -/
theorem Debt.Turns.observed {sessionId : String} {kicked : Option ThreadGoalState}
    {observed : Option ℕ} (h : d.Turns (.observe sessionId kicked) p observed p')
    (hp : p = .ahead ∨ p = .aside) (hsession : sessionId = d.sessionId) :
    p' = .ahead ∧ d.Precedes observed ∨ p' = .aside ∧
      (d.Precedes observed ∨ ∀ goal, kicked = some goal →
        goal.goalId = d.goalId ∧ d.epoch ≤ goal.updatedAt) := by
  have hduring (hduring : d.During (.observe sessionId kicked) observed .aside) :
      d.Precedes observed ∨ ∀ goal, kicked = some goal →
        goal.goalId = d.goalId ∧ d.epoch ≤ goal.updatedAt := by
    by_cases hprecedes : d.Precedes observed
    · exact Or.inl hprecedes
    · simp only [Debt.Precedes, not_forall] at hprecedes
      obtain ⟨generation, hgeneration, hle⟩ := hprecedes
      exact Or.inr (hduring hsession generation hgeneration (by omega))
  rcases hp with rfl | rfl
  · rcases h with ⟨hbefore, rfl⟩ | ⟨h, rfl⟩
    · exact Or.inl ⟨rfl, hbefore hsession⟩
    · exact Or.inr ⟨rfl, hduring h⟩
  · obtain ⟨h, rfl⟩ := h
    exact Or.inr ⟨rfl, hduring h⟩

theorem enqueueActive_obeys (sessionId turnId : String) (hp : p = .ahead ∨ p = .aside) :
    d.Obeys drains Done (enqueueActive sessionId turnId) p := by
  have hfree : p.isOwing = false := by rcases hp with rfl | rfl <;> rfl
  refine obeys_ask (Debt.may_quiet trivial) fun observed p₁ hturns => ?_
  have hfree₁ := (hturns.onward trivial hfree).isOwing
  have hquiet (h : sessionId = d.sessionId → d.Precedes observed) : d.Obeys drains Done (do
      let submission ← submitActiveContinuation sessionId turnId false
      when (submission ≠ .unavailable) (request (clearScheduled sessionId observed))) p₁ :=
    (obeys_quiet (quiet_submitActiveContinuation _ _ _) hfree₁).bind
      (fun p₂ x h₂ => clearScheduled_obeys h₂.isOwing fun _ hsession => Or.inr (h hsession))
      fun p₂ e h₂ => h₂.isOwing
  by_cases hsession : sessionId = d.sessionId
  · rcases hturns.observed hp hsession with ⟨-, hprecedes⟩ | ⟨rfl, -⟩
    · exact hquiet fun _ => hprecedes
    · refine (submit_pays (p := .aside) hsession trivial).bind (fun p₂ x h₂ => ?_) fun p₂ e h₂ => ?_
      · rcases h₂ with rfl | ⟨hsame, hx⟩
        · exact clearScheduled_obeys rfl fun _ _ => Or.inl rfl
        · refine clearScheduled_obeys hsame.isOwing fun hne _ => ?_
          exact absurd (hx x rfl).2 hne
      · rcases h₂ with rfl | ⟨hsame, -⟩
        · rfl
        · exact hsame.isOwing
  · exact hquiet fun h => absurd h hsession

/-- A kick may drop what it observed: it was armed before the debt, or the Goal it was told of pays
the debt. -/
def Entitled (d : Debt) (goal : ThreadGoalState) (observed : Option ℕ) (p : Standing) : Prop :=
  goal.sessionId = d.sessionId → d.Precedes observed ∨
    (goal.goalId = d.goalId ∧ d.epoch ≤ goal.updatedAt) ∧ (p = .aside ∨ p = .paid)

theorem Entitled.mono {goal : ThreadGoalState} {observed : Option ℕ}
    (h : Entitled d goal observed p) (hp : p.Onward p') : Entitled d goal observed p' := by
  intro hsession
  rcases h hsession with hprecedes | ⟨hcovers, rfl | rfl⟩
  · exact Or.inl hprecedes
  · exact Or.inr ⟨hcovers, hp⟩
  · exact Or.inr ⟨hcovers, Or.inr hp⟩

/-- A Turn that is started pays where the Goal does. -/
theorem start_obeys {goal : ThreadGoalState} {observed : Option ℕ} (hp : p.isOwing = false)
    (h : Entitled d goal observed p) : d.Obeys drains Done (do
      let started ← request
        (startContinuationTurn goal.sessionId (buildThreadGoalContinuationMessage goal))
      when (started.toOption = some .started)
        (request (clearScheduled goal.sessionId observed))) p := by
  refine obeys_ask (Debt.may_quiet trivial) fun started p' hturns => ?_
  have honward := hturns.onward trivial hp
  refine clearScheduled_obeys honward.isOwing fun hstarted hsession => ?_
  rcases h hsession with hprecedes | ⟨hcovers, rfl | rfl⟩
  · exact Or.inr hprecedes
  · left
    obtain ⟨-, rfl⟩ := hturns
    have hok : started = .ok .started := by
      rcases started with e | a
      · cases hstarted
      · exact congrArg _ (Option.some.inj hstarted)
    rw [Debt.next, if_pos ⟨hok, hcovers⟩]
  · exact Or.inl honward

theorem kick_obeys {goal : ThreadGoalState} {observed : Option ℕ} (hp : p.isOwing = false)
    (h : Entitled d goal observed p) : d.Obeys drains Done (kick goal observed) p := by
  refine Debt.obeys_request_bind (Debt.may_quiet trivial) fun busy p₁ hturns => ?_
  have h₁ := hturns.onward trivial hp
  cases busy with
  | true => exact h₁.isOwing
  | false =>
  have hkickoff : Quiet (if goal.kickoffState ≠ .consumed then reconcile goal true false
      else pure .consumed) := quiet_ite (quiet_reconcile goal true false) (quiet_pure _)
  refine Async.Obeys.bind (R := Done) (obeys_quiet hkickoff h₁.isOwing)
    (fun p₂ kickoffState h₂ => ?_) fun p₂ e h₂ => h₂.isOwing
  have h₂ := h₁.trans h₂
  split_ifs
  · exact h₂.isOwing
  refine Debt.obeys_request_bind (Debt.may_quiet trivial) fun pending p₃ hturns => ?_
  have h₃ := h₂.trans (hturns.onward trivial h₂.isOwing)
  cases pending with
  | true => exact h₃.isOwing
  | false =>
  refine Debt.obeys_request_bind (Debt.may_quiet trivial) fun pending p₄ hturns => ?_
  have h₄ := h₃.trans (hturns.onward trivial h₃.isOwing)
  cases pending with
  | true => exact h₄.isOwing
  | false =>
  refine Debt.obeys_request_bind (Debt.may_quiet trivial) fun required p₅ hturns => ?_
  have h₅ := h₄.trans (hturns.onward trivial h₄.isOwing)
  cases required with
  | true => exact h₅.isOwing
  | false =>
  refine Debt.obeys_request_bind (Debt.may_quiet trivial) fun prepared p₆ hturns => ?_
  have h₆ := h₅.trans (hturns.onward trivial h₅.isOwing)
  cases prepared with
  | error e => exact h₆.isOwing
  | ok a => exact start_obeys h₆.isOwing (h.mono h₆)

theorem maybeKick_obeys (goal : ThreadGoalState) (updated userPatch : Bool)
    (hp : p.isOwing = false) : d.Obeys drains Done (maybeKick goal updated userPatch) p := by
  refine Debt.obeys_request_bind (Debt.may_quiet trivial) fun enabled p₁ hturns => ?_
  have h₁ := (hturns.onward trivial hp).isOwing
  split_ifs
  · exact h₁
  · exact h₁
  by_cases hpaid : p₁ = .paid
  · subst hpaid
    exact Debt.obeys_paid (Q := Done) (fun _ => rfl) _
  refine Debt.obeys_request_bind (Debt.may_quiet trivial) fun observed p₂ hturns => ?_
  have h₂ := (hturns.onward trivial h₁).isOwing
  have hentitled : Entitled d goal observed p₂ := by
    intro hsession
    cases p₁ with
    | ahead =>
      rcases hturns.observed (Or.inl rfl) hsession with ⟨-, h⟩ | ⟨rfl, h | h⟩
      · exact Or.inl h
      · exact Or.inl h
      · exact Or.inr ⟨h goal rfl, Or.inl rfl⟩
    | aside =>
      rcases hturns.observed (Or.inr rfl) hsession with ⟨-, h⟩ | ⟨rfl, h | h⟩
      · exact Or.inl h
      · exact Or.inl h
      · exact Or.inr ⟨h goal rfl, Or.inl rfl⟩
    | owing k => cases h₁
    | paid => exact absurd rfl hpaid
  split_ifs with hrefresh
  · have hprecedes : d.Precedes observed := by
      obtain ⟨-, -, -, hnone⟩ := hrefresh
      rw [Option.isNone_iff_eq_none.1 hnone]
      exact nofun
    refine Async.Obeys.bind_attempt (obeys_quiet (quiet_refreshQueuedKickoff goal) h₂)
      fun p₃ r h₃ => ?_
    have h₃ := h₃.isOwing
    split
    · unfold Async.when
      split_ifs
      · exact kick_obeys h₃ fun _ => Or.inl hprecedes
      · exact h₃
    · exact h₃
  · exact kick_obeys h₂ hentitled

theorem injectObjectiveUpdatedSteering_obeys (goal : ThreadGoalState) (userPatch : Bool)
    (hp : p.isOwing = false) :
    d.Obeys drains Done (injectObjectiveUpdatedSteering goal userPatch) p := by
  refine Debt.obeys_request_bind (Debt.may_quiet trivial) fun enabled p₁ hturns => ?_
  have h₁ := (hturns.onward trivial hp).isOwing
  split_ifs
  · exact h₁
  refine Debt.obeys_request_bind (Debt.may_quiet trivial) fun turn p₂ hturns => ?_
  have h₂ := (hturns.onward trivial h₁).isOwing
  refine Async.Obeys.bind (R := Done) (obeys_quiet (quiet_canProbeActiveTurn goal) h₂)
    (fun p₃ probe h₃ => ?_) fun p₃ e h₃ => h₃.isOwing
  refine Debt.obeys_request_bind (Debt.may_quiet trivial) fun able p₄ hturns => ?_
  have h₄ := (hturns.onward trivial h₃.isOwing).isOwing
  split_ifs
  · refine Async.Obeys.bind (R := Done) (obeys_quiet (quiet_steer goal _) h₄)
      (fun p₅ steered h₅ => ?_) fun p₅ e h₅ => h₅.isOwing
    split_ifs
    · exact done_of_quiet (quiet_armUserPatch goal) h₅.isOwing
    · exact maybeKick_obeys goal true userPatch h₅.isOwing
  · exact maybeKick_obeys goal true userPatch h₄

theorem announce_obeys (goal : ThreadGoalState) (updated userPatch : Bool)
    (hp : p.isOwing = false) : d.Obeys drains Done (announce goal updated userPatch) p := by
  unfold announce
  split_ifs
  · exact done_of_quiet
      (quiet_bind (quiet_retire _ _ _) fun _ => quiet_consume goal) hp
  · exact maybeKick_obeys goal updated userPatch hp

theorem handleChanged_obeys (event : ThreadGoalChangedEvent) (hp : p.isOwing = false) :
    d.Obeys drains Done (handleChanged event) p := by
  refine Debt.obeys_request_bind (Debt.may_quiet trivial) fun enabled p₁ hturns => ?_
  have h₁ := (hturns.onward trivial hp).isOwing
  split_ifs
  · exact h₁
  cases event with
  | created goal => exact announce_obeys goal false false h₁
  | deleted goalId sessionId kickoffCancelled => exact done_of_quiet (quiet_retire _ _ _) h₁
  | updated goal objectiveChanged userPatch =>
    refine Async.Obeys.bind (R := Done)
      (obeys_quiet (quiet_when (quiet_armUserPatch goal)) h₁)
      (fun p₂ _ h₂ => ?_) fun p₂ e h₂ => h₂.isOwing
    split_ifs
    · exact injectObjectiveUpdatedSteering_obeys goal userPatch h₂.isOwing
    · exact announce_obeys goal true userPatch h₂.isOwing

/-! ### The drain -/

/-- What is rebuilt from a Goal that is read pays, or fails and leaves the debt. -/
abbrev Pays {α : Type} (r : Except Unit α) (p : Standing) : Prop :=
  p = .paid ∨ p.isOwing ∧ ∀ x, r ≠ .ok x

theorem enqueueKickoff_pays {goal : ThreadGoalState} (hgoal : d.IsGoal goal) (k : ℕ) :
    d.Obeys drains Pays (enqueueKickoff goal) (.owing k) := by
  refine obeys_call (c := preparePrompt goal) id (Debt.may_quiet trivial)
    (fun r _ p₁ hr hturns => ?_) fun r e p₁ hr hturns => ?_
  · obtain ⟨-, rfl⟩ : _ ∧ p₁ = .owing k := hturns
    refine obeys_call (c := enqueueInitialContinuationTurn goal _) id (Debt.may_quiet trivial)
      (fun r taken p₂ hr hturns => ?_) fun r e p₂ hr hturns => ?_
    · obtain ⟨hduring, rfl⟩ := hturns
      left
      have htaken : r = .ok true := by
        rcases taken with _ | _
        · exact absurd hr (hduring rfl)
        · exact hr
      rw [Debt.next, if_pos ⟨htaken, hgoal.paidBy.2⟩]
    · obtain rfl : r = .error e := hr
      obtain ⟨-, rfl⟩ := hturns
      exact Or.inr ⟨by simp [Debt.next, Standing.isOwing], nofun⟩
  · obtain ⟨-, rfl⟩ := hturns
    exact Or.inr ⟨rfl, nofun⟩

theorem deliverKickoff_pays {goal : ThreadGoalState} (hgoal : d.IsGoal goal) (dispatch : Bool)
    (k : ℕ) : d.Obeys drains Pays (deliverKickoff goal dispatch false) (.owing k) := by
  have henqueue : d.Obeys drains Pays (when (!false) (enqueueKickoff goal)) (.owing k) :=
    enqueueKickoff_pays hgoal k
  refine henqueue.bind (fun p₁ x h₁ => ?_) fun p₁ e h₁ => ?_
  · obtain rfl := h₁.resolve_right fun h => h.2 x rfl
    exact Debt.obeys_paid (fun _ => Or.inl rfl) _
  · exact h₁.imp id fun h => ⟨h.1, nofun⟩

/-- A kickoff not consumed is consumed, enqueued at the Goal's epoch, or the debt stands. -/
theorem reconcile_pays {goal : ThreadGoalState} (hgoal : d.IsGoal goal)
    (hkickoff : goal.kickoffState ≠ .consumed) :
    d.Obeys drains (fun r p' => p' = .paid ∨ p'.isOwing ∧
      ∀ x, r = .ok x → x = .consumed ∧ p' = .owing 2)
      (reconcile goal true true) (.owing goal.kickoffState.rank) := by
  have hdeliver (queued : Bool) (hqueued : queued = false) {k : ℕ} :
      d.Obeys drains (fun r p' => p' = .paid ∨ p'.isOwing ∧
        ∀ x, r = .ok x → x = .consumed ∧ p' = .owing 2)
        (deliverKickoff goal true queued) (.owing k) := by
    subst hqueued
    exact (deliverKickoff_pays hgoal true k).mono fun r p' h =>
      h.imp id fun h => ⟨h.1, fun x hx => absurd hx (h.2 x)⟩
  refine obeys_call (c := hasPendingInitialContinuation _ _ _) id (Debt.may_quiet trivial)
    (fun r queued p₁ hr hturns => ?_) fun r e p₁ hr hturns => ?_
  · obtain ⟨-, rfl⟩ : _ ∧ p₁ = .owing goal.kickoffState.rank := hturns
    have hnot : ¬(goal.status = .complete ∨ goal.kickoffState = .consumed) := by
      simp [hgoal.status, hkickoff]
    rw [if_neg hnot]
    refine Debt.obeys_request_bind (Debt.may_quiet trivial) fun awaiting p₂ hturns => ?_
    obtain ⟨-, rfl⟩ : _ ∧ p₂ = .owing goal.kickoffState.rank := hturns
    split_ifs with hconsume hrefresh
    · obtain ⟨henqueued, -, -⟩ := hconsume
      have hconsume : consume goal = orThrow (request (transitionKickoffState goal.sessionId
          goal.goalId goal.kickoffState .consumed)) := if_pos hkickoff
      rw [hconsume]
      refine obeys_call (c := transitionKickoffState _ _ _ _) id
        (Debt.may_quiet goal.kickoffState.rank_le)
        (fun r _ p₃ hr hturns => ?_) fun r e p₃ hr hturns => ?_
      · obtain ⟨-, rfl⟩ := hturns
        obtain rfl : r = .ok () := hr
        have hnext : d.next (transitionKickoffState goal.sessionId goal.goalId goal.kickoffState
            .consumed) (.ok ()) (.owing goal.kickoffState.rank) = .owing 2 := by
          simp [Debt.next, hgoal.sessionId, hgoal.goalId, henqueued, ThreadGoalKickoffState.rank]
        rw [hnext]
        exact Or.inr ⟨rfl, fun x hx => ⟨(Except.ok.inj hx).symm, rfl⟩⟩
      · obtain ⟨-, rfl⟩ := hturns
        obtain rfl : r = .error e := hr
        exact Or.inr ⟨rfl, nofun⟩
    · refine obeys_call (c := cancelInitialContinuation _ _) id (Debt.may_quiet trivial)
        (fun r _ p₃ hr hturns => ?_) fun r e p₃ hr hturns => ?_
      · obtain ⟨-, rfl⟩ : _ ∧ p₃ = .owing goal.kickoffState.rank := hturns
        refine Debt.obeys_request_bind (Debt.may_quiet trivial) fun _ p₄ hturns => ?_
        obtain ⟨-, rfl⟩ : _ ∧ p₄ = .owing goal.kickoffState.rank := hturns
        refine obeys_call (c := hasPendingInitialContinuation _ _ _) id (Debt.may_quiet trivial)
          (fun r queued p₅ hr hturns => ?_) fun r e p₅ hr hturns => ?_
        · obtain ⟨hduring, rfl⟩ := hturns
          have hqueued : queued = false := by
            cases queued with
            | false => rfl
            | true => exact absurd hr (hduring rfl rfl)
          exact hdeliver queued hqueued
        · obtain ⟨-, rfl⟩ := hturns
          exact Or.inr ⟨rfl, nofun⟩
      · obtain ⟨-, rfl⟩ := hturns
        exact Or.inr ⟨rfl, nofun⟩
    · have hqueued : queued = false := by simpa [hgoal.status] using hrefresh
      exact hdeliver queued hqueued
  · obtain ⟨-, rfl⟩ := hturns
    exact Or.inr ⟨rfl, nofun⟩

/-- A Goal that is read, and how the call stands to its kickoff. -/
theorem Debt.Turns.owing_read {sessionId : String} (observed : Option ThreadGoalState)
    {row : Option ThreadGoalState} {k : ℕ}
    (h : d.Turns (.getBySession sessionId observed) (.owing k) (.ok row) p')
    (hsession : sessionId = d.sessionId) : ∃ goal, row = some goal ∧ d.IsGoal goal ∧
      p' = .owing goal.kickoffState.rank ∧ k ≤ goal.kickoffState.rank ∧
        ∀ earlier, observed = some earlier → goal.goalId = earlier.goalId →
          goal.kickoffState ≠ .consumed := by
  obtain ⟨goal, hrow, hgoal, -, hkickoff⟩ := h.read trivial hsession
  exact ⟨goal, hrow, hgoal, hkickoff k rfl⟩

theorem Debt.Turns.owing_error {sessionId : String} (observed : Option ThreadGoalState) {k : ℕ}
    {e : Unit} (h : d.Turns (.getBySession sessionId observed) (.owing k) (.error e) p') :
    p' = .owing k := h.2

/-- A refresh pays, fails, or finds the kickoff consumed. -/
theorem refresh_pays {observed : ThreadGoalState} (hsession : observed.sessionId = d.sessionId)
    (hgoal : observed.goalId = d.goalId) (k : ℕ) :
    d.Obeys drains (fun r p' => p' = .paid ∨ p'.isOwing ∧ ∀ x, r = .ok x →
      ∃ goal, x = some goal ∧ goal.kickoffState = .consumed ∧ goal.status = .active)
      (refresh observed) (.owing k) := by
  refine obeys_call (c := getBySession observed.sessionId (some observed)) id
    (Debt.may_quiet trivial) (fun r row p₁ hr hturns => ?_) fun r e p₁ hr hturns => ?_
  · obtain rfl : r = .ok row := hr
    obtain ⟨current, rfl, hcurrent, rfl, -, hkickoff⟩ :=
      Debt.Turns.owing_read (some observed) hturns hsession
    have hconsumed := hkickoff observed rfl (hcurrent.goalId.trans hgoal.symm)
    have hnot : ¬(current.goalId ≠ observed.goalId ∨ current.status ≠ .active ∨
        current.kickoffState = .consumed) := by
      simp [hcurrent.goalId, hgoal, hcurrent.status, hconsumed]
    dsimp only
    rw [if_neg hnot]
    refine (reconcile_pays hcurrent hconsumed).bind
      (fun p₂ x h₂ => ?_) fun p₂ e h₂ => ?_
    · rcases h₂ with rfl | ⟨-, hx⟩
      · exact Debt.obeys_paid (fun _ => Or.inl rfl) _
      · obtain ⟨-, rfl⟩ := hx x rfl
        refine obeys_call (c := getBySession observed.sessionId none) id (Debt.may_quiet trivial)
          (fun r row p₃ hr hturns => ?_) fun r e p₃ hr hturns => ?_
        · obtain rfl : r = .ok row := hr
          obtain ⟨goal, rfl, hgoal', rfl, hrank, -⟩ :=
            Debt.Turns.owing_read none hturns hsession
          have hsame : goal.goalId = observed.goalId := hgoal'.goalId.trans hgoal.symm
          refine Or.inr ⟨rfl, fun x hx => ⟨goal, ?_, ?_, hgoal'.status⟩⟩
          · rw [← Except.ok.inj hx]
            simp [Option.filter, hsame]
          · cases hstate : goal.kickoffState with
            | consumed => rfl
            | pending => simp [hstate, ThreadGoalKickoffState.rank] at hrank
            | enqueued => simp [hstate, ThreadGoalKickoffState.rank] at hrank
        · obtain rfl : r = .error e := hr
          obtain rfl := Debt.Turns.owing_error none hturns
          exact Or.inr ⟨rfl, fun x hx => absurd hx (by simp)⟩
    · exact h₂.imp id fun h => ⟨h.1, fun x hx => absurd hx (by simp)⟩
  · obtain rfl : r = .error e := hr
    obtain rfl := Debt.Turns.owing_error (some observed) hturns
    exact Or.inr ⟨rfl, fun x hx => absurd hx (by simp)⟩

theorem refreshQueuedKickoff_pays {observed : ThreadGoalState}
    (hsession : observed.sessionId = d.sessionId) (hgoal : observed.goalId = d.goalId) (k : ℕ) :
    d.Obeys drains (fun r p' => p' = .paid ∨ p'.isOwing ∧ ∀ x, r = .ok x →
      ∃ goal, x = some goal ∧ goal.kickoffState = .consumed ∧ goal.status = .active)
      (refreshQueuedKickoff observed) (.owing k) := by
  refine Debt.obeys_request_bind (Debt.may_quiet trivial) fun joined p₁ hturns => ?_
  obtain ⟨-, rfl⟩ : _ ∧ p₁ = .owing k := hturns
  refine Debt.obeys_request_bind (Debt.may_quiet trivial) fun _ p₂ hturns => ?_
  obtain ⟨-, rfl⟩ : _ ∧ p₂ = .owing k := hturns
  refine Async.Obeys.bind_attempt (refresh_pays hsession hgoal k) fun p₃ r h₃ => ?_
  refine Debt.obeys_request_bind (Debt.may_quiet trivial) fun _ p₄ hturns => ?_
  rcases h₃ with rfl | ⟨howing, hr⟩
  · exact Or.inl hturns
  · cases p₃ with
    | owing j =>
      obtain ⟨-, rfl⟩ : _ ∧ p₄ = .owing j := hturns
      exact Or.inr ⟨rfl, hr⟩
    | ahead => cases howing
    | aside => cases howing
    | paid => cases howing

/-- What is rebuilt for a marker of the debt pays or fails. -/
theorem rebuild_pays {sessionId turnId : String} {armed : ArmedRearm}
    (hsession : sessionId = d.sessionId) (hgoal : armed.goalId = d.goalId) (k : ℕ) :
    d.Obeys drains Pays (rebuild sessionId turnId armed) (.owing k) := by
  have hsubmit (j : ℕ) : d.Obeys drains Pays
      (do let _ ← submitActiveContinuation sessionId turnId true) (.owing j) := by
    refine (submit_pays (p := .owing j) hsession trivial).bind (fun p₁ x h₁ => ?_) fun p₁ e h₁ => ?_
    · exact Or.inl (h₁.resolve_right fun h => absurd (h.2 x rfl).1 (by simp [Standing.isOwing]))
    · exact h₁.imp id fun h => ⟨h.1.isOwing, fun x hx => absurd hx (by simp)⟩
  refine obeys_call (c := getBySession sessionId none) id (Debt.may_quiet trivial)
    (fun r row p₁ hr hturns => ?_) fun r e p₁ hr hturns => ?_
  · obtain rfl : r = .ok row := hr
    obtain ⟨goal, rfl, hread, rfl, -, -⟩ :=
      Debt.Turns.owing_read none hturns hsession
    have hfilter : (some goal).filter (fun goal => goal.goalId = armed.goalId &&
        isContinuationStatus goal.status) = some goal := by
      simp [Option.filter, isContinuationStatus, hread.status, hread.goalId, hgoal]
    rw [hfilter]
    dsimp only
    split_ifs with hkickoff
    · refine (refreshQueuedKickoff_pays (hread.sessionId) hread.goalId _).bind
        (fun p₂ x h₂ => ?_) fun p₂ e h₂ => ?_
      · rcases h₂ with rfl | ⟨howing, hx⟩
        · exact Debt.obeys_paid (fun _ => Or.inl rfl) _
        · obtain ⟨goal', rfl, hconsumed, hstatus⟩ := hx x rfl
          have hfilter : (some goal').filter (fun goal => goal.kickoffState = .consumed &&
              isContinuationStatus goal.status) = some goal' := by
            simp [Option.filter, isContinuationStatus, hconsumed, hstatus]
          rw [hfilter]
          cases p₂ with
          | owing j => exact hsubmit j
          | ahead => cases howing
          | aside => cases howing
          | paid => cases howing
      · exact h₂.imp id fun h => ⟨h.1, fun x hx => absurd hx (by simp)⟩
    · exact hsubmit _
  · obtain rfl : r = .error e := hr
    obtain rfl := Debt.Turns.owing_error none hturns
    exact Or.inr ⟨rfl, fun x hx => absurd hx (by simp)⟩

/-- What a drain goes on to from where it claimed a marker. -/
def Claimed (d : Debt) (sessionId : String) (claimed : Option ArmedRearm) (p : Standing) : Prop :=
  (p = .owing 0 ∧ sessionId = d.sessionId ∧
      ∃ armed, claimed = some armed ∧ d.generation ≤ armed.generation ∧ armed.goalId = d.goalId) ∨
    p.isOwing = false ∧ (sessionId = d.sessionId → p ≠ .paid →
      ∀ armed, claimed = some armed → armed.generation < d.generation)

theorem Debt.Turns.claimed {sessionId : String} {claimed : Option ArmedRearm}
    (h : d.Turns (.claim sessionId) p claimed p') (hp : p = .ahead ∨ p = .aside) :
    Claimed d sessionId claimed p' := by
  have hduring (h : d.During (.claim sessionId) claimed .aside) :
      Claimed d sessionId claimed (d.next (.claim sessionId) claimed .aside) := by
    simp only [Debt.next]
    split_ifs with hclaimed
    · obtain ⟨hsession, armed, hr, hle⟩ := hclaimed
      exact Or.inl ⟨rfl, hsession, armed, hr, hle, h hsession armed hr hle⟩
    · refine Or.inr ⟨rfl, fun hsession _ armed hr => ?_⟩
      by_contra hle
      exact hclaimed ⟨hsession, armed, hr, by omega⟩
  rcases hp with rfl | rfl
  · rcases h with ⟨hbefore, rfl⟩ | ⟨h, rfl⟩
    · exact Or.inr ⟨rfl, fun hsession _ => hbefore hsession⟩
    · exact hduring h
  · obtain ⟨h, rfl⟩ := h
    exact hduring h

/-- A marker is restored that was armed before the debt. -/
theorem restore_obeys {sessionId : String} {armed : ArmedRearm} {error : Unit}
    (hp : p.isOwing = false)
    (h : sessionId = d.sessionId → p ≠ .paid → armed.generation < d.generation) :
    d.Obeys drains Done (do
      request (restore sessionId armed)
      raise error : ContinuationM Unit) p := by
  refine Debt.obeys_request_bind ?_ fun r p' hturns => ?_
  · cases p with
    | ahead => exact fun hsession => h hsession nofun
    | aside => exact fun hsession => h hsession nofun
    | owing k => cases hp
    | paid => trivial
  · cases p with
    | ahead => rcases hturns with ⟨-, rfl⟩ | ⟨-, rfl⟩ <;> exact rfl
    | aside =>
      obtain ⟨-, rfl⟩ := hturns
      exact rfl
    | owing k => cases hp
    | paid =>
      obtain rfl : p' = .paid := hturns
      exact rfl

theorem drain_obeys (sessionId turnId : String) (hp : p = .ahead ∨ p = .aside) :
    d.Obeys true Done (drain sessionId turnId) p := by
  have hmay : d.May true (.claim sessionId) p := by rcases hp with rfl | rfl <;> rfl
  refine Debt.obeys_request_bind hmay fun claimed p₁ hturns => ?_
  have hclaimed := hturns.claimed hp
  cases claimed with
  | none =>
    rcases hclaimed with ⟨-, -, armed, hr, -⟩ | ⟨hfree, -⟩
    · cases hr
    · exact hfree
  | some armed =>
    rcases hclaimed with ⟨rfl, hsession, _, ⟨rfl⟩, hle, hgoal⟩ | ⟨hfree, hprecedes⟩
    · refine Async.Obeys.bind_attempt (rebuild_pays hsession hgoal 0) fun p₂ r h₂ => ?_
      rcases h₂ with rfl | ⟨howing, hr⟩
      · exact Debt.obeys_paid (Q := Done) (fun _ => rfl) _
      · cases r with
        | ok x => exact absurd rfl (hr x)
        | error e =>
          cases p₂ with
          | owing k =>
            refine Debt.obeys_request_bind (fun _ => ⟨hle, hgoal⟩) fun _ p₃ hturns => ?_
            obtain ⟨-, rfl⟩ := hturns
            simp only [Debt.next, if_pos hsession]
            exact rfl
          | ahead => cases howing
          | aside => cases howing
          | paid => cases howing
    · refine Async.Obeys.bind_attempt (obeys_quiet (quiet_rebuild sessionId turnId armed) hfree)
        fun p₂ r h₂ => ?_
      cases r with
      | ok x => exact h₂.isOwing
      | error e =>
        exact restore_obeys h₂.isOwing fun hsession hpaid =>
          hprecedes hsession (fun hp₁ => hpaid (by subst hp₁; exact h₂)) armed rfl

theorem run_obeys (call : ContinuationCall) (hp : p = .ahead ∨ p = .aside) :
    d.Obeys call.isDrain Done call.run p := by
  have hfree : p.isOwing = false := by rcases hp with rfl | rfl <;> rfl
  cases call with
  | armUserPatch goal => exact done_of_quiet (quiet_armUserPatch goal) hfree
  | armExplicitReset goal => exact done_of_quiet (quiet_when (quiet_request trivial)) hfree
  | drain sessionId turnId => exact drain_obeys sessionId turnId hp
  | enqueueActive sessionId turnId => exact enqueueActive_obeys sessionId turnId hp
  | handleChanged event => exact handleChanged_obeys event hfree
  | reconcileInitial goal dispatch =>
    exact done_of_quiet (quiet_bind (quiet_reconcile goal dispatch false) fun _ => quiet_pure _)
      hfree
  | consumeDelivered goal => exact done_of_quiet (quiet_consumeDelivered goal) hfree

end Calls

end Kinetick.Goal
