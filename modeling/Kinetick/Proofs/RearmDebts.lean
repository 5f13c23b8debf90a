import Kinetick.Proofs.RearmCalls

/-!
# Debts over a run

Each arm that is noted is a debt. Before the arm takes place every call obeys from ahead. Once it
did, the debt is settled (its Goal was inactive since, or a message was handed over) or covered:
the Goal is active, each call stands aside or owes, and a marker or a call that owes is there for
it. Steps with good answers keep that, so no debt is lost (`rearmDebtKept`).
-/

namespace Kinetick.Goal

open Continuation ContinuationAsk Async

def ArmNote.debt (a : ArmNote) : Debt := ⟨a.sessionId, a.goalId, a.epoch, a.generation⟩

/-! ### What an answer leaves -/

namespace ContinuationState

variable (s : ContinuationState) (c : ContinuationAsk) (r : c.Reply)

theorem transitionKickoff_fields (sessionId goalId : String)
    (expected next : ThreadGoalKickoffState) :
    (s.transitionKickoff sessionId goalId expected next).generations = s.generations ∧
      (s.transitionKickoff sessionId goalId expected next).pending = s.pending ∧
      (s.transitionKickoff sessionId goalId expected next).arms = s.arms := by
  unfold transitionKickoff
  split
  · split_ifs <;> exact ⟨rfl, rfl, rfl⟩
  · exact ⟨rfl, rfl, rfl⟩

theorem answered_generations :
    (s.answered c r).generations = s.generations ∨
      ∃ goal, c = .arm goal ∧ (s.answered c r).generations = s.generations + 1 := by
  cases c
  case arm goal => exact Or.inr ⟨goal, rfl, rfl⟩
  case transitionKickoffState =>
    left
    dsimp only [answered]
    split_ifs
    · exact (s.transitionKickoff_fields _ _ _ _).1
    · rfl
  all_goals first | exact Or.inl rfl | (left; dsimp only [answered]; split_ifs <;> rfl)

/-- A marker that is there was there, or is restored or armed. -/
theorem answered_pending {sessionId : String} {armed : ArmedRearm}
    (h : (s.answered c r).pending sessionId = some armed) :
    s.pending sessionId = some armed ∨ c = .restore sessionId armed ∨
      ∃ goal, c = .arm goal ∧ goal.sessionId = sessionId ∧
        armed = ⟨goal.goalId, s.generations + 1⟩ := by
  have hcleared (other : String)
      (h : Function.update s.pending other none sessionId = some armed) :
      s.pending sessionId = some armed := by
    by_cases hother : sessionId = other
    · subst hother
      simp at h
    · rwa [Function.update_of_ne hother] at h
  cases c
  case clear other => exact Or.inl (hcleared other h)
  case claim other => exact Or.inl (hcleared other h)
  case clearScheduled other observed =>
    dsimp only [answered] at h
    split_ifs at h
    · exact Or.inl (hcleared other h)
    · exact Or.inl h
  case arm goal =>
    by_cases hother : sessionId = goal.sessionId
    · subst hother
      refine Or.inr (Or.inr ⟨goal, rfl, rfl, ?_⟩)
      simpa [answered, arm, eq_comm] using h
    · left
      simpa [answered, arm, Function.update_of_ne hother] using h
  case restore other armed' =>
    dsimp only [answered] at h
    split_ifs at h
    · exact Or.inl h
    · by_cases hother : sessionId = other
      · subst hother
        obtain rfl : armed' = armed := by simpa using h
        exact Or.inr (Or.inl rfl)
      · exact Or.inl (by simpa [Function.update_of_ne hother] using h)
  case transitionKickoffState =>
    dsimp only [answered] at h
    split_ifs at h
    · rw [(s.transitionKickoff_fields _ _ _ _).2.1] at h
      exact Or.inl h
    · exact Or.inl h
  all_goals first | exact Or.inl h | (left; dsimp only [answered] at h; split_ifs at h <;> exact h)

/-- A note that is there was there, heard at most of a message, or is of the arm. -/
theorem answered_arms {a : ArmNote} (h : a ∈ (s.answered c r).arms) :
    (∃ b ∈ s.arms, b.debt = a.debt ∧ b.active = a.active ∧ (b.handed → a.handed)) ∨
      ∃ goal, c = .arm goal ∧
        a.debt = ⟨goal.sessionId, goal.goalId, goal.updatedAt, s.generations + 1⟩ ∧
        a.active = hasActive s.goals goal.sessionId goal.goalId := by
  have hsame (h : a ∈ s.arms) :
      ∃ b ∈ s.arms, b.debt = a.debt ∧ b.active = a.active ∧ (b.handed → a.handed) :=
    ⟨a, h, rfl, rfl, id⟩
  have hhand (message : GoalMessage) (h : a ∈ (s.hand message).arms) :
      ∃ b ∈ s.arms, b.debt = a.debt ∧ b.active = a.active ∧ (b.handed → a.handed) := by
    obtain ⟨b, hb, rfl⟩ := List.mem_map.1 h
    exact ⟨b, hb, rfl, rfl, fun hb => by simp [ArmNote.hear, hb]⟩
  cases c
  case arm goal =>
    rcases List.mem_append.1 h with h | h
    · exact Or.inl (hsame h)
    · obtain rfl := List.mem_singleton.1 h
      exact Or.inr ⟨goal, rfl, rfl, rfl⟩
  case transitionKickoffState =>
    dsimp only [answered] at h
    split_ifs at h
    · rw [(s.transitionKickoff_fields _ _ _ _).2.2] at h
      exact Or.inl (hsame h)
    · exact Or.inl (hsame h)
  all_goals first
    | exact Or.inl (hsame h)
    | (left; dsimp only [answered] at h; split_ifs at h <;> first | exact hsame h | exact hhand _ h)

/-- The row of a Session stays, but for the kickoff that is moved. -/
theorem answered_goals (sessionId : String) :
    (s.answered c r).goals sessionId = s.goals sessionId ∨
      ∃ goal next, s.goals sessionId = some goal ∧
        c = .transitionKickoffState sessionId goal.goalId goal.kickoffState next ∧
        (s.answered c r).goals sessionId = some { goal with kickoffState := next } := by
  cases c
  case transitionKickoffState other goalId expected next =>
    dsimp only [answered, transitionKickoff]
    split_ifs
    · split
      · rename_i goal hgoal
        split_ifs with hmoves
        · obtain ⟨rfl, rfl⟩ := hmoves
          by_cases hother : sessionId = other
          · subst hother
            exact Or.inr ⟨goal, next, hgoal, rfl, by simp⟩
          · exact Or.inl (by simp [Function.update_of_ne hother])
        · exact Or.inl rfl
      · exact Or.inl rfl
    · exact Or.inl rfl
  all_goals first | exact Or.inl rfl | (left; dsimp only [answered]; split_ifs <;> rfl)

end ContinuationState

namespace Debt

variable (d : Debt)

/-- How an open call stands to a debt that stands. -/
structure StandsAt (goal : ThreadGoalState) (entry : OpenCall) (p : Standing) : Prop where
  stands : p.Stands
  obeys : d.Obeys entry.call.isDrain Done entry.rest p
  drains : p.isOwing → entry.call.isDrain
  kickoff : ∀ k, p = .owing k → k ≤ goal.kickoffState.rank

/-- Nothing is owed for the arm any more. -/
def Settled (s : ContinuationState) : Prop := ∀ a ∈ s.arms, a.debt = d → a.active → a.handed

/-- A marker is there for the debt. -/
def Armed (s : ContinuationState) : Prop :=
  ∃ armed, s.pending d.sessionId = some armed ∧ d.generation ≤ armed.generation

/-- The debt stands, and someone will pay it. -/
structure Covered (s : ContinuationState) (goal : ThreadGoalState) : Prop where
  row : s.goals d.sessionId = some goal
  isGoal : d.IsGoal goal
  marker : ∀ armed, s.pending d.sessionId = some armed → d.generation ≤ armed.generation →
    armed.goalId = d.goalId
  calls : ∀ (i : ℕ) entry, s.calls[i]? = some entry → ∃ p, d.StandsAt goal entry p
  someone : d.Armed s ∨ ∃ (i : ℕ) (entry : OpenCall) (p : Standing), s.calls[i]? = some entry ∧
    d.StandsAt goal entry p ∧ p.isOwing

/-- The arm did not take place yet. -/
structure Awaited (s : ContinuationState) : Prop where
  generations : s.generations < d.generation
  arms : ∀ a ∈ s.arms, a.generation < d.generation
  marker : ∀ armed, s.pending d.sessionId = some armed → armed.generation < d.generation
  rows : ∀ goal, s.goals d.sessionId = some goal → goal.sessionId = d.sessionId
  calls : ∀ (i : ℕ) entry, s.calls[i]? = some entry →
    d.Obeys entry.call.isDrain Done entry.rest .ahead

/-- Where a debt is in a run. -/
def Kept (s : ContinuationState) : Prop :=
  d.Awaited s ∨ d.generation ≤ s.generations ∧ (d.Settled s ∨ ∃ goal, d.Covered s goal)

variable {d}

/-- A call that awaits the arm does what it may once the arm took place. -/
theorem obeys_aside {α : Type} {drains : Bool} {m : ContinuationM α}
    (h : d.Obeys drains Done m .ahead) : d.Obeys drains Done m .aside := by
  cases m with
  | ret r => exact rfl
  | ask c next =>
    refine ⟨?_, fun r p' hturns => h.2 r p' (Or.inr hturns)⟩
    cases c <;> exact h.1

theorem standsAt_aside {goal : ThreadGoalState} {entry : OpenCall}
    (h : d.Obeys entry.call.isDrain Done entry.rest .aside) : d.StandsAt goal entry .aside :=
  ⟨trivial, h, nofun, nofun⟩

theorem StandsAt.mono {goal goal' : ThreadGoalState} {entry : OpenCall} {p : Standing}
    (h : d.StandsAt goal entry p) (hkickoff : goal.kickoffState.rank ≤ goal'.kickoffState.rank) :
    d.StandsAt goal' entry p :=
  ⟨h.stands, h.obeys, h.drains, fun k hk => (h.kickoff k hk).trans hkickoff⟩

/-! ### Answers before the arm -/

section Reply

variable {s : ContinuationState} {i : ℕ} {entry : OpenCall} {c : ContinuationAsk}
  {next : c.Reply → ContinuationM Unit} {r : c.Reply}

theorem Awaited.before (h : d.Awaited s) (hr : s.Answers c r) : d.Before c r := by
  cases c with
  | observe sessionId kicked =>
    rintro rfl generation hgeneration
    obtain rfl : r = (s.pending d.sessionId).map ArmedRearm.generation := hr
    obtain ⟨armed, harmed, rfl⟩ := Option.map_eq_some_iff.1 hgeneration
    exact h.marker armed harmed
  | claim sessionId =>
    rintro rfl armed harmed
    obtain rfl : r = s.pending d.sessionId := hr
    exact h.marker armed harmed
  | _ => trivial

/-- A call of the list with one replaced. -/
theorem getElem?_set_cases {calls : List OpenCall} {j : ℕ} {new entry' : OpenCall}
    (h : (calls.set i new)[j]? = some entry') : entry' = new ∨ j ≠ i ∧ calls[j]? = some entry' := by
  rw [List.getElem?_set] at h
  split_ifs at h with hij hlt
  · exact Or.inl (Option.some.inj h).symm
  · exact Or.inr ⟨fun hji => hij hji.symm, h⟩

/-- The state once the call at the place goes on by the answer. -/
abbrev replied (s : ContinuationState) (i : ℕ) (entry : OpenCall) (c : ContinuationAsk)
    (next : c.Reply → ContinuationM Unit) (r : c.Reply) : ContinuationState :=
  { s.answered c r with calls := s.calls.set i ⟨entry.call, next r⟩ }

theorem Awaited.reply (h : d.Awaited s) (hentry : s.calls[i]? = some entry)
    (hrest : entry.rest = .ask c next) (hr : s.Answers c r)
    (hgood : GoodAnswer s entry.call c r) : d.Kept (replied s i entry c next r) := by
  have hobeys := h.calls i entry hentry
  rw [hrest] at hobeys
  obtain ⟨hmay, hnext⟩ := hobeys
  have hcalls : ∀ (j : ℕ) entry', (s.calls.set i ⟨entry.call, next r⟩)[j]? = some entry' →
      d.Obeys entry'.call.isDrain Done entry'.rest .ahead := by
    intro j entry' hentry'
    rcases getElem?_set_cases hentry' with rfl | ⟨-, hentry'⟩
    · exact hnext r .ahead (Or.inl ⟨h.before hr, rfl⟩)
    · exact h.calls j entry' hentry'
  by_cases hlt : (s.answered c r).generations < d.generation
  · refine Or.inl ⟨hlt, fun a ha => ?_, fun armed harmed => ?_, fun goal hgoal => ?_, hcalls⟩
    · rcases s.answered_arms c r ha with ⟨b, hb, hdebt, -⟩ | ⟨goal, rfl, hdebt, -⟩
      · rw [show a.generation = b.generation from congrArg Debt.generation hdebt.symm]
        exact h.arms b hb
      · rw [show a.generation = s.generations + 1 from congrArg Debt.generation hdebt]
        exact hlt
    · rcases s.answered_pending c r harmed with harmed | rfl | ⟨goal, rfl, -, rfl⟩
      · exact h.marker armed harmed
      · exact hmay rfl
      · exact hlt
    · rcases s.answered_goals c r d.sessionId with hgoals | ⟨goal', _, hgoal', -, hgoals⟩
      · exact h.rows goal (hgoals ▸ hgoal)
      · obtain rfl := Option.some.inj (hgoals.symm.trans hgoal)
        exact h.rows goal' hgoal'
  · have hgenerations := h.generations
    obtain hsame | ⟨goal, rfl, hnew⟩ := s.answered_generations c r
    · omega
    refine Or.inr ⟨Nat.le_of_not_lt hlt, ?_⟩
    by_cases hsettled : d.Settled (replied s i entry (.arm goal) next r)
    · exact Or.inl hsettled
    right
    simp only [Settled, not_forall] at hsettled
    obtain ⟨a, ha, hdebt, hactive, -⟩ := hsettled
    rcases s.answered_arms (.arm goal) r ha with ⟨b, hb, hb', -⟩ | ⟨_, ⟨rfl⟩, hdebt', hactive'⟩
    · have := h.arms b hb
      rw [show b.generation = d.generation from congrArg Debt.generation (hb'.trans hdebt)] at this
      omega
    obtain rfl : _ = d := hdebt'.symm.trans hdebt
    rw [hactive'] at hactive
    obtain ⟨row, hrow, hmatch⟩ := (Option.any_eq_true _ _).1 hactive
    obtain ⟨hid, hstatus⟩ : row.goalId = goal.goalId ∧ row.status = .active := by
      simpa using hmatch
    refine ⟨row, hrow, ⟨h.rows row hrow, hid, hstatus, (hgood row hrow hstatus).2⟩, ?_, ?_, ?_⟩
    · intro armed harmed hle
      rcases s.answered_pending (.arm goal) r harmed with harmed | h | ⟨_, ⟨rfl⟩, -, rfl⟩
      · exact absurd (h.marker armed harmed) (Nat.not_lt.2 hle)
      · cases h
      · rfl
    · exact fun j entry' hentry' => ⟨_, standsAt_aside (obeys_aside (hcalls j entry' hentry'))⟩
    · exact Or.inl ⟨⟨goal.goalId, s.generations + 1⟩, by simp [ContinuationState.answered,
        ContinuationState.arm], le_rfl⟩

/-- What is answered while the debt stands. -/
theorem Covered.during {goal : ThreadGoalState} {p : Standing} (h : d.Covered s goal)
    (hp : d.StandsAt goal entry p) (hr : s.Answers c r) (hgood : GoodAnswer s entry.call c r) :
    d.During c r p := by
  cases c with
  | observe sessionId kicked =>
    rintro rfl generation hgeneration hle goal' rfl
    obtain rfl : r = (s.pending d.sessionId).map ArmedRearm.generation := hr
    obtain ⟨armed, harmed, -⟩ := Option.map_eq_some_iff.1 hgeneration
    obtain ⟨hid, hepoch⟩ := hgood (by simp [harmed]) goal h.row h.isGoal.status
    exact ⟨hid.symm.trans h.isGoal.goalId, h.isGoal.epoch.trans hepoch⟩
  | claim sessionId =>
    rintro rfl armed harmed
    obtain rfl : r = s.pending d.sessionId := hr
    exact h.marker armed harmed
  | getBySession sessionId observed =>
    rintro rfl row rfl
    obtain rfl : row = s.goals d.sessionId := hr row rfl
    refine ⟨goal, h.row, h.isGoal, fun k hk => ⟨hp.kickoff k hk, ?_⟩⟩
    rintro earlier rfl hid
    exact hgood (hp.drains (by rw [hk]; rfl)) goal h.row hid h.isGoal.status
  | hasPendingInitialContinuation sessionId goalId cancelled =>
    intro howing hcancelled hr
    exact hgood (hp.drains howing) hcancelled (by rw [hr]; rfl)
  | enqueueInitialContinuationTurn goal' message =>
    intro howing hr
    exact hgood (hp.drains howing) (by rw [hr]; rfl)
  | hasPostTurnQueue => exact fun howing => hgood (hp.drains howing)
  | _ => trivial

/-- The row after an answer is the Goal's still, its kickoff no earlier. -/
theorem Covered.row_answered {goal : ThreadGoalState} {drains : Bool} {p : Standing}
    (h : d.Covered s goal) (hp : p.Stands) (hmay : d.May drains c p) (r : c.Reply) :
    ∃ goal', (s.answered c r).goals d.sessionId = some goal' ∧ d.IsGoal goal' ∧
      goal.kickoffState.rank ≤ goal'.kickoffState.rank := by
  rcases s.answered_goals c r d.sessionId with hgoals | ⟨goal', kickoff, hgoal', rfl, hgoals⟩
  · exact ⟨goal, hgoals.trans h.row, h.isGoal, le_rfl⟩
  · obtain rfl := Option.some.inj (h.row.symm.trans hgoal')
    refine ⟨_, hgoals, ⟨h.isGoal.sessionId, h.isGoal.goalId, h.isGoal.status, h.isGoal.epoch⟩, ?_⟩
    cases p with
    | ahead => cases hp
    | aside => exact hmay
    | owing k => exact hmay
    | paid => cases hp

/-- A call that owes nothing goes on so, or claims the marker. -/
theorem next_of_aside (hunpaid : d.next c r .aside ≠ .paid) :
    d.next c r .aside = .aside ∨ d.next c r .aside = .owing 0 ∧ ∃ sessionId, c = .claim sessionId := by
  cases c
  case claim sessionId =>
    simp only [Debt.next]
    split_ifs
    · exact Or.inr ⟨rfl, sessionId, rfl⟩
    · exact Or.inl rfl
  all_goals first | exact Or.inl rfl | skip
  all_goals
    simp only [Debt.next] at hunpaid ⊢
    split_ifs at hunpaid ⊢
    · exact absurd rfl hunpaid
    · exact Or.inl rfl

/-- A call that owes goes on so, or restores the marker. -/
theorem next_of_owing {k : ℕ} (hunpaid : d.next c r (.owing k) ≠ .paid) :
    (∃ k', d.next c r (.owing k) = .owing k') ∨
      d.next c r (.owing k) = .aside ∧ ∃ armed, c = .restore d.sessionId armed := by
  cases c
  case restore sessionId armed =>
    simp only [Debt.next]
    split_ifs with hsession
    · exact Or.inr ⟨rfl, armed, by rw [hsession]⟩
    · exact Or.inl ⟨k, rfl⟩
  case getBySession sessionId observed =>
    left
    rcases r with e | _ | row
    · exact ⟨k, rfl⟩
    · exact ⟨k, rfl⟩
    · simp only [Debt.next]
      split_ifs
      · exact ⟨_, rfl⟩
      · exact ⟨_, rfl⟩
  case transitionKickoffState sessionId goalId expected next =>
    left
    rcases r with e | _
    · exact ⟨k, rfl⟩
    · simp only [Debt.next]
      split_ifs
      · exact ⟨_, rfl⟩
      · exact ⟨_, rfl⟩
  all_goals first | exact Or.inl ⟨k, rfl⟩ | skip
  all_goals
    simp only [Debt.next] at hunpaid ⊢
    split_ifs at hunpaid ⊢
    · exact absurd rfl hunpaid
    · exact Or.inl ⟨k, rfl⟩

/-- What a call knows of the kickoff is so of the row after. -/
theorem Covered.next_kickoff {goal goal' : ThreadGoalState} {p : Standing} (h : d.Covered s goal)
    (hp : d.StandsAt goal entry p) (hr : s.Answers c r)
    (hgoal' : (s.answered c r).goals d.sessionId = some goal')
    (hkickoff : goal.kickoffState.rank ≤ goal'.kickoffState.rank) {k : ℕ}
    (hk : d.next c r p = .owing k) : k ≤ goal'.kickoffState.rank := by
  have hsame (h : p = .owing k) : k ≤ goal'.kickoffState.rank := (hp.kickoff k h).trans hkickoff
  cases c
  case claim sessionId =>
    cases p with
    | aside =>
      simp only [Debt.next] at hk
      split_ifs at hk
      cases hk
      exact Nat.zero_le _
    | _ => exact hsame hk
  case restore sessionId armed =>
    cases p with
    | owing j =>
      simp only [Debt.next] at hk
      split_ifs at hk
      exact hsame hk
    | _ => exact hsame hk
  case getBySession sessionId observed =>
    cases p with
    | owing j =>
      rcases r with e | _ | row
      · exact hsame hk
      · exact hsame hk
      · simp only [Debt.next] at hk
        split_ifs at hk with hsession
        · cases hk
          subst hsession
          have hrow := hr (some row) rfl
          rw [Option.some.inj (hrow.trans hgoal')]
        · exact hsame hk
    | _ => exact hsame hk
  case transitionKickoffState sessionId goalId expected next =>
    cases p with
    | owing j =>
      rcases r with e | _
      · exact hsame hk
      · simp only [Debt.next] at hk
        split_ifs at hk with hmoves
        · cases hk
          obtain ⟨rfl, rfl, rfl, rfl, hle⟩ := hmoves
          have hrank := hp.kickoff j rfl
          cases hstate : goal.kickoffState with
          | enqueued =>
            obtain rfl : { goal with kickoffState := .consumed } = goal' := by
              simpa [ContinuationState.answered, ContinuationState.transitionKickoff, h.row,
                h.isGoal.goalId, hstate, Except.isOk, Except.toBool] using hgoal'
            exact le_rfl
          | pending =>
            rw [hstate] at hrank
            exact absurd (hle.trans hrank) (by simp [ThreadGoalKickoffState.rank])
          | consumed =>
            rw [hstate] at hkickoff
            exact hkickoff
        · exact hsame hk
    | _ => exact hsame hk
  all_goals first | exact hsame hk | skip
  all_goals
    simp only [Debt.next] at hk
    split_ifs at hk
    exact hsame hk

/-- An answer that pays settles the debt. -/
theorem settled_of_paid {p : Standing} (hp : p.Stands) (hpaid : d.next c r p = .paid) :
    d.Settled (s.answered c r) := by
  have hhand (message : GoalMessage) (hmessage : d.PaidBy message) : d.Settled (s.hand message) := by
    rintro a ha hdebt -
    obtain ⟨b, -, rfl⟩ := List.mem_map.1 ha
    obtain rfl : b.debt = d := hdebt
    simp [ArmNote.hear, show message.goalId = b.goalId from hmessage.1,
      show b.epoch ≤ message.goalUpdatedAt from hmessage.2]
  have hfresh (h : p = .paid) : d.Settled (s.answered c r) := by
    subst h
    cases hp
  cases c
  case claim =>
    cases p with
    | aside =>
      simp only [Debt.next] at hpaid
      split_ifs at hpaid
    | _ => exact hfresh hpaid
  case restore =>
    cases p with
    | owing k =>
      simp only [Debt.next] at hpaid
      split_ifs at hpaid
    | _ => exact hfresh hpaid
  case getBySession =>
    cases p with
    | owing k =>
      rcases r with e | _ | row
      · cases hpaid
      · cases hpaid
      · simp only [Debt.next] at hpaid
        split_ifs at hpaid
    | _ => exact hfresh hpaid
  case transitionKickoffState =>
    cases p with
    | owing k =>
      rcases r with e | _
      · cases hpaid
      · simp only [Debt.next] at hpaid
        split_ifs at hpaid
    | _ => exact hfresh hpaid
  all_goals first | exact hfresh hpaid | skip
  all_goals
    simp only [Debt.next] at hpaid
    split_ifs at hpaid with hmessage
    · obtain ⟨rfl, hmessage⟩ := hmessage
      exact hhand _ hmessage
    · exact hfresh hpaid

/-- The marker of the debt stays, or is the call's. -/
theorem Covered.armed_answered {goal : ThreadGoalState} {p : Standing} (h : d.Covered s goal)
    (hle : d.generation ≤ s.generations) (hp : p.Stands) (hunpaid : d.next c r p ≠ .paid)
    (hmay : d.May entry.call.isDrain c p) (hr : s.Answers c r)
    (hgood : GoodAnswer s entry.call c r) (harmed : d.Armed s) :
    d.Armed (s.answered c r) ∨ (d.next c r p).isOwing := by
  obtain ⟨armed, hpending, harmed⟩ := harmed
  have hstays (h : (s.answered c r).pending d.sessionId = s.pending d.sessionId) :
      d.Armed (s.answered c r) ∨ (d.next c r p).isOwing :=
    Or.inl ⟨armed, h.trans hpending, harmed⟩
  cases c
  case arm goal' =>
    by_cases hsession : d.sessionId = goal'.sessionId
    · exact Or.inl ⟨⟨goal'.goalId, s.generations + 1⟩,
        by simp [ContinuationState.answered, ContinuationState.arm, hsession], by simp; omega⟩
    · exact hstays (by simp [ContinuationState.answered, ContinuationState.arm,
        Function.update_of_ne hsession])
  case clear sessionId =>
    by_cases hsession : d.sessionId = sessionId
    · subst hsession
      exact absurd h.isGoal.status (hgood (by simp [hpending]) goal h.row)
    · exact hstays (by simp [ContinuationState.answered, Function.update_of_ne hsession])
  case clearScheduled sessionId observed =>
    refine hstays ?_
    dsimp only [ContinuationState.answered]
    split_ifs with hclear
    · refine Function.update_of_ne (fun hsession => ?_) _ _
      subst hsession
      have hobserved : observed = some armed.generation := by rw [← hclear.2, hpending]; rfl
      have hlt : armed.generation < d.generation := by
        cases p with
        | ahead => cases hp
        | aside => exact hmay rfl _ hobserved
        | owing k => exact hmay rfl _ hobserved
        | paid => cases hp
      omega
    · rfl
  case claim sessionId =>
    by_cases hsession : d.sessionId = sessionId
    · subst hsession
      right
      cases p with
      | ahead => cases hp
      | aside =>
        have hnext : d.next (.claim d.sessionId) r .aside = .owing 0 :=
          if_pos ⟨rfl, armed, hr.trans hpending, harmed⟩
        rw [hnext]
        rfl
      | owing k => rfl
      | paid => cases hp
    · exact hstays (by simp [ContinuationState.answered, Function.update_of_ne hsession])
  case restore sessionId armed' =>
    refine hstays ?_
    dsimp only [ContinuationState.answered]
    split_ifs with hsome
    · rfl
    · refine Function.update_of_ne (fun hsession => ?_) _ _
      subst hsession
      simp [hpending] at hsome
  case transitionKickoffState =>
    refine hstays ?_
    dsimp only [ContinuationState.answered]
    split_ifs
    · rw [(s.transitionKickoff_fields _ _ _ _).2.1]
    · rfl
  all_goals
    first
      | exact hstays rfl
      | (refine hstays ?_; dsimp only [ContinuationState.answered]; split_ifs <;> rfl)

/-- A call that owes still owes, or restored the marker. -/
theorem owing_answered {k : ℕ}
    (hunpaid : d.next c r (.owing k) ≠ .paid) (hmay : d.May entry.call.isDrain c (.owing k))
    (hgood : GoodAnswer s entry.call c r) :
    d.Armed (s.answered c r) ∨ (d.next c r (.owing k)).isOwing := by
  rcases next_of_owing hunpaid with ⟨k', hk'⟩ | ⟨-, armed, rfl⟩
  · right
    rw [hk']
    rfl
  · left
    have hle := (hmay rfl).1
    cases hpending : s.pending d.sessionId with
    | none => exact ⟨armed, by simp [ContinuationState.answered, hpending], hle⟩
    | some newer =>
      have hlt := hgood newer hpending
      exact ⟨newer, by simp [ContinuationState.answered, hpending], by omega⟩

/-- A debt that stands is covered or settled by what a call goes on to. -/
theorem Covered.reply {goal : ThreadGoalState} (h : d.Covered s goal)
    (hle : d.generation ≤ s.generations) (hentry : s.calls[i]? = some entry)
    (hrest : entry.rest = .ask c next) (hr : s.Answers c r)
    (hgood : GoodAnswer s entry.call c r) : d.Settled (replied s i entry c next r) ∨
      ∃ goal', d.Covered (replied s i entry c next r) goal' := by
  -- a call that may be seen to owe does
  obtain ⟨p, hp, howner⟩ : ∃ p, d.StandsAt goal entry p ∧
      ∀ p', d.StandsAt goal entry p' → p'.isOwing → p.isOwing := by
    by_cases howes : ∃ p, d.StandsAt goal entry p ∧ p.isOwing
    · obtain ⟨p, hp, howing⟩ := howes
      exact ⟨p, hp, fun _ _ _ => howing⟩
    · obtain ⟨p, hp⟩ := h.calls i entry hentry
      exact ⟨p, hp, fun p' hp' howing => absurd ⟨p', hp', howing⟩ howes⟩
  have hobeys := hp.obeys
  rw [hrest] at hobeys
  obtain ⟨hmay, hnext⟩ := hobeys
  by_cases hpaid : d.next c r p = .paid
  · exact Or.inl (settled_of_paid (c := c) hp.stands hpaid)
  right
  obtain ⟨goal', hgoal', hisGoal, hkickoff⟩ := h.row_answered hp.stands hmay r
  have hduring := h.during hp hr hgood
  have hstands : d.StandsAt goal' ⟨entry.call, next r⟩ (d.next c r p) := by
    have hafter (k : ℕ) := h.next_kickoff (k := k) hp hr hgoal' hkickoff
    cases p with
    | ahead => exact hp.stands.elim
    | paid => exact hp.stands.elim
    | aside =>
      have hobeys := hnext r _ ⟨hduring, rfl⟩
      rcases next_of_aside hpaid with hsame | ⟨hclaims, sessionId, rfl⟩
      · rw [hsame] at hobeys ⊢
        exact standsAt_aside hobeys
      · exact ⟨by rw [hclaims]; trivial, hobeys, fun _ => hmay, hafter⟩
    | owing k =>
      have hobeys := hnext r _ ⟨hduring, rfl⟩
      rcases next_of_owing hpaid with ⟨k', hk'⟩ | ⟨hrestores, -⟩
      · exact ⟨by rw [hk']; trivial, hobeys, fun _ => hp.drains rfl, hafter⟩
      · rw [hrestores] at hobeys ⊢
        exact standsAt_aside hobeys
  refine ⟨goal', hgoal', hisGoal, fun armed harmed hle' => ?_, fun j entry' hentry' => ?_, ?_⟩
  · rcases s.answered_pending c r harmed with harmed | rfl | ⟨kicked, rfl, hsession, rfl⟩
    · exact h.marker armed harmed hle'
    · cases p with
      | ahead => exact hp.stands.elim
      | paid => exact hp.stands.elim
      | aside => exact absurd (hmay rfl) (Nat.not_lt.2 hle')
      | owing k => exact (hmay rfl).2
    · have hrow := hgood goal (hsession ▸ h.row) h.isGoal.status
      exact hrow.1.symm.trans h.isGoal.goalId
  · rcases getElem?_set_cases hentry' with rfl | ⟨-, hentry'⟩
    · exact ⟨_, hstands⟩
    · obtain ⟨p', hp'⟩ := h.calls j entry' hentry'
      exact ⟨p', hp'.mono hkickoff⟩
  · have hthis (howing : (d.next c r p).isOwing) : ∃ (j : ℕ) (entry' : OpenCall) (p' : Standing),
        (s.calls.set i ⟨entry.call, next r⟩)[j]? = some entry' ∧ d.StandsAt goal' entry' p' ∧
          p'.isOwing := by
      obtain ⟨hlt, -⟩ := List.getElem?_eq_some_iff.1 hentry
      exact ⟨i, _, _, List.getElem?_set_self hlt, hstands, howing⟩
    rcases h.someone with harmed | ⟨j, entry', p', hentry', hp', howing⟩
    · exact (h.armed_answered hle hp.stands hpaid hmay hr hgood harmed).imp id hthis
    · by_cases hj : j = i
      · subst hj
        obtain rfl := Option.some.inj (hentry.symm.trans hentry')
        have howing := howner p' hp' howing
        cases p with
        | owing k => exact (owing_answered hpaid hmay hgood).imp id hthis
        | ahead => cases howing
        | aside => cases howing
        | paid => cases howing
      · exact Or.inr ⟨j, entry', p', by rwa [List.getElem?_set_ne (Ne.symm hj)],
          hp'.mono hkickoff, howing⟩

/-! ### Steps -/

/-- A settled debt stays so. -/
theorem Settled.reply (h : d.Settled s) (hle : d.generation ≤ s.generations) :
    d.Settled (replied s i entry c next r) := by
  intro a ha hdebt hactive
  rcases s.answered_arms c r ha with ⟨b, hb, hdebt', hactive', hhanded⟩ | ⟨goal, -, hdebt', -⟩
  · exact hhanded (h b hb (hdebt'.trans hdebt) (hactive' ▸ hactive))
  · have := congrArg Debt.generation (hdebt'.symm.trans hdebt)
    dsimp only at this
    omega

theorem generations_le_answered (s : ContinuationState) (c : ContinuationAsk) (r : c.Reply) :
    s.generations ≤ (s.answered c r).generations := by
  rcases s.answered_generations c r with h | ⟨-, -, h⟩ <;> omega

theorem Kept.reply (h : d.Kept s) (hentry : s.calls[i]? = some entry)
    (hrest : entry.rest = .ask c next) (hr : s.Answers c r)
    (hgood : GoodAnswer s entry.call c r) : d.Kept (replied s i entry c next r) := by
  rcases h with h | ⟨hle, h⟩
  · exact h.reply hentry hrest hr hgood
  · refine Or.inr ⟨hle.trans (generations_le_answered s c r), ?_⟩
    rcases h with h | ⟨goal, h⟩
    · exact Or.inl (h.reply hle)
    · exact h.reply hle hentry hrest hr hgood

end Reply

section Steps

variable {s : ContinuationState}

/-- A call that begins waits for the arm, or owes nothing. -/
theorem Kept.begin (h : d.Kept s) (call : ContinuationCall) : d.Kept (s.step (.begin call)) := by
  have hcalls {j : ℕ} {entry : OpenCall}
      (hentry : (s.calls ++ [⟨call, call.run⟩])[j]? = some entry) :
      s.calls[j]? = some entry ∨ entry = ⟨call, call.run⟩ := by
    rcases Nat.lt_or_ge j s.calls.length with hj | hj
    · rw [List.getElem?_append_left hj] at hentry
      exact Or.inl hentry
    · rw [List.getElem?_append_right hj] at hentry
      exact Or.inr (List.mem_singleton.1 (List.mem_of_getElem? hentry))
  rcases h with h | ⟨hle, h | ⟨goal, h⟩⟩
  · refine Or.inl ⟨h.generations, h.arms, h.marker, h.rows, fun j entry hentry => ?_⟩
    rcases hcalls hentry with hentry | rfl
    · exact h.calls j entry hentry
    · exact run_obeys call (Or.inl rfl)
  · exact Or.inr ⟨hle, Or.inl h⟩
  · refine Or.inr ⟨hle, Or.inr ⟨goal, h.row, h.isGoal, h.marker, fun j entry hentry => ?_, ?_⟩⟩
    · rcases hcalls hentry with hentry | rfl
      · exact h.calls j entry hentry
      · exact ⟨.aside, standsAt_aside (run_obeys call (Or.inr rfl))⟩
    · rcases h.someone with harmed | ⟨j, entry, p, hentry, hp⟩
      · exact Or.inl harmed
      · obtain ⟨hj, -⟩ := List.getElem?_eq_some_iff.1 hentry
        exact Or.inr ⟨j, entry, p, (List.getElem?_append_left hj).trans hentry, hp⟩

/-- Another writer leaves the Goal active, no older, or the arm is for nothing. -/
theorem Kept.write (h : d.Kept s) {sessionId : String} {row : Option ThreadGoalState}
    (hrow : Follows sessionId (s.goals sessionId) row) :
    d.Kept (s.write (Function.update s.goals sessionId row)) := by
  have hsettled (h : d.Settled s) : d.Settled (s.write (Function.update s.goals sessionId row)) := by
    intro a ha hdebt hactive
    obtain ⟨b, hb, rfl⟩ := List.mem_map.1 ha
    exact h b hb hdebt (Bool.and_eq_true_iff.1 hactive).1
  rcases h with h | ⟨hle, h | ⟨goal, h⟩⟩
  · refine Or.inl ⟨h.generations, fun a ha => ?_, h.marker, fun goal hgoal => ?_, h.calls⟩
    · obtain ⟨b, hb, rfl⟩ := List.mem_map.1 ha
      exact h.arms b hb
    · by_cases hsession : d.sessionId = sessionId
      · subst hsession
        exact (hrow goal (by simpa [ContinuationState.write] using hgoal)).1
      · exact h.rows goal (by simpa [ContinuationState.write, hsession] using hgoal)
  · exact Or.inr ⟨hle, Or.inl (hsettled h)⟩
  refine Or.inr ⟨hle, ?_⟩
  by_cases hsession : d.sessionId = sessionId
  · subst hsession
    by_cases hactive : hasActive (Function.update s.goals d.sessionId row) d.sessionId d.goalId
    · right
      simp only [hasActive, Function.update_self] at hactive
      obtain ⟨goal', rfl, hmatch⟩ := (Option.any_eq_true _ _).1 hactive
      obtain ⟨hid, hstatus⟩ : goal'.goalId = d.goalId ∧ goal'.status = .active := by
        simpa using hmatch
      obtain ⟨hof, hfollows⟩ := hrow goal' rfl
      obtain ⟨hepoch, hkickoff⟩ := hfollows goal h.row (hid.trans h.isGoal.goalId.symm)
      refine ⟨goal', Function.update_self .., ⟨hof, hid, hstatus, h.isGoal.epoch.trans hepoch⟩,
        h.marker, fun j entry hentry => ?_, ?_⟩
      · obtain ⟨p, hp⟩ := h.calls j entry hentry
        exact ⟨p, hp.mono hkickoff⟩
      · rcases h.someone with harmed | ⟨j, entry, p, hentry, hp, howing⟩
        · exact Or.inl harmed
        · exact Or.inr ⟨j, entry, p, hentry, hp.mono hkickoff, howing⟩
    · left
      intro a ha hdebt hwatched
      obtain ⟨b, -, rfl⟩ := List.mem_map.1 ha
      obtain rfl : b.debt = d := hdebt
      exact absurd (Bool.and_eq_true_iff.1 hwatched).2 hactive
  · refine Or.inr ⟨goal, ?_, h.isGoal, h.marker, h.calls, h.someone⟩
    exact (Function.update_of_ne hsession _ _).trans h.row

theorem Kept.step (h : d.Kept s) {e : ContinuationEvent} (hgood : GoodStep s e) :
    d.Kept (s.step e) := by
  cases e with
  | write sessionId row =>
    dsimp only [ContinuationState.step]
    split_ifs with hrow
    · exact h.write hrow
    · exact h
  | begin call => exact h.begin call
  | reply i c r =>
    dsimp only [ContinuationState.step]
    cases hentry : s.calls[i]? with
    | none => exact h
    | some entry =>
      dsimp only
      cases hrest : entry.rest.resume c r with
      | none => exact h
      | some rest =>
        obtain ⟨next, hask, rfl⟩ := Async.resume_some hrest
        dsimp only
        split_ifs with hr
        · exact h.reply hentry hask hr (hgood entry hentry)
        · exact h

end Steps

theorem kept_empty (d : Debt) : d.Kept .empty := by
  rcases Nat.eq_zero_or_pos d.generation with hzero | hpos
  · exact Or.inr ⟨hzero.le, Or.inl (by simp [Settled, ContinuationState.empty])⟩
  · refine Or.inl ⟨hpos, ?_, ?_, ?_, ?_⟩ <;> simp [ContinuationState.empty]

end Debt

/-- Where every debt is kept and no call is in progress, each is settled or has a marker. -/
theorem rearmDebtKept_of_kept {s : ContinuationState} (h : ∀ d : Debt, d.Kept s) :
    RearmDebtKept s := by
  intro hquiescent a ha hactive
  rcases h a.debt with hawaited | ⟨-, hsettled | ⟨goal, hcovered⟩⟩
  · exact absurd (hawaited.arms a ha) (lt_irrefl _)
  · exact Or.inr (hsettled a ha rfl hactive)
  left
  rcases hcovered.someone with ⟨armed, hpending, -⟩ | ⟨i, entry, p, hentry, hp, howing⟩
  · exact Option.isSome_iff_exists.2 ⟨armed, hpending⟩
  · have hended := hquiescent entry (List.mem_of_getElem? hentry)
    have hobeys := hp.obeys
    cases hrest : entry.rest with
    | ret r =>
      rw [hrest] at hobeys
      have hfree : p.isOwing = false := hobeys
      rw [hfree] at howing
      cases howing
    | ask c next =>
      rw [hrest] at hended
      cases hended

/-- In a run whose answers lose no debt, none is lost. -/
theorem rearmDebtKept_throughout {es : List ContinuationEvent}
    (h : continuationMachine.Along GoodStep .empty es) :
    continuationMachine.Throughout RearmDebtKept .empty es :=
  Machine.Along.throughout (J := fun s => ∀ d : Debt, d.Kept s)
    (fun _ => rearmDebtKept_of_kept) (fun _ _ hkept hgood d => (hkept d).step hgood)
    Debt.kept_empty h

/-- A Goal at the epoch. -/
private def busyGoal (kickoff : ThreadGoalKickoffState) (epoch : ℤ) : ThreadGoalState where
  goalId := "goal"
  sessionId := "session"
  objective := "ship it"
  objectiveResources := []
  status := .active
  createdAt := 1
  updatedAt := epoch
  tokensUsed := 0
  turnsUsed := 0
  timeUsedSeconds := 0
  tokenBudget := none
  replyFingerprint := none
  noProgressStreak := 0
  noToolStreak := 0
  lastVerification := none
  lastWorkerProposal := none
  statusReason := none
  kickoffAttachments := []
  kickoffState := kickoff
  executionWait := none

/-- A marker is drained while the epoch advances once more. -/
theorem rearmDebtKept_drained : continuationMachine.Throughout RearmDebtKept .empty
    [.write "session" (some (busyGoal .consumed 2)),
      .begin (.armExplicitReset (busyGoal .consumed 2)), .reply 0 (.arm (busyGoal .consumed 2)) (),
      .begin (.drain "session" "turn"), .reply 1 (.claim "session") (some ⟨"goal", 1⟩),
      .reply 1 (.getBySession "session" none) (.ok (some (busyGoal .consumed 2))),
      .reply 1 .hasPostTurnQueue true,
      .write "session" (some (busyGoal .consumed 3)),
      .reply 1 (.getBySession "session" none) (.ok (some (busyGoal .consumed 3))),
      .reply 1 (.preparePrompt (busyGoal .consumed 3)) (.ok ()),
      .reply 1 (.enqueuePostTurnContinuation "session" "turn"
        ⟨.continuation, "goal", 3⟩ (some ("goal", 3))) (.ok ())] :=
  rearmDebtKept_throughout (by decide)

/-- A drain that finds the kickoff consumed when it reads the Goal again hands nothing over. -/
theorem kickoffConsumedMeanwhile_losesDebt : ¬ RearmDebtKept (continuationMachine.after .empty
    [.write "session" (some (busyGoal .enqueued 2)),
      .begin (.armExplicitReset (busyGoal .enqueued 2)), .reply 0 (.arm (busyGoal .enqueued 2)) (),
      .begin (.drain "session" "turn"), .reply 1 (.claim "session") (some ⟨"goal", 1⟩),
      .reply 1 (.getBySession "session" none) (.ok (some (busyGoal .enqueued 2))),
      .reply 1 (.joinRefreshes "session") (none, 0), .reply 1 (.previousRefresh none) (),
      .write "session" (some (busyGoal .consumed 2)),
      .reply 1 (.getBySession "session" (some (busyGoal .enqueued 2)))
        (.ok (some (busyGoal .consumed 2))),
      .reply 1 (.leaveRefreshes "session" 0) ()]) := by
  decide

end Kinetick.Goal
