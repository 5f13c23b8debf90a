import Kinetick.Proofs.CronCleanup

/-!
# The history keeps what is needed

Under the lock one call runs at a time: a call that has begun has all calls before it settled. So the
history is what it was when a cleanup read it, and what the cleanup writes back leaves out only
records that it has a reason to drop.
-/

namespace Kinetick

namespace CronHistory

namespace CronState

variable {s : CronState} {i j : ℕ} {phase p : Phase}

@[simp] theorem setPhase_sessions : (s.setPhase i p).sessions = s.sessions := rfl
@[simp] theorem setPhase_tail : (s.setPhase i p).tail = s.tail := rfl
@[simp] theorem setPhase_observed : (s.setPhase i p).observed = s.observed := rfl

@[simp] theorem length_setPhase : (s.setPhase i p).calls.length = s.calls.length :=
  List.length_modify ..

theorem phaseOf_setPhase (hi : s.phaseOf i = some phase) :
    (s.setPhase i p).phaseOf j = if j = i then some p else s.phaseOf j := by
  unfold phaseOf at hi ⊢
  unfold setPhase
  rw [List.getElem?_modify]
  by_cases hj : j = i
  · subst hj
    obtain ⟨call, hcall, -⟩ := Option.map_eq_some_iff.1 hi
    simp [hcall]
  · simp [hj, Ne.symm hj]

theorem previous_setPhase :
    (s.setPhase i p).calls[j]?.map HistoryCall.previous = s.calls[j]?.map HistoryCall.previous := by
  unfold setPhase
  rw [List.getElem?_modify]
  cases hcall : s.calls[j]? with
  | none => rfl
  | some call => by_cases h : i = j <;> simp [h]

theorem lt_of_phaseOf (h : s.phaseOf i = some phase) : i < s.calls.length := by
  obtain ⟨call, hcall, -⟩ := Option.map_eq_some_iff.1 h
  exact (List.getElem?_eq_some_iff.1 hcall).1

theorem exists_call_of_phaseOf (h : s.phaseOf i = some phase) :
    ∃ call ∈ s.calls, call.phase = phase := by
  obtain ⟨call, hcall, heq⟩ := Option.map_eq_some_iff.1 h
  exact ⟨call, List.mem_of_getElem? hcall, heq⟩

end CronState

/-- The calls are chained: one that has begun has all calls before it settled. -/
structure Chained (s : CronState) : Prop where
  begun : ∀ i phase, s.phaseOf i = some phase → phase ≠ .waiting →
    ∀ j < i, s.phaseOf j = some .settled
  previous : ∀ i previous, s.calls[i]?.map HistoryCall.previous = some previous →
    match previous with
    | none => ∀ j < i, s.phaseOf j = some .settled
    | some t => t + 1 = i
  tail : match s.tail with
    | none => ∀ j < s.calls.length, s.phaseOf j = some .settled
    | some t => t + 1 = s.calls.length

namespace Chained

variable {s : CronState} {i j : ℕ} {phase p : Phase}

/-- While a call runs, every other one is waiting or settled. -/
theorem other (h : Chained s) (hi : s.phaseOf i = some phase) (hbegun : phase ≠ .waiting)
    (hsettled : phase ≠ .settled) {q : Phase} (hj : s.phaseOf j = some q) (hne : j ≠ i) :
    q = .waiting ∨ q = .settled := by
  by_contra hcon
  push Not at hcon
  rcases Nat.lt_or_gt_of_ne hne with hlt | hlt
  · have := h.begun i phase hi hbegun j hlt
    rw [hj] at this
    exact hcon.2 (Option.some.inj this)
  · have := h.begun j q hj hcon.1 i hlt
    rw [hi] at this
    exact hsettled (Option.some.inj this)

/-- A call that has not settled goes on to another phase. -/
theorem setPhase (h : Chained s) (hi : s.phaseOf i = some phase) (hsettled : phase ≠ .settled)
    (hbegun : p ≠ .waiting → ∀ j < i, s.phaseOf j = some .settled) : Chained (s.setPhase i p) := by
  have hkeeps : ∀ j, s.phaseOf j = some .settled →
      (s.setPhase i p).phaseOf j = some .settled := by
    intro j hj
    rw [CronState.phaseOf_setPhase hi]
    split_ifs with hji
    · subst hji
      rw [hi] at hj
      exact absurd (Option.some.inj hj) hsettled
    · exact hj
  refine ⟨?_, ?_, ?_⟩
  · intro j q hq hne k hk
    rw [CronState.phaseOf_setPhase hi] at hq
    refine hkeeps k ?_
    split_ifs at hq with hji
    · cases hq
      subst hji
      exact hbegun hne k hk
    · exact h.begun j q hq hne k hk
  · intro j previous hprevious
    rw [CronState.previous_setPhase] at hprevious
    have hold := h.previous j previous hprevious
    cases previous with
    | none => exact fun k hk => hkeeps k (hold k hk)
    | some t => exact hold
  · have hold := h.tail
    rw [CronState.setPhase_tail, CronState.length_setPhase]
    cases htail : s.tail with
    | none =>
      rw [htail] at hold
      exact fun k hk => hkeeps k (hold k hk)
    | some t =>
      rw [htail] at hold
      exact hold

/-- A call that waits may begin where the one it is chained after has settled. -/
theorem settled_before (h : Chained s) {call : HistoryCall} (hi : s.calls[i]? = some call)
    (hsettled : s.previousSettled call = true) : ∀ j < i, s.phaseOf j = some .settled := by
  have hprevious := h.previous i call.previous (by rw [hi]; rfl)
  unfold CronState.previousSettled at hsettled
  cases hp : call.previous with
  | none =>
    rw [hp] at hprevious
    exact hprevious
  | some t =>
    rw [hp] at hprevious hsettled
    simp only [decide_eq_true_eq] at hprevious hsettled
    intro j hj
    rcases Nat.lt_or_ge j t with hlt | hge
    · exact h.begun t .settled hsettled (by simp) j hlt
    · rw [show j = t by omega]
      exact hsettled

theorem enqueue (h : Chained s) (job : HistoryJob) : Chained (s.enqueue job) := by
  have hold : ∀ {j q}, s.phaseOf j = some q → (s.enqueue job).phaseOf j = some q := by
    intro j q hj
    have hlt := CronState.lt_of_phaseOf hj
    unfold CronState.phaseOf CronState.enqueue at *
    rwa [List.getElem?_append_left hlt]
  have hget : ∀ {j}, j ≠ s.calls.length → (s.enqueue job).calls[j]? = s.calls[j]? := by
    intro j hj
    rcases Nat.lt_or_gt_of_ne hj with hlt | hlt
    · exact List.getElem?_append_left hlt
    · rw [List.getElem?_eq_none (Nat.le_of_lt hlt), List.getElem?_eq_none]
      simp [CronState.enqueue]
      omega
  have hlast : (s.enqueue job).calls[s.calls.length]? =
      some { job, previous := s.tail, phase := .waiting } := by
    simp [CronState.enqueue]
  refine ⟨?_, ?_, ?_⟩
  · intro i phase hi hne j hj
    by_cases hlen : i = s.calls.length
    · subst hlen
      rw [CronState.phaseOf, hlast] at hi
      exact absurd (Option.some.inj hi).symm hne
    · rw [CronState.phaseOf, hget hlen] at hi
      exact hold (h.begun i phase hi hne j hj)
  · intro i previous hi
    by_cases hlen : i = s.calls.length
    · subst hlen
      rw [hlast] at hi
      cases hi
      have htail := h.tail
      cases ht : s.tail with
      | none =>
        rw [ht] at htail
        exact fun j hj => hold (htail j hj)
      | some t =>
        rw [ht] at htail
        exact htail
    · rw [hget hlen] at hi
      have hprevious := h.previous i previous hi
      cases previous with
      | none => exact fun j hj => hold (hprevious j hj)
      | some t => exact hprevious
  · show s.calls.length + 1 = (s.calls ++ [_]).length
    rw [List.length_append, List.length_singleton]

/-- A call is through with its `finally`. -/
theorem through (h : Chained s) {outcome : Outcome} (hi : s.phaseOf i = some (.settling outcome)) :
    Chained { s.setPhase i .settled with tail := if s.tail = some i then none else s.tail } := by
  have hset : Chained (s.setPhase i .settled) :=
    h.setPhase hi (by simp) fun _ => h.begun i _ hi (by simp)
  refine ⟨hset.begun, hset.previous, ?_⟩
  have htail := hset.tail
  simp only [CronState.setPhase_tail] at htail ⊢
  split_ifs with hlast
  · rw [hlast] at htail
    simp only [CronState.length_setPhase] at htail ⊢
    intro j hj
    by_cases hji : j = i
    · exact (CronState.phaseOf_setPhase hi).trans (if_pos hji)
    · refine (CronState.phaseOf_setPhase hi).trans ((if_neg hji).trans ?_)
      exact h.begun i _ hi (by simp) j (by omega)
  · exact htail

end Chained

/-- What holds in every state of a run of which the steps are readable. -/
structure Invariant (s : CronState) : Prop where
  chained : Chained s
  sound : ∀ i phase, s.phaseOf i = some phase →
    ∃ history, PhaseSound history s.history s.observed i phase
  asked : ∀ o ∈ s.observed, o.call < s.calls.length
  spared : ∀ i phase, s.phaseOf i = some phase → ∀ sessionId session,
    phase.mayArchive sessionId = true → s.sessions sessionId = some session → ¬Protected session
  read : ∀ i sessionId, .unread i sessionId ∉ s.observed
  safe : ∀ i sessionId session, .archived i sessionId (some session) ∈ s.observed →
    ¬Protected session

/-- A running call goes on to a phase, with what else the step has changed in `s₁`. -/
structure Advance (s : CronState) (i : ℕ) (succeeds : Bool) (s₁ : CronState) (p : Phase)
    (extra : List Observation) : Prop where
  calls : s₁.calls = s.calls
  tail : s₁.tail = s.tail
  sessions : s₁.sessions = s.sessions
  observed : s₁.observed = s.observed ++ extra
  begun : p ≠ .waiting
  asked : ∀ o ∈ extra, o.call = i
  read : ∀ j sessionId, .unread j sessionId ∉ extra
  safe : ∀ j sessionId session, .archived j sessionId (some session) ∈ extra → ¬Protected session
  sound : PhaseSound s.history s₁.history s₁.observed i p
  spared : ∀ sessionId session, p.mayArchive sessionId = true →
    s.sessions sessionId = some session → ¬Protected session
  kept : ∃ kept, Retained (fun record => succeeds = true ∧ Justified s.observed i record) s.history
    kept ∧ kept.Sublist s₁.history

section Advance

variable {s s₁ : CronState} {i : ℕ} {succeeds : Bool} {p : Phase} {extra : List Observation}
  {awaiting : Awaiting}

theorem phaseOf_of_calls (h : s₁.calls = s.calls) (j : ℕ) : s₁.phaseOf j = s.phaseOf j := by
  rw [CronState.phaseOf, CronState.phaseOf, h]

theorem Chained.of_calls (h : Chained s) (hcalls : s₁.calls = s.calls) (htail : s₁.tail = s.tail) :
    Chained s₁ := by
  have hphase := phaseOf_of_calls hcalls
  refine ⟨fun i phase hi hne j hj => ?_, fun i previous hi => ?_, ?_⟩
  · rw [hphase] at hi ⊢
    exact h.begun i phase hi hne j hj
  · rw [hcalls] at hi
    have hprevious := h.previous i previous hi
    simp only [hphase]
    exact hprevious
  · have hold := h.tail
    rw [htail, hcalls]
    simp only [hphase]
    exact hold

theorem Invariant.advance (h : Invariant s) (hi : s.phaseOf i = some (.running awaiting))
    (hadvance : Advance s i succeeds s₁ p extra) : Invariant (s₁.setPhase i p) := by
  have hphase := phaseOf_of_calls hadvance.calls
  have hi₁ : s₁.phaseOf i = some (.running awaiting) := (hphase i).trans hi
  refine ⟨?_, ?_, ?_, ?_, ?_, ?_⟩
  · refine (h.chained.of_calls hadvance.calls hadvance.tail).setPhase hi₁ (by simp) ?_
    intro _ j hj
    rw [hphase]
    exact h.chained.begun i _ hi (by simp) j hj
  · intro j q hj
    rw [CronState.phaseOf_setPhase hi₁] at hj
    split_ifs at hj with hji
    · cases hj
      subst hji
      exact ⟨_, hadvance.sound⟩
    · rw [hphase] at hj
      -- another call is waiting or has settled, and neither looks at the history
      rcases h.chained.other hi (by simp) (by simp) hj hji with rfl | rfl
      · obtain ⟨_, hunasked⟩ := h.sound j _ hj
        refine ⟨s.history, ?_⟩
        rw [CronState.setPhase_observed, hadvance.observed]
        exact Unasked.append hunasked hji hadvance.asked
      · exact ⟨s.history, trivial⟩
  · intro o ho
    rw [CronState.setPhase_observed, hadvance.observed] at ho
    rw [CronState.length_setPhase, hadvance.calls]
    rcases List.mem_append.1 ho with ho | ho
    · exact h.asked o ho
    · rw [hadvance.asked o ho]
      exact CronState.lt_of_phaseOf hi
  · intro j q hj
    rw [CronState.setPhase_sessions, hadvance.sessions]
    rw [CronState.phaseOf_setPhase hi₁] at hj
    split_ifs at hj with hji
    · cases hj
      exact hadvance.spared
    · rw [hphase] at hj
      exact h.spared j q hj
  · intro j sessionId hunread
    rw [CronState.setPhase_observed, hadvance.observed] at hunread
    rcases List.mem_append.1 hunread with hunread | hunread
    · exact h.read j sessionId hunread
    · exact hadvance.read j sessionId hunread
  · intro j sessionId session harchived
    rw [CronState.setPhase_observed, hadvance.observed] at harchived
    rcases List.mem_append.1 harchived with harchived | harchived
    · exact h.safe j sessionId session harchived
    · exact hadvance.safe j sessionId session harchived

/-- The running call has lost nothing. -/
theorem Invariant.losesNothing_of_advance (h : Invariant s)
    (hi : s.phaseOf i = some (.running awaiting))
    (hadvance : Advance s i succeeds s₁ p extra) :
    LosesNothing s (.resolve i succeeds) (s₁.setPhase i p) := by
  refine ⟨?_, (h.advance hi hadvance).safe, ?_⟩
  · obtain ⟨kept, hretained, hsub⟩ := hadvance.kept
    exact ⟨kept, hretained.mono fun record hr => ⟨i, by rw [hr.1], hr.2⟩, hsub⟩
  · intro j keep inspections hends
    have hi₁ : s₁.phaseOf i = some (.running awaiting) :=
      (phaseOf_of_calls hadvance.calls i).trans hi
    obtain ⟨hafter, hbefore⟩ := hends
    rw [CronState.phaseOf_setPhase hi₁] at hafter
    split_ifs at hafter with hji
    · cases hafter
      subst hji
      have hconcluded : Concluded s.history s₁.history s₁.observed j (some keep) inspections :=
        hadvance.sound
      exact ⟨hconcluded.inspected, hconcluded.looked,
        fun hfails => hconcluded.done hfails keep rfl⟩
    · rw [phaseOf_of_calls hadvance.calls] at hafter
      exact absurd hafter hbefore

/-- The call has observed nothing and changed nothing. -/
theorem advance_quiet (hbegun : p ≠ .waiting) (hsound : PhaseSound s.history s.history s.observed i p)
    (hspared : ∀ sessionId session, p.mayArchive sessionId = true →
      s.sessions sessionId = some session → ¬Protected session) :
    Advance s i succeeds s p [] where
  calls := rfl
  tail := rfl
  sessions := rfl
  observed := (List.append_nil _).symm
  begun := hbegun
  asked _ ho := by cases ho
  read _ _ ho := by cases ho
  safe _ _ _ ho := by cases ho
  sound := hsound
  spared := hspared
  kept := ⟨s.history, .refl _, List.Sublist.refl _⟩

/-- The call has been answered about a session. -/
theorem advance_observe {observation : Observation} (hcall : observation.call = i)
    (hbegun : p ≠ .waiting) (hread : ∀ j sessionId, observation ≠ .unread j sessionId)
    (hsafe : ∀ j sessionId session, observation = .archived j sessionId (some session) →
      ¬Protected session)
    (hsound : PhaseSound s.history s.history (s.observed ++ [observation]) i p)
    (hspared : ∀ sessionId session, p.mayArchive sessionId = true →
      s.sessions sessionId = some session → ¬Protected session) :
    Advance s i succeeds (s.observe observation) p [observation] where
  calls := rfl
  tail := rfl
  sessions := rfl
  observed := rfl
  begun := hbegun
  asked _ ho := by rw [List.mem_singleton.1 ho, hcall]
  read j sessionId ho := hread j sessionId (List.mem_singleton.1 ho).symm
  safe j sessionId session ho := hsafe j sessionId session (List.mem_singleton.1 ho).symm
  sound := hsound
  spared := hspared
  kept := ⟨s.history, .refl _, List.Sublist.refl _⟩

theorem not_protected_of_visible {session : CronSessionInfo}
    (h : inspectionKind (some session) = .visible) : ¬Protected session := by
  simp only [inspectionKind] at h
  split_ifs at h with hroot hcompressed hstarted
  rintro (hr | hs)
  · exact hroot hr
  · exact hstarted hs

theorem insertRecord_sublist (record : CronSessionRecord) (records : List CronSessionRecord) :
    records.Sublist (insertRecord record records) := by
  induction records with
  | nil => exact List.nil_sublist _
  | cons r records ih =>
    unfold insertRecord
    split_ifs
    · exact ih.cons_cons r
    · exact List.sublist_cons_self _ _

/-- What a running call awaits is done. -/
theorem Invariant.advance_succeed (h : Invariant s) (hi : s.phaseOf i = some (.running awaiting)) :
    ∃ s₁ p extra, s.succeed i awaiting = s₁.setPhase i p ∧ Advance s i true s₁ p extra := by
  obtain ⟨history, hsound⟩ := h.sound i _ hi
  cases awaiting with
  | appendSessionRun record cleans =>
    refine ⟨_, _, [], rfl, rfl, rfl, rfl, (List.append_nil _).symm, ?_, ?_, ?_, ?_, ?_, ?_, ?_⟩
    · split_ifs <;> simp
    · intro o ho; cases ho
    · intro j sessionId ho; cases ho
    · intro j sessionId session ho; cases ho
    · split_ifs
      · exact hsound
      · trivial
    · intro sessionId session hmay
      split_ifs at hmay <;> cases hmay
    · exact ⟨s.history, .refl _, insertRecord_sublist record s.history⟩
  | get =>
    refine ⟨s, _, [], rfl, advance_quiet ?_ ?_ ?_⟩
    · rcases s.config with _ | _ | _ | _ <;> simp
    · rcases s.config with _ | _ | _ | _
      · trivial
      · trivial
      · trivial
      · exact hsound
    · intro sessionId session hmay
      generalize s.config = config at hmay
      rcases config with _ | _ | _ | _ <;> cases hmay
  | getSessionHistory keep =>
    have hunasked : Unasked i s.observed := hsound
    refine ⟨s, _, [], rfl, advance_quiet ?_ ?_ ?_⟩
    · split_ifs
      · simp
      · exact not_waiting_inspectNext
    · split_ifs
      · trivial
      · refine phaseSound_inspectNext rfl ?_ hunasked.archivedBy (h.read i)
        rw [Looked, hunasked.looksOf]
        rfl
    · intro sessionId session hmay
      split_ifs at hmay
      · cases hmay
      · obtain ⟨-, x, hx, -⟩ := mayArchive_inspectNext hmay
        cases hx
  | getSession keep inspections record rest =>
    obtain ⟨hhistory, hlooked, harchived⟩ := hsound
    refine ⟨_, _, _, rfl, advance_observe rfl not_waiting_inspectNext ?_ ?_ ?_ ?_⟩
    · intro j sessionId ho; cases ho
    · intro j sessionId session ho; cases ho
    · refine phaseSound_inspectNext ?_ ?_ ?_ ?_
      · rw [hhistory, List.map_append, List.append_assoc]
        rfl
      · rw [Looked, List.map_append, hlooked, looksOf_append, List.map_append]
        simp [looksOf]
      · rw [archivedBy_append, harchived]
        rfl
      · intro sessionId hmem
        rcases List.mem_append.1 hmem with hmem | hmem
        · exact h.read i sessionId hmem
        · cases List.mem_singleton.1 hmem
    · intro sessionId session hmay hsession
      obtain ⟨hkeep, x, hx, hvisible, rfl⟩ := mayArchive_inspectNext hmay
      rcases List.mem_append.1 hx with hx | hx
      · refine h.spared i _ hi x.record.sessionId session ?_ hsession
        simp only [Phase.mayArchive, hkeep, Bool.true_and, List.any_eq_true]
        exact ⟨x, hx, by simp [hvisible]⟩
      · rw [List.mem_singleton.1 hx] at hsession hvisible
        simp only at hsession hvisible
        rw [hsession] at hvisible
        exact not_protected_of_visible hvisible
  | setSessionArchived loop =>
    obtain ⟨hinspected, hlooked, before, hindex, hmem, hloop⟩ := hsound
    have hlength : loop.index + 1 = (before ++ [Inspection.mk loop.record .visible]).length := by
      rw [List.length_append, List.length_singleton, hindex]
    have hspared := h.spared i _ hi
    simp only [Phase.mayArchive, Bool.or_eq_true, decide_eq_true_eq] at hspared
    refine ⟨_, _, _, rfl, advance_observe rfl not_waiting_buildNext ?_ ?_ ?_ ?_⟩
    · intro j sessionId ho; cases ho
    · intro j sessionId session ho
      injection ho with _ hid hfound
      exact hspared loop.record.sessionId session (.inl rfl) hfound
    · rw [hlength]
      refine phaseSound_buildNext hinspected ?_ ?_ (hloop.archive ?_)
      · rw [Looked, hlooked, looksOf_append]
        simp [looksOf]
      · intro sessionId hunread
        rcases List.mem_append.1 hunread with hunread | hunread
        · exact h.read i sessionId hunread
        · cases List.mem_singleton.1 hunread
      · rw [hindex]
        exact hmem
    · intro sessionId session hmay hsession
      rw [hlength] at hmay
      obtain ⟨k, hk, hold⟩ := mayArchive_buildNext hloop.passOver.split hmay
      exact hspared sessionId session (.inr (by simp [hk, hold])) hsession
  | replaceSessionHistory keep inspections next =>
    obtain ⟨hinspected, hlooked, hretained, hdone⟩ := hsound
    refine ⟨_, _, [], rfl, rfl, rfl, rfl, (List.append_nil _).symm, by simp, ?_, ?_, ?_, ?_, ?_, ?_⟩
    · intro o ho; cases ho
    · intro j sessionId ho; cases ho
    · intro j sessionId session ho; cases ho
    · exact ⟨hinspected, hlooked, hdone⟩
    · intro sessionId session hmay; cases hmay
    · exact ⟨next, hretained.mono fun record hr => ⟨rfl, hr⟩, List.Sublist.refl _⟩

/-- What a running call awaits fails, but not to read a session. -/
theorem Invariant.advance_fail (h : Invariant s) (hi : s.phaseOf i = some (.running awaiting))
    (hread : (Phase.running awaiting).inspects = false) :
    ∃ s₁ p extra, s.fail i awaiting = s₁.setPhase i p ∧ Advance s i false s₁ p extra := by
  obtain ⟨history, hsound⟩ := h.sound i _ hi
  have hfailed : ∃ s₁ p extra, s.setPhase i (.settling .failed) = s₁.setPhase i p ∧
      Advance s i false s₁ p extra := by
    refine ⟨s, _, [], rfl, advance_quiet (by simp) trivial ?_⟩
    intro sessionId session hmay
    cases hmay
  cases awaiting with
  | appendSessionRun record cleans => exact hfailed
  | get => exact hfailed
  | getSessionHistory keep => exact hfailed
  | getSession keep inspections record rest => cases hread
  | setSessionArchived loop =>
    obtain ⟨hinspected, hlooked, before, hindex, hmem, hloop⟩ := hsound
    have hlength : loop.index + 1 = (before ++ [Inspection.mk loop.record .visible]).length := by
      rw [List.length_append, List.length_singleton, hindex]
    have hspared := h.spared i _ hi
    simp only [Phase.mayArchive, Bool.or_eq_true, decide_eq_true_eq] at hspared
    refine ⟨_, _, _, rfl, advance_observe rfl not_waiting_buildNext ?_ ?_ ?_ ?_⟩
    · intro j sessionId ho; cases ho
    · intro j sessionId session ho; cases ho
    · rw [hlength]
      refine phaseSound_buildNext hinspected ?_ ?_ hloop.passOver
      · rw [Looked, hlooked, looksOf_append]
        simp [looksOf]
      · intro sessionId hunread
        rcases List.mem_append.1 hunread with hunread | hunread
        · exact h.read i sessionId hunread
        · cases List.mem_singleton.1 hunread
    · intro sessionId session hmay hsession
      rw [hlength] at hmay
      obtain ⟨k, hk, hold⟩ := mayArchive_buildNext hloop.passOver.split hmay
      exact hspared sessionId session (.inr (by simp [hk, hold])) hsession
  | replaceSessionHistory keep inspections next => exact hfailed

end Advance

/-! ## The steps -/

section Steps

variable {s : CronState}

/-- Where no call ends and the history and the observations are as before, nothing is lost. -/
theorem losesNothing_of_history {s' : CronState} {e : CronEvent} (hs : Invariant s')
    (hhistory : s'.history = s.history)
    (hends : ∀ i keep inspections,
      s'.phaseOf i = some (.settling (.cleaned (some keep) inspections)) → s.phaseOf i = s'.phaseOf i) :
    LosesNothing s e s' := by
  refine ⟨⟨s.history, .refl _, by rw [hhistory]⟩, hs.safe, ?_⟩
  intro i keep inspections h
  exact absurd ((hends i keep inspections h.1).trans h.1) h.2

theorem phaseOf_enqueue (job : HistoryJob) (i : ℕ) :
    (s.enqueue job).phaseOf i =
      if i = s.calls.length then some .waiting else s.phaseOf i := by
  unfold CronState.phaseOf CronState.enqueue
  simp only
  split_ifs with hi
  · subst hi
    simp
  · rcases Nat.lt_or_gt_of_ne hi with hlt | hlt
    · rw [List.getElem?_append_left hlt]
    · rw [List.getElem?_eq_none (by simp; omega), List.getElem?_eq_none (Nat.le_of_lt hlt)]

theorem Invariant.enqueue (h : Invariant s) (job : HistoryJob) : Invariant (s.enqueue job) := by
  refine ⟨h.chained.enqueue job, ?_, ?_, ?_, h.read, h.safe⟩
  · intro i phase hi
    rw [phaseOf_enqueue] at hi
    split_ifs at hi with hlast
    · cases hi
      refine ⟨s.history, fun o ho => ?_⟩
      have := h.asked o ho
      omega
    · exact h.sound i phase hi
  · intro o ho
    have hlt := h.asked o ho
    simp only [CronState.enqueue, List.length_append, List.length_singleton]
    omega
  · intro i phase hi
    rw [phaseOf_enqueue] at hi
    split_ifs at hi with hlast
    · cases hi
      intro sessionId session hmay
      cases hmay
    · exact h.spared i phase hi

theorem step_enqueue (h : Invariant s) (job : HistoryJob) (e : CronEvent) :
    Invariant (s.enqueue job) ∧ LosesNothing s e (s.enqueue job) := by
  refine ⟨h.enqueue job, losesNothing_of_history (h.enqueue job) rfl ?_⟩
  intro i keep inspections hi
  rw [phaseOf_enqueue] at hi ⊢
  split_ifs at hi with hlast
  · cases hi
  · rw [if_neg hlast]

theorem step_begin (h : Invariant s) {i : ℕ} {call : HistoryCall} (hi : s.calls[i]? = some call)
    (hwaiting : call.phase = .waiting) (hprevious : s.previousSettled call = true) :
    Invariant (s.setPhase i (CronState.start call.job)) ∧
      LosesNothing s (.begin i) (s.setPhase i (CronState.start call.job)) := by
  have hphase : s.phaseOf i = some .waiting := by rw [CronState.phaseOf, hi, ← hwaiting]; rfl
  obtain ⟨_, hunasked⟩ := h.sound i _ hphase
  have hinvariant : Invariant (s.setPhase i (CronState.start call.job)) := by
    refine ⟨?_, ?_, ?_, ?_, h.read, h.safe⟩
    · exact h.chained.setPhase hphase (by simp) fun _ => h.chained.settled_before hi hprevious
    · intro j q hj
      rw [CronState.phaseOf_setPhase hphase] at hj
      split_ifs at hj with hji
      · cases hj
        subst hji
        refine ⟨s.history, ?_⟩
        rcases call.job with _ | _ <;> exact hunasked
      · exact h.sound j q hj
    · intro o ho
      rw [CronState.length_setPhase]
      exact h.asked o ho
    · intro j q hj
      rw [CronState.phaseOf_setPhase hphase] at hj
      split_ifs at hj with hji
      · cases hj
        intro sessionId session hmay
        generalize call.job = job at hmay
        rcases job with _ | _ <;> cases hmay
      · exact h.spared j q hj
  refine ⟨hinvariant, losesNothing_of_history hinvariant rfl ?_⟩
  intro j keep inspections hj
  rw [CronState.phaseOf_setPhase hphase] at hj ⊢
  split_ifs at hj ⊢
  · generalize call.job = job at hj
    rcases job with _ | _ <;> cases hj
  · rfl

theorem step_through (h : Invariant s) {i : ℕ} {outcome : Outcome}
    (hi : s.phaseOf i = some (.settling outcome)) {s' : CronState}
    (hs' : s' = { s.setPhase i .settled with
      tail := if s.tail = some i then none else s.tail }) :
    Invariant s' ∧ LosesNothing s (.settle i) s' := by
  have hphase : ∀ j, s'.phaseOf j = if j = i then some .settled else s.phaseOf j := fun j =>
    hs' ▸ CronState.phaseOf_setPhase hi
  have hinvariant : Invariant s' := by
    refine ⟨hs' ▸ h.chained.through hi, ?_, ?_, ?_, hs' ▸ h.read, hs' ▸ h.safe⟩
    · intro j q hj
      rw [hphase] at hj
      split_ifs at hj
      · cases hj
        exact ⟨s.history, trivial⟩
      · rw [hs']
        exact h.sound j q hj
    · rw [hs']
      intro o ho
      exact Nat.lt_of_lt_of_eq (h.asked o ho) CronState.length_setPhase.symm
    · intro j q hj
      rw [hphase] at hj
      split_ifs at hj
      · cases hj
        intro sessionId session hmay
        cases hmay
      · rw [hs']
        exact h.spared j q hj
  refine ⟨hinvariant, losesNothing_of_history hinvariant (by rw [hs']; rfl) ?_⟩
  intro j keep inspections hj
  rw [hphase] at hj ⊢
  split_ifs at hj with hji
  · cases hj
  · rw [if_neg hji]

/-- Nothing has happened to the calls and the history. -/
theorem step_aside (h : Invariant s) {s' : CronState} {e : CronEvent}
    (hcalls : s'.calls = s.calls) (htail : s'.tail = s.tail) (hhistory : s'.history = s.history)
    (hobserved : s'.observed = s.observed)
    (hspared : ∀ i phase, s.phaseOf i = some phase → ∀ sessionId session,
      phase.mayArchive sessionId = true → s'.sessions sessionId = some session →
        ¬Protected session) :
    Invariant s' ∧ LosesNothing s e s' := by
  have hphase := phaseOf_of_calls hcalls
  have hinvariant : Invariant s' := by
    refine ⟨h.chained.of_calls hcalls htail, ?_, ?_, ?_, hobserved ▸ h.read, hobserved ▸ h.safe⟩
    · intro i phase hi
      rw [hphase] at hi
      rw [hhistory, hobserved]
      exact h.sound i phase hi
    · rw [hobserved, hcalls]
      exact h.asked
    · intro i phase hi
      rw [hphase] at hi
      exact hspared i phase hi
  exact ⟨hinvariant, losesNothing_of_history hinvariant hhistory fun i _ _ _ => (hphase i).symm⟩

theorem step_still (h : Invariant s) (e : CronEvent) : Invariant s ∧ LosesNothing s e s :=
  step_aside h rfl rfl rfl rfl h.spared

theorem step_resolve (h : Invariant s) {i : ℕ} {succeeds : Bool} {awaiting : Awaiting}
    (hi : s.phaseOf i = some (.running awaiting)) (hread : Readable s (.resolve i succeeds)) :
    Invariant (if succeeds then s.succeed i awaiting else s.fail i awaiting) ∧
      LosesNothing s (.resolve i succeeds)
        (if succeeds then s.succeed i awaiting else s.fail i awaiting) := by
  cases succeeds with
  | true =>
    obtain ⟨s₁, p, extra, heq, hadvance⟩ := h.advance_succeed hi
    rw [if_pos rfl, heq]
    exact ⟨h.advance hi hadvance, h.losesNothing_of_advance hi hadvance⟩
  | false =>
    obtain ⟨s₁, p, extra, heq, hadvance⟩ := h.advance_fail hi (hread _ hi)
    rw [if_neg (by simp), heq]
    exact ⟨h.advance hi hadvance, h.losesNothing_of_advance hi hadvance⟩

theorem step_session (h : Invariant s) {sessionId : String} {session : Option CronSessionInfo}
    (hread : Readable s (.session sessionId session)) :
    Invariant (s.step (.session sessionId session)) ∧
      LosesNothing s (.session sessionId session) (s.step (.session sessionId session)) := by
  refine step_aside h rfl rfl rfl rfl ?_
  intro i phase hi id found hmay hfound
  simp only [CronState.step] at hfound
  split_ifs at hfound with hid
  · subst hfound hid
    obtain ⟨call, hcall, rfl⟩ := CronState.exists_call_of_phaseOf hi
    exact hread ⟨call, hcall, hmay⟩
  · exact h.spared i phase hi id found hmay hfound

theorem step_good (h : Invariant s) {e : CronEvent} (hread : Readable s e) :
    Invariant (s.step e) ∧ LosesNothing s e (s.step e) := by
  cases e with
  | call job => exact step_enqueue h job _
  | cleanupAllCronSessions listed =>
    simp only [CronState.step]
    split_ifs
    · exact step_enqueue h .cleanup _
    · exact step_still h _
  | begin i =>
    simp only [CronState.step]
    cases hi : s.calls[i]? with
    | none => exact step_still h _
    | some call =>
      simp only
      split_ifs with hbegins
      · exact step_begin h hi hbegins.1 hbegins.2
      · exact step_still h _
  | resolve i succeeds =>
    simp only [CronState.step]
    rcases hi : s.phaseOf i with _ | _ | awaiting | _ | _
    · exact step_still h _
    · exact step_still h _
    · exact step_resolve h hi hread
    · exact step_still h _
    · exact step_still h _
  | settle i =>
    simp only [CronState.step]
    rcases hi : s.phaseOf i with _ | _ | _ | outcome | _
    · exact step_still h _
    · exact step_still h _
    · exact step_still h _
    · exact step_through h hi rfl
    · exact step_still h _
  | session sessionId session => exact step_session h hread
  | configure config => exact step_aside h rfl rfl rfl rfl h.spared

end Steps

theorem invariant_initial (config : Option SessionConfig) (history : List CronSessionRecord)
    (sessions : String → Option CronSessionInfo) :
    Invariant (cronMachine config history sessions).initial where
  chained :=
    { begun := fun _ _ hi => by cases hi
      previous := fun _ _ hi => by cases hi
      tail := fun _ hj => by cases hj }
  sound _ _ hi := by cases hi
  asked _ ho := by cases ho
  spared _ _ hi := by cases hi
  read _ _ ho := by cases ho
  safe _ _ _ ho := by cases ho

/-- A run that cleans up three sessions of which one is to be kept, where the newest is started
meanwhile and the archiving of one fails. -/
def cleanupRun : List CronEvent :=
  [.call (.run ⟨"c", 3⟩ (.new (some (some 1)))), .cleanupAllCronSessions (.new none), .begin 0,
    .resolve 0 true, .resolve 0 true, .resolve 0 true, .resolve 0 true, .resolve 0 true,
    .resolve 0 true, .session "c" (some ⟨.branch, false, true⟩), .resolve 0 true, .resolve 0 false,
    .resolve 0 true, .settle 0, .begin 1]

/-- Every session is there and neither started nor compressed. -/
def allVisible : String → Option CronSessionInfo := fun _ => some ⟨.branch, false, false⟩

/-- The run of a cleanup that cannot read the session of its one record. -/
def unreadRun : List CronEvent :=
  [.call .cleanup, .begin 0, .resolve 0 true, .resolve 0 true, .resolve 0 false, .resolve 0 true]

end CronHistory

end Kinetick
