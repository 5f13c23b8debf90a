import Kinetick.Goal.NoProgress
import Kinetick.Proofs.GoalAnswers

/-!
# No-progress pauses come exactly on time

The counters of a Goal tell how long the runs are that end the history: of Turns without a tool, of
equal replies, of verdicts with the same gap. So the first pause is at the end of the first run that is
as long as the limit.
-/

namespace Kinetick.Goal

open Effect

variable {goalId : String} {db : GoalTable} {state : ThreadGoalState} {limit : JsNumber}

/-! ## Runs at the end of a history -/

section Runs

variable {α : Type*} {a b : α} {xs : List α}

theorem replicate_suffix_concat (n : ℕ) :
    List.replicate (n + 1) a <:+ xs ++ [b] ↔ a = b ∧ List.replicate n a <:+ xs := by
  rw [List.suffix_concat_iff, List.replicate_succ']
  constructor
  · rintro (h | ⟨tail, heq, htail⟩)
    · simp at h
    · obtain ⟨rfl, hab⟩ := List.append_inj' heq rfl
      exact ⟨List.singleton_inj.1 hab, htail⟩
  · rintro ⟨rfl, h⟩
    exact .inr ⟨_, rfl, h⟩

theorem replicate_suffix_of_last_ne (h : xs.getLast? ≠ some a) (n : ℕ) :
    List.replicate n a <:+ xs ↔ n = 0 := by
  rcases n with _ | n
  · simp
  · simp only [Nat.add_eq_zero_iff, Nat.one_ne_zero, and_false, iff_false]
    rintro ⟨before, rfl⟩
    exact h (by simp [List.replicate_succ'])

/-- The run of an element at the end goes on or starts anew. -/
theorem run_concat [DecidableEq α] {length : ℕ}
    (h : xs.getLast? = some a → ∀ n, List.replicate n a <:+ xs ↔ n ≤ length) (n : ℕ) :
    List.replicate n a <:+ xs ++ [a] ↔ n ≤ (if xs.getLast? = some a then length else 0) + 1 := by
  rcases n with _ | n
  · simp
  rw [replicate_suffix_concat]
  split_ifs with hlast
  · rw [h hlast]
    simp
  · rw [replicate_suffix_of_last_ne hlast]
    simp

end Runs

/-! ## What the breaker has counted -/

/-- The counters are the lengths of the runs that end the history. -/
structure Counted (os : List BreakerObservation) (state : ThreadGoalState) : Prop where
  absent : ∀ n, ToolsAbsent n os ↔ n ≤ state.noToolStreak
  last : state.replyFingerprint = (os.filterMap (·.fingerprint)).getLast?
  replies : ∀ f, (os.filterMap (·.fingerprint)).getLast? = some f → ∀ n,
    List.replicate n f <:+ os.filterMap (·.fingerprint) ↔ n ≤ state.noProgressStreak + 1

theorem Counted.nil (hlast : state.replyFingerprint = none) (habsent : state.noToolStreak = 0) :
    Counted [] state := by
  refine ⟨fun n => ?_, hlast, fun f hf => ?_⟩
  · rw [ToolsAbsent, habsent]
    simp
  · simp at hf

/-- What is asked of the breaker by an observation. -/
abbrev BreakerObservation.asked (o : BreakerObservation) (expectedEpoch : ℤ) (limit : JsNumber) :
    ThreadGoalBreakerInput :=
  { expectedEpoch, fingerprint := o.fingerprint, toolActivity := o.toolActivity, limit
    pauseReason := o.pauseReason }

/-- A limit of two or more pauses on the run that is as long, and nudges on a shorter one of two. -/
theorem strongerAction_decide {n : ℕ} (hn : 2 ≤ n) (a b : ℕ) :
    (strongerAction (decideAction a n) (decideAction b n) = .pause ↔ n ≤ a ∨ n ≤ b) ∧
      (strongerAction (decideAction a n) (decideAction b n) = .nudge ↔
        ¬ (n ≤ a ∨ n ≤ b) ∧ (2 ≤ a ∨ 2 ≤ b)) := by
  unfold strongerAction decideAction
  split_ifs <;> simp_all <;> omega

theorem two_le_flooredAtLeast (limit : JsNumber) : 2 ≤ flooredAtLeast 2 limit := by
  unfold flooredAtLeast
  split
  · exact Nat.le_max_left _ _
  · exact Nat.le_refl _

section Score

variable {os : List BreakerObservation} (h : Counted os state) (o : BreakerObservation) (epoch : ℤ)

include h

theorem absent_concat (n : ℕ) :
    ToolsAbsent n (os ++ [o]) ↔
      n ≤ (scoreBreaker state (o.asked epoch limit)).nextNoToolStreak := by
  have hstreak : (scoreBreaker state (o.asked epoch limit)).nextNoToolStreak =
      if o.toolActivity = .absent then state.noToolStreak + 1 else 0 := rfl
  rw [ToolsAbsent, List.map_append, List.map_singleton, hstreak]
  rcases n with _ | n
  · simp
  rw [replicate_suffix_concat]
  by_cases habsent : o.toolActivity = .absent
  · rw [if_pos habsent, Nat.succ_le_succ_iff, ← h.absent]
    exact and_iff_right habsent.symm
  · rw [if_neg habsent]
    simp [Ne.symm habsent]

theorem replies_concat {f : String} (hf : o.fingerprint = some f) (n : ℕ) :
    List.replicate n f <:+ (os ++ [o]).filterMap (·.fingerprint) ↔
      n ≤ (scoreBreaker state (o.asked epoch limit)).nextReplyStreak + 1 := by
  have hrun := run_concat (h.replies f) n
  rw [List.filterMap_append, List.filterMap_cons_some hf, List.filterMap_nil, hrun]
  simp only [scoreBreaker, BreakerObservation.asked, hf, h.last, Option.isSome_some, true_and, if_true]

theorem counted_concat {next : ThreadGoalState}
    (hnext : next.replyFingerprint = (scoreBreaker state (o.asked epoch limit)).nextFingerprint ∧
      next.noProgressStreak = (scoreBreaker state (o.asked epoch limit)).nextReplyStreak ∧
      next.noToolStreak = (scoreBreaker state (o.asked epoch limit)).nextNoToolStreak) :
    Counted (os ++ [o]) next := by
  obtain ⟨hlast, hreplies, habsent⟩ := hnext
  rcases hf : o.fingerprint with _ | f
  · have hsame : (os ++ [o]).filterMap (·.fingerprint) = os.filterMap (·.fingerprint) := by
      simp [hf]
    refine ⟨fun n => by rw [habsent, absent_concat h], ?_, fun f hlast' n => ?_⟩
    · rw [hlast, hsame, ← h.last]
      simp [scoreBreaker, BreakerObservation.asked, hf]
    · rw [hsame] at hlast' ⊢
      rw [h.replies f hlast', hreplies]
      simp [scoreBreaker, BreakerObservation.asked, hf]
  · have hlast' : ((os ++ [o]).filterMap (·.fingerprint)).getLast? = some f := by
      rw [List.filterMap_append, List.filterMap_cons_some hf]
      simp
    refine ⟨fun n => by rw [habsent, absent_concat h], ?_, fun g hg n => ?_⟩
    · rw [hlast, hlast']
      simp [scoreBreaker, BreakerObservation.asked, hf]
    · rw [hlast'] at hg
      obtain rfl := Option.some.inj hg
      rw [hreplies, replies_concat h o epoch hf]

theorem repliesRepeat_concat {n : ℕ} :
    RepliesRepeat n (os ++ [o]) ↔ o.fingerprint.isSome = true ∧
      n ≤ (scoreBreaker state (o.asked epoch limit)).nextReplyStreak + 1 := by
  simp only [RepliesRepeat, List.getLast?_append, List.getLast?_singleton, Option.some_or,
    Option.bind_some]
  rcases hf : o.fingerprint with _ | f
  · simp
  · simp only [Option.some.injEq, exists_eq_left', Option.isSome_some, true_and]
    exact replies_concat h o epoch hf n

/-- The action is a pause where no progress is as long as the limit, and a nudge where it is not but
as long as two. -/
theorem action_eq :
    ((scoreBreaker state (o.asked epoch limit)).action = .pause ↔
      NoProgress (flooredAtLeast 2 limit) (os ++ [o])) ∧
    ((scoreBreaker state (o.asked epoch limit)).action = .nudge ↔
      ¬ NoProgress (flooredAtLeast 2 limit) (os ++ [o]) ∧ NoProgress 2 (os ++ [o])) := by
  have hlimit := two_le_flooredAtLeast limit
  obtain ⟨score, hscore⟩ : ∃ score, scoreBreaker state (o.asked epoch limit) = score := ⟨_, rfl⟩
  obtain ⟨replies, hreplies⟩ : ∃ replies, replies =
    if o.fingerprint.isSome = true ∧ state.replyFingerprint = o.fingerprint
      then score.nextReplyStreak + 1 else 0 := ⟨_, rfl⟩
  have haction : score.action = strongerAction (decideAction replies (flooredAtLeast 2 limit))
      (decideAction score.nextNoToolStreak (flooredAtLeast 2 limit)) := by
    have hzero : decideAction 0 (flooredAtLeast 2 limit) = .none := by
      unfold decideAction
      rw [if_neg (by omega), if_neg (by omega)]
    rw [hreplies, ← hscore]
    simp only [scoreBreaker, BreakerObservation.asked]
    congr 1
    · split_ifs <;> first | rfl | exact hzero.symm
    · split_ifs <;> first | rfl | exact hzero.symm
  have hcount : ∀ n, 2 ≤ n → (NoProgress n (os ++ [o]) ↔
      n ≤ replies ∨ n ≤ score.nextNoToolStreak) := by
    intro n hn
    have hnone : ¬ (o.fingerprint.isSome = true ∧ state.replyFingerprint = o.fingerprint) →
        o.fingerprint.isSome = true → score.nextReplyStreak = 0 := by
      intro hnot hsome
      rw [← hscore]
      simp only [scoreBreaker, BreakerObservation.asked]
      rw [if_pos hsome, if_neg hnot]
    rw [NoProgress, repliesRepeat_concat h o epoch (n := n), absent_concat h o epoch, hscore, hreplies]
    refine or_congr ?_ Iff.rfl
    split_ifs with hrepeated
    · exact and_iff_right hrepeated.1
    · constructor
      · rintro ⟨hsome, hle⟩
        rw [hnone hrepeated hsome] at hle
        omega
      · intro hle
        omega
  obtain ⟨hpause, hnudge⟩ := strongerAction_decide hlimit replies score.nextNoToolStreak
  rw [hscore, haction, hpause, hnudge, hcount _ hlimit, hcount 2 (Nat.le_refl 2)]
  exact ⟨Iff.rfl, Iff.rfl⟩

end Score

/-! ## What a call leaves -/

/-- A write of an active Goal at its epoch is read of its row. -/
theorem read_written (hread : readById goalId db = some state) (hactive : state.status = .active) :
    ∃ row, rowToThreadGoalState row = some state ∧
      db.rows.countP (activeAt goalId state.updatedAt) ≠ 0 ∧
      ∀ f (hf : goalKeys.Fixes f), (∀ r, (f r).goalId = r.goalId) →
        readById goalId (db.update (activeAt goalId state.updatedAt) f hf) =
          rowToThreadGoalState (f row) := by
  obtain ⟨row, hmem, hid, hrow, honly⟩ := selected_of_read hread
  have hat : activeAt goalId state.updatedAt row = true :=
    activeAt_iff.2 ⟨hid, (updatedAt_of_read hrow).symm, (status_of_read hrow (by simp)).1 hactive⟩
  refine ⟨row, hrow, countP_pos hmem hat, fun f hf hgoal => ?_⟩
  obtain ⟨hmem', -⟩ := mem_update hf hmem hat fun r hr hp => honly r hr (activeAt_iff.1 hp).1
  have hselected := selected_of_mem hmem'
  rw [hgoal, hid] at hselected
  rw [readById, hselected]
  rfl

/-- Where no row is active at the epoch, nothing is written. -/
theorem none_activeAt (hread : readById goalId db = some state) (hstopped : state.status ≠ .active)
    (epoch : ℤ) : db.rows.countP (activeAt goalId epoch) = 0 := by
  obtain ⟨row, hmem, hid, hrow, honly⟩ := selected_of_read hread
  rw [List.countP_eq_zero]
  intro r hr hat
  obtain ⟨hrid, -, hactive⟩ := activeAt_iff.1 hat
  obtain rfl := honly r hr hrid
  exact hstopped ((status_of_read hrow (by simp)).2 hactive)

/-- What is read of the columns that the breaker and the verifier's record write. -/
theorem read_columns {row : ThreadGoalDbRow} (h : Readable row) :
    ∃ state, rowToThreadGoalState row = some state ∧ state.status = readStatus row.status ∧
      state.replyFingerprint = row.replyFingerprint ∧
      state.noProgressStreak = row.noProgressStreak ∧ state.noToolStreak = row.noToolStreak ∧
      state.updatedAt = row.updatedAtMs ∧ state.objective = row.objective ∧
      state.statusReason = row.statusReason ∧
      state.lastVerification = readLastVerification row.lastVerification := by
  obtain ⟨hgoal, hsession, hobjective⟩ := h
  unfold rowToThreadGoalState
  rw [if_neg (by simp [hgoal, hsession, hobjective])]
  exact ⟨_, rfl, rfl, rfl, rfl, rfl, rfl, rfl, rfl, rfl⟩

/-- The breaker of an active Goal at its epoch acts, and leaves the counters it counts. -/
theorem breaker_acts (hread : readById goalId db = some state) (hactive : state.status = .active)
    (input : ThreadGoalBreakerInput) (hepoch : input.expectedEpoch = state.updatedAt) (now : ℤ) :
    ∃ next, breakerAction (updateThreadGoalBreaker goalId input now db).1 =
        some (scoreBreaker state input).action ∧
      readById goalId (updateThreadGoalBreaker goalId input now db).2 = some next ∧
      (next.replyFingerprint = (scoreBreaker state input).nextFingerprint ∧
        next.noProgressStreak = (scoreBreaker state input).nextReplyStreak ∧
        next.noToolStreak = (scoreBreaker state input).nextNoToolStreak) ∧
      next.status = if (scoreBreaker state input).action = .pause then .paused else .active := by
  obtain ⟨row, hrow, hcount, hwritten⟩ := read_written hread hactive
  have hreadable := readable_of_read hrow
  have hstate : (db.rows.find? (·.goalId = goalId)).bind rowToThreadGoalState = some state := hread
  obtain ⟨score, hscore⟩ : ∃ score, scoreBreaker state input = score := ⟨_, rfl⟩
  rw [hscore]
  by_cases hsame : score.unchanged state = true
  · have hkept := hsame
    simp only [BreakerScore.unchanged, Bool.and_eq_true, decide_eq_true_eq] at hkept
    obtain ⟨⟨⟨haction, hfingerprint⟩, hreplies⟩, htools⟩ := hkept
    have hrun : updateThreadGoalBreaker goalId input now db =
        (.ok (.acted .none state state.updatedAt none), db) := by
      refine atomically_of_ok ?_
      rw [getById_bind, hstate]
      dsimp only
      rw [hscore, if_pos hsame, if_neg (by simp [hepoch]), hactive]
      rfl
    rw [hrun, haction]
    exact ⟨state, rfl, hread, ⟨hfingerprint.symm, hreplies.symm, htools.symm⟩, hactive⟩
  · obtain ⟨nextStatus, hstatus⟩ : ∃ status, (if score.action = .pause then ThreadGoalStatus.paused
      else state.status) = status := ⟨_, rfl⟩
    obtain ⟨nextReason, hreason⟩ : ∃ reason, (if score.action = .pause then
      some ((input.pauseReason.map NoProgressReason.statusReason).getD .pausedNoProgress)
      else state.statusReason) = reason := ⟨_, rfl⟩
    obtain ⟨write, hwrite⟩ : ∃ write : ThreadGoalDbRow → ThreadGoalDbRow, (fun r => { r with
        replyFingerprint := score.nextFingerprint
        noProgressStreak := score.nextReplyStreak
        noToolStreak := score.nextNoToolStreak
        status := some nextStatus
        statusReason := nextReason
        updatedAtMs := max now (state.updatedAt + 1) }) = write := ⟨_, rfl⟩
    have hfixes : goalKeys.Fixes write :=
      goalKeys_fixes (by rw [← hwrite]; intro r; rfl) (by rw [← hwrite]; intro r; rfl)
    have hrun : updateThreadGoalBreaker goalId input now db =
        (.ok (.acted score.action { state with
            status := nextStatus
            statusReason := nextReason
            replyFingerprint := score.nextFingerprint
            noProgressStreak := score.nextReplyStreak
            noToolStreak := score.nextNoToolStreak
            updatedAt := max now (state.updatedAt + 1)
            executionWait := none } (max now (state.updatedAt + 1)) score.cause),
          db.update (activeAt goalId state.updatedAt) write hfixes) := by
      subst hwrite
      refine atomically_of_ok ?_
      rw [getById_bind, hstate]
      dsimp only
      rw [hscore, if_neg hsame, updateWhere_bind, hepoch, if_neg hcount, hstatus, hreason]
      rfl
    have hread' := hwritten write hfixes (by rw [← hwrite]; intro r; rfl)
    obtain ⟨next, hnext, hstatus', hfingerprint, hreplies, htools, -⟩ :=
      @read_columns (write row) (by rw [← hwrite]; exact hreadable)
    rw [hrun]
    refine ⟨next, rfl, hread'.trans hnext, ⟨?_, ?_, ?_⟩, ?_⟩
    · rw [hfingerprint, ← hwrite]
    · rw [hreplies, ← hwrite]
    · rw [htools, ← hwrite]
    · rw [hstatus', ← hwrite, ← hactive, hstatus]
      rfl

/-- The breaker of a Goal that is stopped is stale, and writes nothing. -/
theorem breaker_stopped (hread : readById goalId db = some state) (hstopped : state.status ≠ .active)
    (input : ThreadGoalBreakerInput) (now : ℤ) :
    breakerAction (updateThreadGoalBreaker goalId input now db).1 = none ∧
      (updateThreadGoalBreaker goalId input now db).2 = db := by
  have hstate : (db.rows.find? (·.goalId = goalId)).bind rowToThreadGoalState = some state := hread
  have hnone := none_activeAt hread hstopped input.expectedEpoch
  obtain ⟨result, hrun, hstale⟩ : ∃ result, updateThreadGoalBreaker goalId input now db =
      (.ok result, db) ∧ breakerAction (.ok result) = none := by
    by_cases hsame : (scoreBreaker state input).unchanged state = true
    · by_cases hepoch : state.updatedAt ≠ input.expectedEpoch
      · refine ⟨.stale .goalEpoch (some state), atomically_of_ok ?_, rfl⟩
        rw [getById_bind, hstate]
        dsimp only
        rw [if_pos hsame, if_pos hepoch]
        rfl
      · refine ⟨.stale .goalStatus (some state), atomically_of_ok ?_, rfl⟩
        rw [getById_bind, hstate]
        dsimp only
        rw [if_pos hsame, if_neg hepoch, if_pos hstopped]
        rfl
    · refine ⟨.stale (if state.updatedAt ≠ input.expectedEpoch then .goalEpoch else .goalStatus)
        (some state), atomically_of_ok ?_, rfl⟩
      rw [getById_bind, hstate]
      dsimp only
      rw [if_neg hsame, updateWhere_bind, if_pos hnone, update_of_countP_zero hnone, breakerStale,
        getById_bind, hstate]
      dsimp only
      split_ifs <;> rfl
  rw [hrun]
  exact ⟨hstale, rfl⟩

/-! ## The breaker's answers -/

theorem currentEpoch_of_read (hread : readById goalId db = some state) :
    currentEpoch goalId db = state.updatedAt := by
  have hstate : (db.rows.find? (·.goalId = goalId)).bind rowToThreadGoalState = some state := hread
  rw [currentEpoch, hstate]
  rfl

theorem breaker_step (hread : readById goalId db = some state) (o : BreakerObservation)
    (first : GoalTable) : (breakerSystem goalId limit first).step db o =
      ((updateThreadGoalBreaker goalId (o.asked state.updatedAt limit) o.now db).2,
        breakerAction
          (updateThreadGoalBreaker goalId (o.asked state.updatedAt limit) o.now db).1) := by
  rw [← currentEpoch_of_read hread]
  rfl

/-- Before the first pause the Goal is active, and the breaker has counted its history. -/
theorem counted_after (hcleared : Cleared goalId db) (os : List BreakerObservation)
    (hbefore : ∀ m < os.length, ¬ NoProgress (flooredAtLeast 2 limit) (os.take (m + 1))) :
    ∃ state, readById goalId ((breakerSystem goalId limit db).after db os) = some state ∧
      state.status = .active ∧ Counted os state := by
  induction os using List.reverseRecOn with
  | nil =>
    obtain ⟨state, hread, hactive, hlast, -, habsent⟩ := hcleared
    exact ⟨state, hread, hactive, .nil hlast habsent⟩
  | append_singleton os o ih =>
    obtain ⟨state, hread, hactive, hcounted⟩ := ih fun m hm => by
      have hlt : m < (os ++ [o]).length := by
        rw [List.length_append]
        omega
      rw [← List.take_append_of_le_length hm]
      exact hbefore m hlt
    obtain ⟨next, -, hread', hcounters, hstatus⟩ := breaker_acts hread hactive
      (o.asked state.updatedAt limit) rfl o.now
    have hlast := hbefore os.length (by simp)
    rw [List.take_of_length_le (by simp)] at hlast
    rw [if_neg fun hpause => hlast ((action_eq hcounted o state.updatedAt).1.1 hpause)] at hstatus
    refine ⟨next, ?_, hstatus, counted_concat hcounted o state.updatedAt hcounters⟩
    rw [Machine.after_append, Machine.after_cons, Machine.after_nil, breaker_step hread]
    exact hread'

/-- A Goal that is stopped is left so by its breaker. -/
theorem stopped_after (hread : readById goalId db = some state) (hstopped : state.status ≠ .active)
    (first : GoalTable) (os : List BreakerObservation) :
    (breakerSystem goalId limit first).after db os = db := by
  induction os with
  | nil => rfl
  | cons o os ih =>
    rw [Machine.after_cons, breaker_step hread, (breaker_stopped hread hstopped _ _).2]
    exact ih

section Answers

variable (hcleared : Cleared goalId db) {os : List BreakerObservation} {n : ℕ} {o : BreakerObservation}

include hcleared

/-- The answer to an observation with no pause before. -/
theorem answer_before (ho : os[n]? = some o)
    (hbefore : ∀ m < n, ¬ NoProgress (flooredAtLeast 2 limit) (os.take (m + 1))) :
    ∃ state next, readById goalId ((breakerSystem goalId limit db).after db (os.take (n + 1))) =
        some next ∧ Counted (os.take n) state ∧
      ((breakerSystem goalId limit db).answers db os)[n]? =
        some (some (scoreBreaker state (o.asked state.updatedAt limit)).action) ∧
      next.status = if (scoreBreaker state (o.asked state.updatedAt limit)).action = .pause
        then .paused else .active := by
  have hlength := (List.getElem?_eq_some_iff.1 ho).1
  have htake : os.take (n + 1) = os.take n ++ [o] := by
    rw [List.take_add_one, ho]
    rfl
  have hprefix : ∀ m < (os.take n).length,
      ¬ NoProgress (flooredAtLeast 2 limit) ((os.take n).take (m + 1)) := by
    intro m hm
    rw [List.length_take] at hm
    rw [List.take_take, Nat.min_eq_left (by omega)]
    exact hbefore m (by omega)
  obtain ⟨state, hread, hactive, hcounted⟩ := counted_after hcleared (os.take n) hprefix
  obtain ⟨next, haction, hread', -, hstatus⟩ := breaker_acts hread hactive
    (o.asked state.updatedAt limit) rfl o.now
  refine ⟨state, next, ?_, hcounted, ?_, hstatus⟩
  · rw [htake, Machine.after_append, Machine.after_cons, Machine.after_nil, breaker_step hread]
    exact hread'
  · rw [Machine.getElem?_answers, ho, Option.map_some, breaker_step hread, haction]

/-- The answers before the first pause, and at it. -/
theorem answer_iff (ho : os[n]? = some o)
    (hbefore : ∀ m < n, ¬ NoProgress (flooredAtLeast 2 limit) (os.take (m + 1))) :
    (((breakerSystem goalId limit db).answers db os)[n]? = some (some .pause) ↔
      NoProgress (flooredAtLeast 2 limit) (os.take (n + 1))) ∧
    (((breakerSystem goalId limit db).answers db os)[n]? = some (some .nudge) ↔
      ¬ NoProgress (flooredAtLeast 2 limit) (os.take (n + 1)) ∧ NoProgress 2 (os.take (n + 1))) ∧
    ∃ next, readById goalId ((breakerSystem goalId limit db).after db (os.take (n + 1))) = some next ∧
      (next.status = .paused ∧ NoProgress (flooredAtLeast 2 limit) (os.take (n + 1)) ∨
        next.status = .active ∧ ¬ NoProgress (flooredAtLeast 2 limit) (os.take (n + 1))) := by
  obtain ⟨state, next, hread, hcounted, hanswer, hstatus⟩ := answer_before hcleared ho hbefore
  have htake : os.take (n + 1) = os.take n ++ [o] := by
    rw [List.take_add_one, ho]
    rfl
  have haction := @action_eq state limit _ hcounted o state.updatedAt
  rw [← htake] at haction
  rw [hanswer, Option.some.injEq, Option.some.injEq]
  refine ⟨haction.1, ?_, next, hread, ?_⟩
  · rw [Option.some.injEq, Option.some.injEq]
    exact haction.2
  · split_ifs at hstatus with hpause
    · exact .inl ⟨hstatus, haction.1.1 hpause⟩
    · exact .inr ⟨hstatus, fun h => hpause (haction.1.2 h)⟩

/-- After the first pause the Goal stays paused, and its breaker answers that it is stale. -/
theorem answer_after {m : ℕ} (hmn : m < n) (hn : n < os.length)
    (hpause : NoProgress (flooredAtLeast 2 limit) (os.take (m + 1)))
    (hbefore : ∀ k < m, ¬ NoProgress (flooredAtLeast 2 limit) (os.take (k + 1))) :
    ((breakerSystem goalId limit db).answers db os)[n]? = some none ∧
      currentStatus goalId ((breakerSystem goalId limit db).after db (os.take (n + 1))) =
        some .paused := by
  obtain ⟨-, -, next, hread, hstatus⟩ :=
    answer_iff hcleared (List.getElem?_eq_getElem (Nat.lt_trans hmn hn)) hbefore
  have hpaused : next.status = .paused := by
    rcases hstatus with h | h
    · exact h.1
    · exact absurd hpause h.2
  have hstays : ∀ k, m < k → (breakerSystem goalId limit db).after db (os.take k) =
      (breakerSystem goalId limit db).after db (os.take (m + 1)) := by
    intro k hk
    have hsplit : os.take k = os.take (m + 1) ++ (os.take k).drop (m + 1) := by
      conv_lhs => rw [← List.take_append_drop (m + 1) (os.take k)]
      rw [List.take_take, Nat.min_eq_left hk]
    rw [hsplit, Machine.after_append]
    exact stopped_after hread (by rw [hpaused]; simp) _ _
  constructor
  · rw [Machine.getElem?_answers, List.getElem?_eq_getElem hn, Option.map_some, hstays n hmn,
      breaker_step hread, (breaker_stopped hread (by rw [hpaused]; simp) _ _).1]
  · rw [hstays (n + 1) (by omega)]
    have hstate : (((breakerSystem goalId limit db).after db (os.take (m + 1))).rows.find?
      (·.goalId = goalId)).bind rowToThreadGoalState = some next := hread
    rw [currentStatus, hstate, Option.map_some, hpaused]

/-- The breaker pauses at the first observation that ends a run as long as the limit, and nudges before
at each that ends a run of two. -/
theorem breaker_trace (hn : n < os.length) :
    (((breakerSystem goalId limit db).answers db os)[n]? = some (some .pause) ∧
        (∀ m < n, ((breakerSystem goalId limit db).answers db os)[m]? ≠ some (some .pause)) ↔
      NoProgress (flooredAtLeast 2 limit) (os.take (n + 1)) ∧
        ∀ m < n, ¬ NoProgress (flooredAtLeast 2 limit) (os.take (m + 1))) ∧
    (((breakerSystem goalId limit db).answers db os)[n]? = some (some .nudge) ↔
      NoProgress 2 (os.take (n + 1)) ∧
        ∀ m ≤ n, ¬ NoProgress (flooredAtLeast 2 limit) (os.take (m + 1))) ∧
    (currentStatus goalId ((breakerSystem goalId limit db).after db (os.take (n + 1))) =
        some .paused ↔ ∃ m ≤ n, NoProgress (flooredAtLeast 2 limit) (os.take (m + 1))) := by
  have ho := List.getElem?_eq_getElem hn
  by_cases hbefore : ∀ m < n, ¬ NoProgress (flooredAtLeast 2 limit) (os.take (m + 1))
  · obtain ⟨hpause, hnudge, next, hread, hstatus⟩ := answer_iff hcleared ho hbefore
    have hstate : (((breakerSystem goalId limit db).after db (os.take (n + 1))).rows.find?
      (·.goalId = goalId)).bind rowToThreadGoalState = some next := hread
    refine ⟨?_, ?_, ?_⟩
    · rw [hpause]
      refine and_congr_right fun _ => iff_of_true (fun m hm hpaused => ?_) hbefore
      have hlt := Nat.lt_trans hm hn
      obtain ⟨hiff, -⟩ := answer_iff hcleared (List.getElem?_eq_getElem hlt) fun k hk =>
        hbefore k (Nat.lt_trans hk hm)
      exact hbefore m hm (hiff.1 hpaused)
    · rw [hnudge, and_comm]
      refine and_congr_right fun _ => ⟨fun hnot m hm => ?_, fun h => h n (Nat.le_refl n)⟩
      rcases Nat.lt_or_eq_of_le hm with hlt | rfl
      · exact hbefore m hlt
      · exact hnot
    · rw [currentStatus, hstate, Option.map_some, Option.some.injEq]
      rcases hstatus with ⟨hpaused, hrun⟩ | ⟨hactive, hrun⟩
      · exact iff_of_true hpaused ⟨n, Nat.le_refl n, hrun⟩
      · rw [hactive]
        refine iff_of_false (by simp) ?_
        rintro ⟨m, hm, hrun'⟩
        rcases Nat.lt_or_eq_of_le hm with hlt | rfl
        · exact hbefore m hlt hrun'
        · exact hrun hrun'
  · push Not at hbefore
    -- the first pause came before
    obtain ⟨m, ⟨hmn, hrun⟩, hfirst⟩ : ∃ m, (m < n ∧
        NoProgress (flooredAtLeast 2 limit) (os.take (m + 1))) ∧
        ∀ k < m, ¬ (k < n ∧ NoProgress (flooredAtLeast 2 limit) (os.take (k + 1))) := by
      classical
      exact ⟨Nat.find hbefore, Nat.find_spec hbefore, fun k hk => Nat.find_min hbefore hk⟩
    obtain ⟨hstale, hpaused⟩ := answer_after hcleared hmn hn hrun fun k hk h =>
      hfirst k hk ⟨Nat.lt_trans hk hmn, h⟩
    rw [hstale, hpaused]
    refine ⟨iff_of_false (by simp) fun h => h.2 m hmn hrun, iff_of_false (by simp) fun h =>
      h.2 m (Nat.le_of_lt hmn) hrun, iff_of_true rfl ⟨m, Nat.le_of_lt hmn, hrun⟩⟩

end Answers

end Kinetick.Goal
