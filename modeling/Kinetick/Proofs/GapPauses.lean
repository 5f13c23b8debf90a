import Kinetick.Proofs.NoProgressPauses
import Mathlib.Data.List.Dedup

/-!
# A gap reported too often pauses the Goal

Two gaps have the same fingerprint if the same items are missing, up to white space: the items are
written in the order of their code units, each once. So the streak of a recorded verdict is the length
of the run of its gap at the end of the history.
-/

namespace Kinetick.Goal

open Effect

/-! ## Gaps and their texts -/

theorem codeUnits_cons (c : Char) (cs : List Char) :
    codeUnits (String.ofList (c :: cs)) =
      (if c.toNat < 65536 then [c.toNat]
        else [55296 + (c.toNat - 65536) / 1024, 56320 + (c.toNat - 65536) % 1024]) ++
        codeUnits (String.ofList cs) := by
  simp [codeUnits]

/-- No character is half of a surrogate pair. -/
theorem not_surrogate (c : Char) : c.toNat < 55296 ∨ 57343 < c.toNat ∧ c.toNat < 1114112 := by
  rcases c.valid with h | h
  · exact .inl h
  · exact .inr h

theorem codeUnits_ofList_injective : ∀ cs ds : List Char,
    codeUnits (String.ofList cs) = codeUnits (String.ofList ds) → cs = ds
  | [], [], _ => rfl
  | [], d :: ds, h => by
    rw [codeUnits_cons] at h
    split_ifs at h <;> simp [codeUnits] at h
  | c :: cs, [], h => by
    rw [codeUnits_cons] at h
    split_ifs at h <;> simp [codeUnits] at h
  | c :: cs, d :: ds, h => by
    rw [codeUnits_cons, codeUnits_cons] at h
    have hc := not_surrogate c
    have hd := not_surrogate d
    have hhead : c.toNat = d.toNat ∧
        codeUnits (String.ofList cs) = codeUnits (String.ofList ds) := by
      split_ifs at h <;> simp only [List.cons_append, List.nil_append, List.cons.injEq] at h
      · exact h
      · omega
      · omega
      · obtain ⟨hhigh, hlow, hrest⟩ := h
        exact ⟨by omega, hrest⟩
    rw [Char.toNat_inj.1 hhead.1, codeUnits_ofList_injective cs ds hhead.2]

theorem codeUnits_injective {a b : String} (h : codeUnits a = codeUnits b) : a = b := by
  have hlists := codeUnits_ofList_injective a.toList b.toList (by
    rwa [String.ofList_toList, String.ofList_toList])
  exact String.toList_injective hlists

/-- The order of texts by their code units. -/
def textLe (a b : String) : Bool := !(codeUnits b < codeUnits a)

theorem textLe_iff {a b : String} : textLe a b = true ↔ ¬codeUnits b < codeUnits a := by
  simp [textLe]

theorem normalizeMissing_eq (values : List String) :
    normalizeMissing values =
      ((((values.map collapseWhitespace).filter (· ≠ "")).reverse.dedup).reverse).mergeSort textLe :=
  rfl

theorem mem_normalizeMissing {values : List String} {item : String} :
    item ∈ normalizeMissing values ↔ item ∈ (values.map collapseWhitespace).filter (· ≠ "") := by
  rw [normalizeMissing_eq, (List.mergeSort_perm _ _).mem_iff, List.mem_reverse, List.mem_dedup,
    List.mem_reverse]

theorem normalizeMissing_sorted (values : List String) :
    (normalizeMissing values).Pairwise fun a b => textLe a b = true := by
  rw [normalizeMissing_eq]
  refine List.pairwise_mergeSort (fun a b c hab hbc => ?_) (fun a b => ?_) _
  · rw [textLe_iff, List.not_lt] at *
    exact List.le_trans hab hbc
  · rw [Bool.or_eq_true, textLe_iff, textLe_iff, List.not_lt, List.not_lt]
    exact List.le_total _ _

theorem normalizeMissing_nodup (values : List String) : (normalizeMissing values).Nodup := by
  rw [normalizeMissing_eq, (List.mergeSort_perm _ _).nodup_iff, List.nodup_reverse]
  exact List.nodup_dedup _

/-- The texts of two gaps are equal where the same items are missing. -/
theorem normalizeMissing_inj {a b : LastVerification} :
    normalizeMissing a.missing = normalizeMissing b.missing ↔ SameGap a b := by
  constructor
  · intro h item
    rw [gapItems, gapItems, ← mem_normalizeMissing, ← mem_normalizeMissing, h]
  · intro h
    have hperm : (normalizeMissing a.missing).Perm (normalizeMissing b.missing) :=
      (List.perm_ext_iff_of_nodup (normalizeMissing_nodup _) (normalizeMissing_nodup _)).2
        fun item => by
          rw [mem_normalizeMissing, mem_normalizeMissing]
          exact h item
    refine List.Perm.eq_of_pairwise (fun x y _ _ hxy hyx => ?_) (normalizeMissing_sorted _)
      (normalizeMissing_sorted _) hperm
    rw [textLe_iff, List.not_lt] at hxy hyx
    exact codeUnits_injective (List.le_antisymm hxy hyx)

/-! ## What the record has counted -/

/-- The gap a verdict reports, in one text. -/
def gapKey (o : VerificationObservation) : Option (List String) :=
  if o.result.verdict = .notMet then some (normalizeMissing o.result.missing) else none

theorem gapKey_eq_some {o : VerificationObservation} {gap : List String} :
    gapKey o = some gap ↔ o.result.verdict = .notMet ∧ normalizeMissing o.result.missing = gap := by
  unfold gapKey
  split_ifs with h <;> simp [h]

theorem gapRepeats_iff {n : ℕ} {os : List VerificationObservation} :
    GapRepeats n os ↔ ∃ gap, (os.map gapKey).getLast? = some (some gap) ∧
      List.replicate n (some gap) <:+ os.map gapKey := by
  simp only [GapRepeats, List.getLast?_map, Option.map_eq_some_iff]
  constructor
  · rintro ⟨last, before, tail, rfl, hlast, hverdict, rfl, hsame⟩
    refine ⟨normalizeMissing last.result.missing, ⟨last, hlast, gapKey_eq_some.2 ⟨hverdict, rfl⟩⟩, ?_⟩
    rw [List.map_append]
    refine ⟨before.map gapKey, ?_⟩
    congr 1
    refine (List.eq_replicate_iff.2 ⟨List.length_map _, fun key hkey => ?_⟩).symm
    obtain ⟨o, ho, rfl⟩ := List.mem_map.1 hkey
    obtain ⟨hnot, hgap⟩ := hsame o ho
    exact gapKey_eq_some.2 ⟨hnot, normalizeMissing_inj.2 hgap⟩
  · rintro ⟨gap, ⟨last, hlast, hkey⟩, before, heq⟩
    obtain ⟨hverdict, hgap⟩ := gapKey_eq_some.1 hkey
    obtain ⟨front, tail, rfl, -, htail⟩ := List.map_eq_append_iff.1 heq.symm
    refine ⟨last, front, tail, rfl, hlast, hverdict, ?_, fun o ho => ?_⟩
    · rw [← List.length_map (f := gapKey), htail, List.length_replicate]
    · have hmem : gapKey o ∈ tail.map gapKey := List.mem_map_of_mem ho
      rw [htail] at hmem
      obtain ⟨hnot, hsame⟩ := gapKey_eq_some.1 (List.eq_of_mem_replicate hmem)
      exact ⟨hnot, normalizeMissing_inj.1 (hsame.trans hgap.symm)⟩

section Recorded

variable (fingerprint : List String → String)

/-- The recorded verdict is the last, and its streak the length of the run of its gap. -/
structure Recorded (os : List VerificationObservation) (state : ThreadGoalState) : Prop where
  found : ∀ gap, (os.map gapKey).getLast? = some (some gap) →
    ∃ v, state.lastVerification = some v ∧ v.verdict = .notMet
  gap : ∀ v, state.lastVerification = some v → v.verdict = .notMet →
    ∃ gap, (os.map gapKey).getLast? = some (some gap) ∧
      v.missingFingerprint = some (fingerprint gap) ∧
      ∀ n, List.replicate n (some gap) <:+ os.map gapKey ↔ n ≤ v.notMetStreak

variable {fingerprint} {os : List VerificationObservation} {o : VerificationObservation}
  {state : ThreadGoalState}

theorem recorded_streak (h : Recorded fingerprint os state)
    (hdiffer : FingerprintsDiffer fingerprint (os ++ [o])) {gap : List String}
    (hgap : gapKey o = some gap) (n : ℕ) :
    List.replicate n (some gap) <:+ (os ++ [o]).map gapKey ↔
      n ≤ (normalizeVerificationResult fingerprint state.lastVerification o.result).notMetStreak := by
  obtain ⟨hverdict, hmissing⟩ := gapKey_eq_some.1 hgap
  have hstreak : (normalizeVerificationResult fingerprint state.lastVerification
      o.result).notMetStreak = ((state.lastVerification.filter fun p => p.verdict = .notMet &&
        p.missingFingerprint = some (fingerprint gap)).map (·.notMetStreak)).getD 0 + 1 := by
    unfold normalizeVerificationResult
    rw [if_neg (by simp [hverdict]), ← hmissing]
    dsimp only
    rcases state.lastVerification with _ | v
    · rfl
    · by_cases hsame : v.verdict = .notMet ∧
        v.missingFingerprint = some (fingerprint (normalizeMissing o.result.missing))
      · simp [Option.filter, hsame.1, hsame.2]
      · simp [Option.filter, hsame]
  rw [List.map_append, List.map_singleton, hgap, hstreak]
  by_cases hlast : (os.map gapKey).getLast? = some (some gap)
  · obtain ⟨v, hv, hnot⟩ := h.found gap hlast
    obtain ⟨gap', hlast', hfingerprint, hrun⟩ := h.gap v hv hnot
    obtain rfl : gap = gap' := by
      rw [hlast] at hlast'
      exact Option.some.inj (Option.some.inj hlast')
    have hfilter : (state.lastVerification.filter fun p =>
        p.verdict = .notMet && p.missingFingerprint = some (fingerprint gap)) = some v := by
      rw [hv, Option.filter_some, if_pos (by simp [hnot, hfingerprint])]
    have hconcat := run_concat (fun _ => hrun) n
    rw [if_pos hlast] at hconcat
    rw [hfilter, hconcat]
    rfl
  · have hfilter : (state.lastVerification.filter fun p =>
        p.verdict = .notMet && p.missingFingerprint = some (fingerprint gap)) = none := by
      rw [Option.filter_eq_none_iff]
      intro v hv hsame
      simp only [Bool.and_eq_true, decide_eq_true_eq] at hsame
      obtain ⟨gap', hlast', hfingerprint, -⟩ := h.gap v hv hsame.1
      obtain ⟨o', ho', hgap'⟩ := List.mem_map.1 (List.mem_of_getLast? hlast')
      obtain ⟨-, hmissing'⟩ := gapKey_eq_some.1 hgap'
      have heq := hdiffer o (by simp) o' (by simp [ho']) (by
        rw [hmissing, hmissing']
        exact Option.some.inj (hsame.2.symm.trans hfingerprint))
      rw [hmissing, hmissing'] at heq
      exact hlast (heq ▸ hlast')
    have hconcat := @run_concat _ (some gap) (os.map gapKey) _ 0 (fun h => absurd h hlast) n
    rw [if_neg hlast] at hconcat
    rw [hfilter, hconcat]
    rfl

theorem Recorded.nil (h : state.lastVerification = none) : Recorded fingerprint [] state := by
  refine ⟨fun gap hgap => by simp at hgap, fun v hv => ?_⟩
  rw [h] at hv
  cases hv

theorem Recorded.concat (h : Recorded fingerprint os state)
    (hdiffer : FingerprintsDiffer fingerprint (os ++ [o])) {next : ThreadGoalState}
    (hnext : next.lastVerification =
      some (normalizeVerificationResult fingerprint state.lastVerification o.result)) :
    Recorded fingerprint (os ++ [o]) next := by
  have hlast : ((os ++ [o]).map gapKey).getLast? = some (gapKey o) := by simp
  have hsame : (normalizeVerificationResult fingerprint state.lastVerification o.result).verdict =
      o.result.verdict := by
    unfold normalizeVerificationResult
    split_ifs <;> rfl
  constructor
  · intro gap hgap
    rw [hlast] at hgap
    obtain ⟨hverdict, -⟩ := gapKey_eq_some.1 (Option.some.inj hgap)
    exact ⟨_, hnext, hsame.trans hverdict⟩
  · intro v hv hverdict
    obtain rfl := Option.some.inj (hnext.symm.trans hv)
    have hgap := gapKey_eq_some.2 ⟨hsame.symm.trans hverdict, rfl⟩
    refine ⟨_, by rw [hlast, hgap], ?_, recorded_streak h hdiffer hgap⟩
    unfold normalizeVerificationResult
    rw [if_neg (by simp [hsame.symm.trans hverdict])]

end Recorded

/-! ## What a call leaves -/

section Calls

variable (digest : String → String) (fingerprint : List String → String)
  {goalId : String} {db : GoalTable} {state : ThreadGoalState}

/-- The verdict as it is recorded. -/
abbrev verdictOf (state : ThreadGoalState) (input : ThreadGoalRecordVerificationInput) :
    LastVerification :=
  normalizeVerificationResult fingerprint state.lastVerification input.result

/-- A verdict of the active Goal at its epoch is recorded and decided on. -/
theorem record_settles (input : ThreadGoalRecordVerificationInput) (now : ℤ)
    (hread : readById input.goalId db = some state) (hactive : state.status = .active)
    (hepoch : input.expectedEpoch = state.updatedAt)
    (hobjective : digest state.objective = input.objectiveDigest) :
    ∃ goal next, (recordThreadGoalVerification digest fingerprint input now db).1 =
        .ok (.settled goal (max now (input.expectedEpoch + 1))) ∧
      readById input.goalId (recordThreadGoalVerification digest fingerprint input now db).2 =
        some next ∧
      goal.status = ((verificationDecision (verdictOf fingerprint state input) input).map
        Prod.fst).getD .active ∧
      goal.statusReason = ((verificationDecision (verdictOf fingerprint state input) input).map
        Prod.snd).or state.statusReason ∧
      next.status = goal.status ∧ next.statusReason = goal.statusReason ∧
      next.objective = state.objective ∧
      next.lastVerification = readLastVerification (some (verdictOf fingerprint state input)) := by
  obtain ⟨row, hrow, hcount, hwritten⟩ := read_written hread hactive
  rw [← hepoch] at hcount hwritten
  have hreadable := readable_of_read hrow
  have hstate : (db.rows.find? (·.goalId = input.goalId)).bind rowToThreadGoalState = some state :=
    hread
  have hcurrent : threadGoalStaleDecision digest (some state) input.expectedEpoch
      input.objectiveDigest = none := by
    unfold threadGoalStaleDecision classifyThreadGoalBindingStale classifyThreadGoalAccountingStale
    simp [hepoch, hobjective, hactive]
  obtain ⟨decision, hdecision⟩ : ∃ decision,
    verificationDecision (verdictOf fingerprint state input) input = decision := ⟨_, rfl⟩
  obtain ⟨write, hwrite⟩ : ∃ write : ThreadGoalDbRow → ThreadGoalDbRow, (fun r => { r with
      lastVerification := some (verdictOf fingerprint state input)
      status := some ((decision.map Prod.fst).getD state.status)
      statusReason := (decision.map Prod.snd).or state.statusReason
      updatedAtMs := max now (input.expectedEpoch + 1)
      lastWorkerProposal := (materializeWorkerProposal input.workerProposal
        (max now (input.expectedEpoch + 1))).or r.lastWorkerProposal }) = write := ⟨_, rfl⟩
  have hfixes : goalKeys.Fixes write :=
    goalKeys_fixes (by rw [← hwrite]; intro r; rfl) (by rw [← hwrite]; intro r; rfl)
  have hrun : recordThreadGoalVerification digest fingerprint input now db =
      (.ok (.settled { state with
          status := (decision.map Prod.fst).getD state.status
          statusReason := (decision.map Prod.snd).or state.statusReason
          lastVerification := some (verdictOf fingerprint state input)
          lastWorkerProposal := (materializeWorkerProposal input.workerProposal
            (max now (input.expectedEpoch + 1))).or state.lastWorkerProposal
          updatedAt := max now (input.expectedEpoch + 1)
          executionWait := none } (max now (input.expectedEpoch + 1))),
        db.update (activeAt input.goalId input.expectedEpoch) write hfixes) := by
    subst hwrite
    refine atomically_of_ok ?_
    rw [getById_bind, hstate]
    dsimp only
    rw [hcurrent]
    dsimp only
    rw [updateWhere_bind, if_neg hcount, hdecision]
    rfl
  have hread' := hwritten write hfixes (by rw [← hwrite]; intro r; rfl)
  obtain ⟨next, hnext, hstatus, -, -, -, -, hobjective', hreason, hverification⟩ :=
    @read_columns (write row) (by rw [← hwrite]; exact hreadable)
  rw [hrun, hdecision]
  refine ⟨_, next, rfl, hread'.trans hnext, by rw [hactive], rfl, ?_, ?_, ?_, ?_⟩
  · rw [hstatus, ← hwrite]
    rfl
  · rw [hreason, ← hwrite]
  · rw [hobjective', ← hwrite, objective_of_read hrow]
  · rw [hverification, ← hwrite]

/-- A verdict of a Goal that is stopped is stale, and not recorded. -/
theorem record_stopped (input : ThreadGoalRecordVerificationInput) (now : ℤ)
    (hread : readById input.goalId db = some state) (hstopped : state.status ≠ .active) :
    ∃ reason goal, recordThreadGoalVerification digest fingerprint input now db =
      (.ok (.stale reason goal), db) := by
  have hstate : (db.rows.find? (·.goalId = input.goalId)).bind rowToThreadGoalState = some state :=
    hread
  obtain ⟨reason, hstale⟩ : ∃ reason, classifyThreadGoalBindingStale digest (some state)
      input.expectedEpoch input.objectiveDigest = some reason := by
    unfold classifyThreadGoalBindingStale
    rcases classifyThreadGoalAccountingStale digest (some state) input.expectedEpoch
      input.objectiveDigest with _ | reason
    · exact ⟨.goalStatus, by simp [hstopped]⟩
    · exact ⟨reason, rfl⟩
  refine ⟨reason, some state, atomically_of_ok ?_⟩
  rw [getById_bind, hstate]
  dsimp only
  rw [threadGoalStaleDecision, hstale]
  rfl

end Calls

/-! ## The record's answers -/

section Trace

variable {digest : String → String} {fingerprint : List String → String}
  {goalId objectiveDigest : String} {limit : JsNumber} {db first : GoalTable} {state : ThreadGoalState}

/-- What is asked of the record by an observation. -/
abbrev VerificationObservation.asked (o : VerificationObservation) (goalId objectiveDigest : String)
    (limit : JsNumber) (expectedEpoch : ℤ) : ThreadGoalRecordVerificationInput :=
  { goalId, expectedEpoch, objectiveDigest, result := o.result, repeatedNotMetLimit := limit
    workerProposal := o.workerProposal, decision := o.decision }

/-- The Goal that a settled decision answers. -/
def settledGoal (result : Except ThreadGoalStoreError ThreadGoalDecisionResult) :
    Option ThreadGoalState :=
  match result with
  | .ok (.settled goal _) => some goal
  | _ => none

theorem record_step (hread : readById goalId db = some state) (o : VerificationObservation) :
    (verificationSystem digest fingerprint goalId objectiveDigest limit first).step db o =
      ((recordThreadGoalVerification digest fingerprint
        (o.asked goalId objectiveDigest limit state.updatedAt) o.now db).2,
      settledGoal (recordThreadGoalVerification digest fingerprint
        (o.asked goalId objectiveDigest limit state.updatedAt) o.now db).1) := by
  rw [← currentEpoch_of_read hread]
  rfl

/-- The verdict is one too many where it ends a run of its gap as long as the limit. -/
theorem repeatedGap_iff {os : List VerificationObservation} {o : VerificationObservation}
    (h : Recorded fingerprint os state) (hdiffer : FingerprintsDiffer fingerprint (os ++ [o]))
    (n : ℕ) :
    (normalizeVerificationResult fingerprint state.lastVerification o.result).verdict = .notMet ∧
      n ≤ (normalizeVerificationResult fingerprint state.lastVerification o.result).notMetStreak ↔
      GapRepeats n (os ++ [o]) := by
  have hverdict : (normalizeVerificationResult fingerprint state.lastVerification
      o.result).verdict = o.result.verdict := by
    unfold normalizeVerificationResult
    split_ifs <;> rfl
  have hlast : ((os ++ [o]).map gapKey).getLast? = some (gapKey o) := by simp
  rw [gapRepeats_iff, hlast, hverdict]
  constructor
  · rintro ⟨hnot, hle⟩
    have hgap := gapKey_eq_some.2 ⟨hnot, rfl⟩
    exact ⟨_, by rw [hgap], (recorded_streak h hdiffer hgap n).2 hle⟩
  · rintro ⟨gap, hgap, hrun⟩
    rw [Option.some.injEq] at hgap
    exact ⟨(gapKey_eq_some.1 hgap).1, (recorded_streak h hdiffer hgap n).1 hrun⟩

variable (hfingerprint : ∀ missing, fingerprint missing ≠ "")
  (hunverified : Unverified digest goalId objectiveDigest db)

include hfingerprint hunverified

/-- Before it is stopped the Goal is active, and its last verdict is recorded. -/
theorem recorded_after (os : List VerificationObservation)
    (hdiffer : FingerprintsDiffer fingerprint os) (hvalid : ∀ o ∈ os, o.result.isValid = true)
    (hbefore : ∀ m < os.length, ¬ StoppedAt limit os m) :
    ∃ state, readById goalId ((verificationSystem digest fingerprint goalId objectiveDigest limit
        db).after db os) = some state ∧ state.status = .active ∧
      digest state.objective = objectiveDigest ∧ Recorded fingerprint os state := by
  induction os using List.reverseRecOn with
  | nil =>
    obtain ⟨state, hread, hactive, hobjective, hnone⟩ := hunverified
    exact ⟨state, hread, hactive, hobjective, .nil hnone⟩
  | append_singleton os o ih =>
    have hearlier : ∀ m < os.length, ¬ StoppedAt limit os m := by
      intro m hm hstopped
      have hlt : m < (os ++ [o]).length := by
        rw [List.length_append]
        omega
      refine hbefore m hlt ?_
      rw [StoppedAt, List.take_append_of_le_length hm, List.getElem?_append_left hm]
      exact hstopped
    obtain ⟨state, hread, hactive, hobjective, hrecorded⟩ := ih
      (fun a ha b hb => hdiffer a (List.mem_append_left _ ha) b (List.mem_append_left _ hb))
      (fun a ha => hvalid a (List.mem_append_left _ ha)) hearlier
    have hlast := hbefore os.length (by simp)
    rw [StoppedAt, List.take_of_length_le (by simp), List.getElem?_append_right (Nat.le_refl _),
      Nat.sub_self, not_or] at hlast
    obtain ⟨hgap, hdecision⟩ := hlast
    have hnone : o.decision = none := by
      by_contra h
      exact hdecision ⟨o, rfl, h⟩
    obtain ⟨goal, next, -, hread', hstatus, -, hnext, -, hobjective', hverification⟩ := record_settles
      digest fingerprint (o.asked goalId objectiveDigest limit state.updatedAt) o.now hread hactive rfl
      hobjective
    have hcontinues : verificationDecision (verdictOf fingerprint state
        (o.asked goalId objectiveDigest limit state.updatedAt))
        (o.asked goalId objectiveDigest limit state.updatedAt) = none := by
      unfold verificationDecision
      dsimp only
      rw [if_neg fun h => hgap ((repeatedGap_iff hrecorded hdiffer _).1 h), hnone]
      rfl
    rw [hcontinues] at hstatus
    have hreadable := (normalized_reads fingerprint hfingerprint state.lastVerification o.result).2
      (hvalid o (by simp))
    refine ⟨next, ?_, hnext.trans hstatus, ?_, hrecorded.concat hdiffer (hverification.trans hreadable)⟩
    · rw [Machine.after_append, Machine.after_cons, Machine.after_nil, record_step hread]
      exact hread'
    · rw [hobjective', hobjective]

section

variable {os : List VerificationObservation} {n : ℕ} {o : VerificationObservation}
  (hdiffer : FingerprintsDiffer fingerprint os) (hvalid : ∀ o ∈ os, o.result.isValid = true)

include hdiffer hvalid

/-- The answer to a verdict with no stop before: the run of its gap, or else the decision it comes with,
stops the Goal. -/
theorem verdict_answer (ho : os[n]? = some o) (hbefore : ∀ m < n, ¬ StoppedAt limit os m) :
    ∃ goal next, ((verificationSystem digest fingerprint goalId objectiveDigest limit db).answers db
        os)[n]? = some (some goal) ∧
      readById goalId ((verificationSystem digest fingerprint goalId objectiveDigest limit db).after db
        (os.take (n + 1))) = some next ∧ next.status = goal.status ∧
      (GapRepeats (gapLimit limit) (os.take (n + 1)) → goal.status = .paused ∧
        goal.statusReason = some .pausedNoProgress) ∧
      (¬ GapRepeats (gapLimit limit) (os.take (n + 1)) →
        (o.decision = none → goal.status = .active) ∧
        ∀ decision, o.decision = some decision → goal.status = decision.status ∧
          goal.statusReason = some decision.statusReason) := by
  have hlength := (List.getElem?_eq_some_iff.1 ho).1
  have htake : os.take (n + 1) = os.take n ++ [o] := by
    rw [List.take_add_one, ho]
    rfl
  have hprefix : ∀ m < (os.take n).length, ¬ StoppedAt limit (os.take n) m := by
    intro m hm hstopped
    rw [List.length_take] at hm
    refine hbefore m (by omega) ?_
    rw [StoppedAt, List.take_take, Nat.min_eq_left (by omega), List.getElem?_take_of_lt (by omega)]
      at hstopped
    exact hstopped
  obtain ⟨state, hread, hactive, hobjective, hrecorded⟩ := recorded_after hfingerprint hunverified
    (os.take n) (fun a ha b hb => hdiffer a (List.mem_of_mem_take ha) b (List.mem_of_mem_take hb))
    (fun a ha => hvalid a (List.mem_of_mem_take ha)) hprefix
  obtain ⟨goal, next, hanswer, hread', hstatus, hreason, hnext, -⟩ := record_settles digest fingerprint
    (o.asked goalId objectiveDigest limit state.updatedAt) o.now hread hactive rfl hobjective
  have hgap := repeatedGap_iff hrecorded (o := o) (fun a ha b hb => by
    rw [← htake] at ha hb
    exact hdiffer a (List.mem_of_mem_take ha) b (List.mem_of_mem_take hb)) (gapLimit limit)
  rw [← htake] at hgap
  refine ⟨goal, next, ?_, ?_, hnext, fun hrun => ?_, fun hrun => ?_⟩
  · rw [Machine.getElem?_answers, ho, Option.map_some, record_step hread, hanswer]
    rfl
  · rw [htake, Machine.after_append, Machine.after_cons, Machine.after_nil, record_step hread]
    exact hread'
  · unfold verificationDecision at hstatus hreason
    dsimp only at hstatus hreason
    rw [if_pos (hgap.2 hrun)] at hstatus hreason
    exact ⟨hstatus, hreason⟩
  · unfold verificationDecision at hstatus hreason
    dsimp only at hstatus hreason
    rw [if_neg fun h => hrun (hgap.1 h)] at hstatus hreason
    constructor
    · intro hnone
      rw [hnone] at hstatus
      exact hstatus
    · intro decision hdecision
      rw [hdecision] at hstatus hreason
      exact ⟨hstatus, hreason⟩

/-- After the first stop no verdict is recorded. -/
theorem verdict_after {m : ℕ} (hmn : m < n) (hn : n < os.length) (hstopped : StoppedAt limit os m)
    (hbefore : ∀ k < m, ¬ StoppedAt limit os k) :
    ((verificationSystem digest fingerprint goalId objectiveDigest limit db).answers db os)[n]? =
      some none := by
  have hm := List.getElem?_eq_getElem (Nat.lt_trans hmn hn)
  obtain ⟨goal, next, -, hread, hnext, hgap, hdecision⟩ :=
    verdict_answer hfingerprint hunverified hdiffer hvalid hm hbefore
  have hstops : next.status ≠ .active := by
    rw [hnext]
    by_cases hrun : GapRepeats (gapLimit limit) (os.take (m + 1))
    · rw [(hgap hrun).1]
      simp
    · obtain ⟨o, ho, hsome⟩ := hstopped.resolve_left hrun
      rw [hm] at ho
      cases ho
      obtain ⟨decision, heq⟩ := Option.ne_none_iff_exists'.1 hsome
      rw [((hdecision hrun).2 decision heq).1]
      exact decision.stops
  have hstays : ∀ k, m < k →
      (verificationSystem digest fingerprint goalId objectiveDigest limit db).after db (os.take k) =
      (verificationSystem digest fingerprint goalId objectiveDigest limit db).after db
        (os.take (m + 1)) := by
    intro k hk
    have hsplit : os.take k = os.take (m + 1) ++ (os.take k).drop (m + 1) := by
      conv_lhs => rw [← List.take_append_drop (m + 1) (os.take k)]
      rw [List.take_take, Nat.min_eq_left hk]
    rw [hsplit, Machine.after_append]
    induction (os.take k).drop (m + 1) with
    | nil => rfl
    | cons o os ih =>
      obtain ⟨reason, stale, hrun⟩ := record_stopped digest fingerprint
        (o.asked goalId objectiveDigest limit next.updatedAt) o.now hread hstops
      rw [Machine.after_cons, record_step hread, hrun]
      exact ih
  obtain ⟨reason, stale, hrun⟩ := record_stopped digest fingerprint
    (os[n].asked goalId objectiveDigest limit next.updatedAt) os[n].now hread hstops
  rw [Machine.getElem?_answers, List.getElem?_eq_getElem hn, Option.map_some, hstays n hmn,
    record_step hread, hrun]
  rfl

/-- The record pauses the Goal for want of progress at the first verdict that ends a run of its gap as
long as the limit, if no decision stopped it before, and where a decision says so. -/
theorem verification_trace (hn : n < os.length) :
    (∃ goal, ((verificationSystem digest fingerprint goalId objectiveDigest limit db).answers db
        os)[n]? = some (some goal) ∧ goal.status = .paused ∧
          goal.statusReason = some .pausedNoProgress) ↔
      (GapRepeats (gapLimit limit) (os.take (n + 1)) ∨ ∃ o decision, os[n]? = some o ∧
        o.decision = some decision ∧ decision.status = .paused ∧
          decision.statusReason = .pausedNoProgress) ∧
      ∀ m < n, ¬ StoppedAt limit os m := by
  have hlast := List.getElem?_eq_getElem hn
  by_cases hbefore : ∀ m < n, ¬ StoppedAt limit os m
  · obtain ⟨goal, next, hanswer, -, -, hgap, hdecision⟩ :=
      verdict_answer hfingerprint hunverified hdiffer hvalid hlast hbefore
    rw [and_iff_left hbefore, hanswer]
    by_cases hrun : GapRepeats (gapLimit limit) (os.take (n + 1))
    · exact iff_of_true ⟨goal, rfl, hgap hrun⟩ (.inl hrun)
    · rw [or_iff_right hrun]
      constructor
      · rintro ⟨goal', hsame, hstatus, hreason⟩
        cases hsame
        obtain ⟨hactive, hdecides⟩ := hdecision hrun
        rcases hnone : os[n].decision with _ | decision
        · rw [hactive hnone] at hstatus
          cases hstatus
        · obtain ⟨hstatus', hreason'⟩ := hdecides decision hnone
          exact ⟨os[n], decision, hlast, hnone, hstatus'.symm.trans hstatus,
            Option.some.inj (hreason'.symm.trans hreason)⟩
      · rintro ⟨o, decision, ho, heq, hstatus, hreason⟩
        rw [hlast] at ho
        cases ho
        obtain ⟨hstatus', hreason'⟩ := (hdecision hrun).2 decision heq
        exact ⟨goal, rfl, hstatus'.trans hstatus, hreason'.trans (congrArg some hreason)⟩
  · refine iff_of_false ?_ fun h => hbefore h.2
    push Not at hbefore
    obtain ⟨m, ⟨hmn, hstopped⟩, hfirst⟩ : ∃ m, (m < n ∧ StoppedAt limit os m) ∧
        ∀ k < m, ¬ (k < n ∧ StoppedAt limit os k) := by
      classical
      exact ⟨Nat.find hbefore, Nat.find_spec hbefore, fun k hk => Nat.find_min hbefore hk⟩
    rw [verdict_after hfingerprint hunverified hdiffer hvalid hmn hn hstopped fun k hk h =>
      hfirst k hk ⟨Nat.lt_trans hk hmn, h⟩]
    rintro ⟨goal, hgoal, -⟩
    cases hgoal

end

end Trace

/-! ## What restarts the breaker's counts -/

/-- A patch that makes a Goal active is allowed neither where the Goal is complete, nor where its budget
is spent and stays so. -/
theorem activation_of_allowed {existing : Option ThreadGoalDbRow} {state : ThreadGoalState}
    {input : ThreadGoalPatchInput} (hallowed : patchRefusal existing state input = none)
    (hasked : input.status = some .active) : state.status ≠ .complete ∧
      (state.status = .budgetLimited → resumesTokenLimited state input = true) := by
  unfold patchRefusal at hallowed
  dsimp only at hallowed
  split at hallowed
  · cases hallowed
  split at hallowed
  · cases hallowed
  split at hallowed
  · cases hallowed
  split at hallowed
  · cases hallowed
  by_cases hlimited : input.status = some ThreadGoalStatus.active ∧ state.status = .budgetLimited ∧
    resumesTokenLimited state input = false
  · rw [if_pos hlimited] at hallowed
    cases hallowed
  rw [if_neg hlimited] at hallowed
  split_ifs at hallowed with hknown hcomplete
  refine ⟨fun h => hcomplete ⟨hasked, h⟩, fun h => ?_⟩
  by_contra hspent
  exact hlimited ⟨hasked, h, Bool.not_eq_true _ ▸ hspent⟩

/-- A patch that gives the Goal another objective or makes it active again restarts the counts. -/
theorem patched_uncounted {existing : Option ThreadGoalDbRow} {state : ThreadGoalState}
    {input : ThreadGoalPatchInput} {now : ℤ} (hallowed : patchRefusal existing state input = none)
    (h : StartsOver state (patched state input now)) : Uncounted (patched state input now) := by
  have hrestarts : (input.objective.getD state.objective ≠ state.objective ∨
      input.objectiveResources.getD state.objectiveResources ≠ state.objectiveResources) ∨
      (input.status = some .active ∧ (state.status = .paused ∨ state.status = .blocked ∨
        state.status = .usageLimited ∨ resumesTokenLimited state input = true)) := by
    rcases h with hobjective | hresources | ⟨hstopped, hactive⟩
    · exact .inl (.inl hobjective)
    · exact .inl (.inr hresources)
    · have hasked : input.status = some .active := by
        rcases hstatus : input.status with _ | status
        · rw [patched, hstatus] at hactive
          exact absurd hactive hstopped
        · rw [patched, hstatus] at hactive
          exact congrArg some hactive
      obtain ⟨hincomplete, hresumes⟩ := activation_of_allowed hallowed hasked
      refine .inr ⟨hasked, ?_⟩
      cases hstatus : state.status with
      | active => exact absurd hstatus hstopped
      | paused => exact .inl rfl
      | blocked => exact .inr (.inl rfl)
      | usageLimited => exact .inr (.inr (.inl rfl))
      | budgetLimited => exact .inr (.inr (.inr (hresumes hstatus)))
      | complete => exact absurd hstatus hincomplete
  unfold patched Uncounted
  dsimp only
  rw [if_pos hrestarts, if_pos hrestarts, if_pos hrestarts]
  exact ⟨rfl, rfl, rfl⟩

/-- What a patch answers is what is allowed of the Goal that is read, and its counters are read after. -/
theorem patch_writes_counters {goalId : String} {input : ThreadGoalPatchInput} {now : ℤ}
    {db : GoalTable} {state next : ThreadGoalState} (hread : readById goalId db = some state)
    (h : answered (patchThreadGoal goalId input now db) = some next) :
    (∃ existing, patchRefusal existing state input = none ∧ next = patched state input now) ∧
      ∀ after, readById goalId (patchThreadGoal goalId input now db).2 = some after →
        after.replyFingerprint = next.replyFingerprint ∧
          after.noProgressStreak = next.noProgressStreak ∧
          after.noToolStreak = next.noToolStreak ∧ after.status = next.status := by
  have hstate : (db.rows.find? (·.goalId = goalId)).bind rowToThreadGoalState = some state := hread
  obtain ⟨row, hmem, hid, hrow, honly⟩ := selected_of_read hread
  have hfind := selected_of_mem hmem
  rw [hid] at hfind
  have hallowed : patchRefusal (some row) state input = none := by
    rcases hrefusal : patchRefusal (some row) state input with _ | refusal
    · rfl
    · unfold patchThreadGoal at h
      rw [selectById_bind, hstate, hfind] at h
      dsimp only at h
      rw [hrefusal] at h
      cases h
  rcases patch_outcome goalId input now db with ⟨-, hnone | ⟨-, hstale⟩⟩ | ⟨row', hmem', state', written,
    g, hid', hrow', ⟨hwritten, hg⟩, hanswer, hmem'', -⟩
  · rw [h] at hnone
    cases hnone
  · exact hstale.elim
  obtain rfl := honly row' hmem' hid'
  obtain rfl := Option.some.inj (hrow'.symm.trans hrow)
  obtain rfl := Option.some.inj (hanswer.symm.trans h)
  refine ⟨⟨some row', hallowed, hg⟩, fun after hafter => ?_⟩
  have hselected := selected_of_mem hmem''
  rw [hwritten] at hselected
  dsimp only at hselected
  rw [hid] at hselected
  rw [readById, hselected, Option.bind_some] at hafter
  obtain ⟨st, hst, hstatus, hfingerprint, hreplies, htools, -⟩ :=
    read_columns (readable_of_read hafter)
  obtain rfl := Option.some.inj (hst.symm.trans hafter)
  exact ⟨hfingerprint, hreplies, htools, hstatus⟩

/-! ## No-progress pauses come on time -/

/-- From cleared counters the breaker pauses a Goal at the first Turn that ends a run as long as the
limit, and nudges before at each that ends a run of two. The record pauses it at the first verdict that
ends a run of one gap as long as its limit. A patch that makes a Goal active again, or changes its
objective, clears the counters. -/
theorem no_progress_on_time (digest : String → String) (fingerprint : List String → String)
    (hfingerprint : ∀ missing, fingerprint missing ≠ "") (goalId : String) (db : GoalTable) :
    (Cleared goalId db → ∀ limit os n, n < os.length →
      (((breakerSystem goalId limit db).answers db os)[n]? = some (some .pause) ∧
          (∀ m < n, ((breakerSystem goalId limit db).answers db os)[m]? ≠ some (some .pause)) ↔
        NoProgress (flooredAtLeast 2 limit) (os.take (n + 1)) ∧
          ∀ m < n, ¬ NoProgress (flooredAtLeast 2 limit) (os.take (m + 1))) ∧
      (((breakerSystem goalId limit db).answers db os)[n]? = some (some .nudge) ↔
        NoProgress 2 (os.take (n + 1)) ∧
          ∀ m ≤ n, ¬ NoProgress (flooredAtLeast 2 limit) (os.take (m + 1))) ∧
      (currentStatus goalId ((breakerSystem goalId limit db).after db (os.take (n + 1))) =
          some .paused ↔ ∃ m ≤ n, NoProgress (flooredAtLeast 2 limit) (os.take (m + 1)))) ∧
    (∀ objectiveDigest limit os n, Unverified digest goalId objectiveDigest db →
      FingerprintsDiffer fingerprint os → (∀ o ∈ os, o.result.isValid = true) → n < os.length →
      ((∃ goal, ((verificationSystem digest fingerprint goalId objectiveDigest limit db).answers db
          os)[n]? = some (some goal) ∧ goal.status = .paused ∧
            goal.statusReason = some .pausedNoProgress) ↔
        (GapRepeats (gapLimit limit) (os.take (n + 1)) ∨ ∃ o decision, os[n]? = some o ∧
          o.decision = some decision ∧ decision.status = .paused ∧
            decision.statusReason = .pausedNoProgress) ∧
        ∀ m < n, ¬ StoppedAt limit os m)) ∧
    ∀ input now state next,
      (db.rows.find? (·.goalId = goalId)).bind rowToThreadGoalState = some state →
      answered (patchThreadGoal goalId input now db) = some next → StartsOver state next →
        Uncounted next ∧ ∀ after, ((patchThreadGoal goalId input now db).2.rows.find?
          (·.goalId = goalId)).bind rowToThreadGoalState = some after →
          Uncounted after ∧ (next.status = .active →
            Cleared goalId (patchThreadGoal goalId input now db).2) := by
  refine ⟨fun hcleared limit os n hn => breaker_trace hcleared hn,
    fun objectiveDigest limit os n hunverified hdiffer hvalid hn =>
      verification_trace hfingerprint hunverified hdiffer hvalid hn,
    fun input now state next hread hanswer hstarts => ?_⟩
  obtain ⟨⟨existing, hallowed, rfl⟩, hwritten⟩ := patch_writes_counters hread hanswer
  have huncounted := patched_uncounted hallowed hstarts
  refine ⟨huncounted, fun after hafter => ?_⟩
  obtain ⟨hfingerprint', hreplies, htools, hstatus⟩ := hwritten after hafter
  have hcounters : Uncounted after :=
    ⟨hfingerprint'.trans huncounted.1, hreplies.trans huncounted.2.1, htools.trans huncounted.2.2⟩
  exact ⟨hcounters, fun hactive => ⟨after, hafter, hstatus.trans hactive, hcounters⟩⟩

section Witness

/-- A Goal as it is created, to the breaker and to the verifier. -/
def shippingRow : ThreadGoalDbRow :=
  { goalId := "goal", sessionId := "session", objective := "Ship", status := some .active
    createdAtMs := 1, updatedAtMs := 1, tokenBudget := none, kickoffAttachments := []
    objectiveResources := [], kickoffState := .pending }

def shippingTable : GoalTable := ⟨[shippingRow], by decide⟩

/-- The digests of the gap of the tests, and of another. -/
def gapFingerprint (missing : List String) : String :=
  if missing = ["tests"] then "af7f0b2bd342822f2fa8e6a9fda610570f911f30d3108379ea4184c0866727c3"
  else "f5177df64ec08f3e38fa6b80d0c2404b62087b17ff23db26216f5bbe8b795923"

/-- A Turn that used no tool, and says the same. -/
def idleTurn : BreakerObservation :=
  { fingerprint := some "done", toolActivity := .absent, pauseReason := none, now := 2 }

/-- The same Goal after the breaker paused it. -/
def pausedTable : GoalTable :=
  ⟨[{ shippingRow with status := some .paused, statusReason := some .pausedNoProgress
                       replyFingerprint := some "done", noProgressStreak := 1
                       noToolStreak := 2 }], by decide⟩

/-- A verdict that misses the tests. -/
def testsMissing (text : String) : VerificationObservation :=
  { result := { backend := .subagent, verdict := .notMet, reason := "", missing := [text]
                missingFingerprint := none, notMetStreak := 0, turnId := "turn"
                objectiveDigest := "40970cf7", atMs := .finite 2 }
    workerProposal := none, decision := none, now := 2 }

theorem no_progress_on_time_shipping :
    (NoProgress 3 [idleTurn, idleTurn, idleTurn] ∧
      ∀ m < 2, ¬ NoProgress 3 ([idleTurn, idleTurn, idleTurn].take (m + 1))) ∧
    (∃ goal, ((verificationSystem id gapFingerprint "goal" "Ship" (.finite 2) shippingTable).answers
      shippingTable [testsMissing "tests", testsMissing " tests  "])[1]? = some (some goal) ∧
        goal.status = .paused ∧ goal.statusReason = some .pausedNoProgress) ∧
    ∃ next, answered (patchThreadGoal "goal" { status := some .active } 3 pausedTable) = some next ∧
      Uncounted next := by
  have hfingerprint : ∀ missing, gapFingerprint missing ≠ "" := by
    intro missing
    unfold gapFingerprint
    split_ifs <;> decide
  have hsame : ∀ text, text = "tests" ∨ text = " tests  " →
      gapItems (testsMissing text).result = ["tests"] := by
    rintro text (rfl | rfl) <;> decide +kernel
  obtain ⟨hbreaker, hrecord, -⟩ := no_progress_on_time id gapFingerprint hfingerprint "goal"
    shippingTable
  obtain ⟨-, -, hpatch⟩ := no_progress_on_time id gapFingerprint hfingerprint "goal" pausedTable
  refine ⟨?_, ?_, ?_⟩
  · obtain ⟨hpause, -⟩ := hbreaker ⟨_, rfl, rfl, rfl, rfl, rfl⟩ (.finite 3)
      [idleTurn, idleTurn, idleTurn] 2 (by decide)
    exact hpause.1 ⟨by decide +kernel, by decide +kernel⟩
  · refine (hrecord "Ship" (.finite 2) _ 1 ⟨_, rfl, rfl, rfl, rfl⟩ ?_ (by decide +kernel)
      (by decide)).2 ⟨.inl ?_, ?_⟩
    · unfold FingerprintsDiffer
      decide +kernel
    · refine ⟨testsMissing " tests  ", [], _, rfl, rfl, rfl, rfl, fun o ho => ?_⟩
      rcases List.mem_pair.1 ho with rfl | rfl
      · exact ⟨rfl, fun item => by rw [hsame _ (.inl rfl), hsame _ (.inr rfl)]⟩
      · exact ⟨rfl, fun item => Iff.rfl⟩
    · rintro m hm (⟨last, before, tail, heq, -, -, hlength, -⟩ | ⟨o, ho, hdecision⟩)
      · have hlong := congrArg List.length heq
        have hlimit : gapLimit (.finite 2) = 2 := by decide
        rw [List.length_append, hlength, hlimit, List.length_take] at hlong
        omega
      · obtain rfl : m = 0 := by omega
        cases ho
        exact hdecision rfl
  · exact ⟨_, rfl, (hpatch { status := some .active } 3 _ _ rfl rfl
      (.inr (.inr ⟨by decide, rfl⟩))).1⟩

end Witness

end Kinetick.Goal
