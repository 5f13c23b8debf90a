import Kinetick.Goal.Guarantees

/-!
# Pauses for want of progress

The breaker and the verifier's record as machines of one Goal, each called at the epoch the Goal is at,
and when either is to pause it: after so many equal replies or Turns without a tool, and after so many
verdicts with the same gap.
-/

namespace Kinetick.Goal

/-- The epoch the Goal is at. -/
def currentEpoch (goalId : String) (db : GoalTable) : ℤ :=
  (((db.rows.find? (·.goalId = goalId)).bind rowToThreadGoalState).map (·.updatedAt)).getD 0

/-- The status the Goal has. -/
def currentStatus (goalId : String) (db : GoalTable) : Option ThreadGoalStatus :=
  ((db.rows.find? (·.goalId = goalId)).bind rowToThreadGoalState).map (·.status)

/-! ### The breaker -/

/-- What a Turn that ended shows the breaker. -/
structure BreakerObservation where
  fingerprint : Option String
  toolActivity : ThreadGoalToolActivity
  pauseReason : Option NoProgressReason
  now : ℤ

/-- The action of a result that is not stale. -/
def breakerAction (result : Except ThreadGoalStoreError ThreadGoalBreakerResult) :
    Option BreakerAction :=
  match result with
  | .ok (.acted action _ _ _) => some action
  | _ => none

/-- The breaker of a Goal under a limit, from a table on. -/
def breakerSystem (goalId : String) (limit : JsNumber) (db : GoalTable) :
    Machine GoalTable BreakerObservation (Option BreakerAction) where
  initial := db
  step db o :=
    let (result, db') := updateThreadGoalBreaker goalId
      { expectedEpoch := currentEpoch goalId db, fingerprint := o.fingerprint
        toolActivity := o.toolActivity, limit, pauseReason := o.pauseReason } o.now db
    (db', breakerAction result)

/-- The Goal is active, and the breaker has counted nothing. -/
def Cleared (goalId : String) (db : GoalTable) : Prop :=
  ∃ state, (db.rows.find? (·.goalId = goalId)).bind rowToThreadGoalState = some state ∧
    state.status = .active ∧ state.replyFingerprint = none ∧ state.noProgressStreak = 0 ∧
    state.noToolStreak = 0

/-- The last `n` replies with a fingerprint have the same, and the last Turn has one. -/
def RepliesRepeat (n : ℕ) (os : List BreakerObservation) : Prop :=
  ∃ f, os.getLast?.bind (·.fingerprint) = some f ∧
    List.replicate n f <:+ os.filterMap (·.fingerprint)

/-- The last `n` Turns used no tool. -/
def ToolsAbsent (n : ℕ) (os : List BreakerObservation) : Prop :=
  List.replicate n ThreadGoalToolActivity.absent <:+ os.map (·.toolActivity)

def NoProgress (n : ℕ) (os : List BreakerObservation) : Prop := RepliesRepeat n os ∨ ToolsAbsent n os

/-- The breaker has counted nothing. -/
def Uncounted (state : ThreadGoalState) : Prop :=
  state.replyFingerprint = none ∧ state.noProgressStreak = 0 ∧ state.noToolStreak = 0

/-- A Goal is given another objective, or is made active again. -/
def StartsOver (state next : ThreadGoalState) : Prop :=
  next.objective ≠ state.objective ∨ next.objectiveResources ≠ state.objectiveResources ∨
    state.status ≠ .active ∧ next.status = .active

/-! ### The verifier's record -/

/-- What a verification of the Goal's objective ends with. -/
structure VerificationObservation where
  result : LastVerification
  workerProposal : Option WorkerProposalInput
  decision : Option ThreadGoalDecision
  now : ℤ

section

variable (digest : String → String) (fingerprint : List String → String)

/-- The record of a Goal's verifications under a limit, from a table on. -/
def verificationSystem (goalId objectiveDigest : String) (limit : JsNumber) (db : GoalTable) :
    Machine GoalTable VerificationObservation (Option ThreadGoalState) where
  initial := db
  step db o :=
    let (result, db') := recordThreadGoalVerification digest fingerprint
      { goalId, expectedEpoch := currentEpoch goalId db, objectiveDigest, result := o.result
        repeatedNotMetLimit := limit, workerProposal := o.workerProposal, decision := o.decision }
      o.now db
    (db', match result with
      | .ok (.settled goal _) => some goal
      | _ => none)

/-- The Goal is active with the objective, and no verdict is recorded. -/
def Unverified (goalId objectiveDigest : String) (db : GoalTable) : Prop :=
  ∃ state, (db.rows.find? (·.goalId = goalId)).bind rowToThreadGoalState = some state ∧
    state.status = .active ∧ digest state.objective = objectiveDigest ∧
    state.lastVerification = none

end

/-- The items of a gap up to white space, without the blank ones. -/
def gapItems (result : LastVerification) : List String :=
  (result.missing.map collapseWhitespace).filter (· ≠ "")

/-- The same items are missing. -/
def SameGap (a b : LastVerification) : Prop := ∀ item, item ∈ gapItems a ↔ item ∈ gapItems b

/-- The last verdict found a gap, and the last `n` found the same. -/
def GapRepeats (n : ℕ) (os : List VerificationObservation) : Prop :=
  ∃ last before tail, os = before ++ tail ∧ os.getLast? = some last ∧
    last.result.verdict = .notMet ∧ tail.length = n ∧
    ∀ o ∈ tail, o.result.verdict = .notMet ∧ SameGap o.result last.result

/-- The limit of verdicts with one gap. -/
abbrev gapLimit (limit : JsNumber) : ℕ := positiveIntegerOrDefault limit defaultRepeatedNotMetLimit

/-- What stops the Goal at an observation: its gap, or the decision it comes with. -/
def StoppedAt (limit : JsNumber) (os : List VerificationObservation) (m : ℕ) : Prop :=
  GapRepeats (gapLimit limit) (os.take (m + 1)) ∨ ∃ o, os[m]? = some o ∧ o.decision ≠ none

/-- No two of the gaps that are recorded have a fingerprint in common. -/
def FingerprintsDiffer (fingerprint : List String → String) (os : List VerificationObservation) :
    Prop :=
  ∀ o ∈ os, ∀ o' ∈ os, fingerprint (normalizeMissing o.result.missing) =
    fingerprint (normalizeMissing o'.result.missing) →
      normalizeMissing o.result.missing = normalizeMissing o'.result.missing

end Kinetick.Goal
