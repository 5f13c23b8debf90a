import Kinetick.Turn.Dispatch

/-!
# A claim is settled or flagged

Every exit of a dispatch settles its claim but one: a Turn that was started and whose
acknowledgement failed before and after. That exit marks the Session in a drain only, and the mark
helps only once the claim's lease has ended.
-/

namespace Kinetick

namespace Dispatcher

variable {σ ε α : Type} {Q : QueueDispatchCapability σ ε}
  {Holds : σ → QueueDispatchClaim → Prop} {isClaimOwnerAlive : String → Bool}
  {env : DispatchEnvironment ε} {claim : QueueDispatchClaim}

/-- The claim holds its row no more. -/
def Settled (Holds : σ → QueueDispatchClaim → Prop) (claim : QueueDispatchClaim)
    (s : DispatchState σ) : Prop :=
  ¬ Holds s.queue claim

section Contract

variable (hQ : Q.Contract Holds isClaimOwnerAlive)

include hQ

theorem release_settles (P : DispatchState σ → Prop) (reason : Option String) :
    Effect.Ensures P (call (Q.release claim.sessionId claim.claimId reason)) fun _ =>
      Settled Holds claim :=
  fun s _ => hQ.release claim reason s.queue

theorem reject_settles (P : DispatchState σ → Prop) (reason : String) :
    Effect.Ensures P (call (Q.reject claim.sessionId claim.claimId reason)) fun _ =>
      Settled Holds claim :=
  fun s _ => hQ.reject claim reason s.queue

theorem cancelClaim_settles (P : DispatchState σ → Prop) :
    Effect.Ensures P (call (Q.cancelClaim claim.sessionId claim.claimId)) fun _ =>
      Settled Holds claim :=
  fun s _ => hQ.cancelClaim claim s.queue

/-- A cancellation that was asked for settles the claim. -/
theorem cancelRequestedClaim_settles (P : DispatchState σ → Prop) (executed : Bool) :
    Effect.Ensures P (cancelRequestedClaim Q env claim executed) fun r s =>
      r = .ok none ∨ Settled Holds claim s := by
  unfold cancelRequestedClaim
  split_ifs
  · exact ((cancelClaim_settles hQ P).bind_keeps fun _ => Effect.keeps_pure _).mono (fun _ h => h)
      fun _ _ h => .inr h
  · exact fun _ _ => .inl rfl

theorem settleThrownClaim_settles (P : DispatchState σ → Prop) (executed : Bool) (error : ε) :
    Effect.Ensures P (settleThrownClaim Q env claim executed error) fun _ =>
      Settled Holds claim := by
  refine Effect.ensures_firstSome (cancelRequestedClaim_settles hQ P executed) ?_
  exact (release_settles hQ _ none).bind_keeps fun _ => Effect.keeps_raise _

theorem releaseYielding_settles (P : DispatchState σ → Prop) (yieldsPosition : Bool) :
    Effect.Ensures P (releaseYielding Q claim yieldsPosition) fun _ => Settled Holds claim := by
  refine (release_settles hQ P none).bind_keeps fun _ => ?_
  split_ifs
  · exact fun s hs => hs
  · exact Effect.keeps_pure _

/-- A claim that is not ready is settled. -/
theorem settleClassifiedClaim_settles (P : DispatchState σ → Prop)
    {disposition : QueueDispatchDisposition} (hready : disposition ≠ .ready) (yielding : Bool) :
    Effect.Ensures P (settleClassifiedClaim Q env claim disposition yielding) fun r s =>
      r ≠ .ok none ∧ Settled Holds claim s := by
  unfold settleClassifiedClaim
  rw [if_neg hready]
  by_cases hrelease : disposition = .defer || isRetryableSelection claim
  · rw [if_pos hrelease]
    exact (releaseYielding_settles hQ P _).bind (fun _ s hs => ⟨by simp, hs⟩)
      fun e s hs => ⟨by simp, hs⟩
  · rw [if_neg hrelease]
    exact (cancelClaim_settles hQ P).bind (fun _ s hs => ⟨by simp, hs⟩)
      fun e s hs => ⟨by simp, hs⟩

theorem settleRejected_settles (P : DispatchState σ → Prop) (reason : String) :
    Effect.Ensures P (settleRejected Q claim reason) fun _ => Settled Holds claim := by
  unfold settleRejected
  split_ifs
  · exact (release_settles hQ P none).bind_keeps fun _ => Effect.keeps_pure _
  all_goals exact (reject_settles hQ P _).bind_keeps fun _ => Effect.keeps_pure _

/-- A refused hand-off is settled. -/
theorem settleHandoffRejection_settles (P : DispatchState σ → Prop) (reason : String)
    (queueDisposition : Option TurnSubmissionQueueDisposition) :
    Effect.Ensures P (settleHandoffRejection Q claim reason queueDisposition) fun r s =>
      r = .ok none ∨ Settled Holds claim s := by
  unfold settleHandoffRejection
  by_cases hkept : !startsWith reason "policy:cloud-handoff:" || queueDisposition ≠ some .cancel
  · rw [if_pos hkept]
    exact fun _ _ => .inl rfl
  · rw [if_neg hkept]
    refine Effect.Ensures.mono (Q := fun _ => Settled Holds claim) ?_ (fun _ h => h)
      fun _ _ h => .inr h
    cases startsWith reason "policy:cloud-handoff:denied:"
    · exact (release_settles hQ P _).bind_keeps fun _ => Effect.keeps_pure _
    · exact (reject_settles hQ P reason).bind_keeps fun _ => Effect.keeps_pure _

/-- The claim of a Turn that was not started is settled. -/
theorem settleRejectedClaim_settles (P : DispatchState σ → Prop) (reason : String)
    (queueDisposition : Option TurnSubmissionQueueDisposition) (yielding : Bool) :
    Effect.Ensures P (settleRejectedClaim Q env claim reason queueDisposition yielding) fun _ =>
      Settled Holds claim := by
  refine Effect.ensures_firstSome (cancelRequestedClaim_settles hQ P true) ?_
  refine Effect.ensures_firstSome (settleHandoffRejection_settles hQ _ reason queueDisposition) ?_
  split_ifs
  · exact (release_settles hQ _ none).bind_keeps fun _ => Effect.keeps_pure _
  · exact (releaseYielding_settles hQ _ _).bind_keeps fun _ => Effect.keeps_pure _
  · exact (cancelClaim_settles hQ _).bind_keeps fun _ => Effect.keeps_pure _
  · exact (settleRejected_settles hQ _ reason).bind_keeps fun _ => Effect.keeps_pure _

end Contract

/-! ## The acknowledgement -/

/-- What `requireRecovery` does: it marks the Session, or nothing. -/
def Marks (requireRecovery : Effect (DispatchState σ) ε Unit) (marks : Bool) : Prop :=
  ∀ s, requireRecovery s =
    (.ok (), { s with recoverBeforeNextClaim := s.recoverBeforeNextClaim || marks })

variable {requireRecovery : Effect (DispatchState σ) ε Unit} {marks : Bool}

variable (claim) in
/-- One of the two tries goes through, or both fail and recovery is required. -/
theorem acknowledgeAccepted_cases (hQ : Q.Contract Holds isClaimOwnerAlive)
    (hmarks : Marks requireRecovery marks) (turnId : String) (accepted : Bool)
    (s : DispatchState σ) :
    (∃ s', acknowledgeAccepted Q claim turnId accepted requireRecovery s = (.ok (!accepted), s') ∧
        Settled Holds claim s' ∧ s'.recoverBeforeNextClaim = s.recoverBeforeNextClaim ∧
        ∀ q' error, ¬ BothFail Q claim turnId s.queue q' error) ∨
      ∃ s' error, acknowledgeAccepted Q claim turnId accepted requireRecovery s = (.error error, s') ∧
        BothFail Q claim turnId s.queue s'.queue error ∧
        s'.recoverBeforeNextClaim = (s.recoverBeforeNextClaim || marks) := by
  have hcall : ∀ s : DispatchState σ,
      (call (Q.acknowledge claim.sessionId claim.claimId turnId)).attempt s =
        (.ok (Q.acknowledge claim.sessionId claim.claimId turnId s.queue).1,
          { s with queue := (Q.acknowledge claim.sessionId claim.claimId turnId s.queue).2 }) :=
    fun s => rfl
  unfold acknowledgeAccepted
  rw [Effect.bind_of_ok (hcall s)]
  rcases hfirst : Q.acknowledge claim.sessionId claim.claimId turnId s.queue with ⟨e₁ | ⟨⟨⟩⟩, q₁⟩
  · simp only []
    rw [Effect.bind_of_ok (hcall _)]
    rcases hsecond : Q.acknowledge claim.sessionId claim.claimId turnId q₁ with ⟨e₂ | ⟨⟨⟩⟩, q₂⟩
    · refine .inr ⟨{ s with queue := q₂, recoverBeforeNextClaim := s.recoverBeforeNextClaim || marks },
        e₂, ?_, ⟨q₁, e₁, hfirst, hsecond⟩, rfl⟩
      simp only []
      rw [Effect.bind_of_ok (hmarks _)]
      rfl
    · refine .inl ⟨{ s with queue := q₂ }, rfl, hQ.acknowledged hsecond, rfl, ?_⟩
      rintro q' error ⟨q, e, hq, he⟩
      rw [hfirst] at hq
      cases hq
      rw [hsecond] at he
      cases he
  · refine .inl ⟨{ s with queue := q₁ }, rfl, hQ.acknowledged hfirst, rfl, ?_⟩
    rintro q' error ⟨q, e, hq, -⟩
    rw [hfirst] at hq
    cases hq

theorem BothFail.holds (hQ : Q.Contract Holds isClaimOwnerAlive) {turnId : String} {q q' : σ}
    {error : ε} (h : BothFail Q claim turnId q q' error) : Holds q' claim ↔ Holds q claim := by
  obtain ⟨q₁, e₁, hfirst, hsecond⟩ := h
  exact (hQ.unacknowledged hsecond).trans (hQ.unacknowledged hfirst)

theorem BothFail.unique {turnId : String} {q q' q'' : σ} {error error' : ε}
    (h : BothFail Q claim turnId q q' error) (h' : BothFail Q claim turnId q q'' error') :
    q' = q'' ∧ error = error' := by
  obtain ⟨q₁, e₁, hfirst, hsecond⟩ := h
  obtain ⟨q₂, e₂, hfirst', hsecond'⟩ := h'
  rw [hfirst] at hfirst'
  cases hfirst'
  rw [hsecond] at hsecond'
  cases hsecond'
  exact ⟨rfl, rfl⟩

/-! ## The executor -/

/-- The Turn a result started. -/
def startedTurn : ExecuteTurnResult → Option String
  | .accepted turnId => some turnId
  | .duplicate turnId => some turnId
  | .rejected _ _ => none

/-- The run ended with a Turn started, no acknowledgement, and none to go through. -/
def ExecutorEnd.Unacknowledged (Q : QueueDispatchCapability σ ε) (env : DispatchEnvironment ε)
    (claim : QueueDispatchClaim) (e : ExecutorEnd ε) (q : σ) : Prop :=
  e.acknowledged = false ∧ ∃ result turnId, observe env e = .ok result ∧
    startedTurn result = some turnId ∧ ∃ q' error, BothFail Q claim turnId q q' error

theorem observe_eq_ok {result result' : ExecuteTurnResult} {acknowledged observed : Bool} :
    observe env ⟨.ok result, acknowledged, observed⟩ = .ok result' ↔
      result = result' ∧ (observed = true ∨ env.onExecution result = .ok ()) := by
  unfold observe
  cases observed
  · rcases h : env.onExecution result with error | ⟨⟨⟩⟩ <;> simp [Except.map, h]
  · simp

/-- What a run of the executor did to the claim. -/
structure RunEnds (Q : QueueDispatchCapability σ ε) (Holds : σ → QueueDispatchClaim → Prop)
    (env : DispatchEnvironment ε) (claim : QueueDispatchClaim) (marks : Bool)
    (s : DispatchState σ) (unacknowledged : Prop) (e : ExecutorEnd ε) (s' : DispatchState σ) :
    Prop where
  acknowledged : e.acknowledged = true → Settled Holds claim s'
  held : e.acknowledged = false → (Holds s'.queue claim ↔ Holds s.queue claim)
  flagged : e.acknowledged = false →
    (s'.recoverBeforeNextClaim || marks) = (s.recoverBeforeNextClaim || marks)
  unacknowledged : unacknowledged ↔ ExecutorEnd.Unacknowledged Q env claim e s'.queue

section Runs

variable (env claim) (hQ : Q.Contract Holds isClaimOwnerAlive) (hmarks : Marks requireRecovery marks)

include hQ hmarks

/-- After an acknowledgement nothing takes the claim back. -/
theorem runExecutor_acknowledged (run : ExecutorRun ε) (observed : Bool) {s : DispatchState σ}
    (hs : Settled Holds claim s) :
    let ended := runExecutor Q env claim requireRecovery run true observed s
    ended.1.acknowledged = true ∧ Settled Holds claim ended.2 := by
  induction run generalizing observed s with
  | returns result => exact ⟨rfl, hs⟩
  | throws error => exact ⟨rfl, hs⟩
  | onAccepted accepted next ih => exact ih _ _ hs
  | beforeSubmit turnId next ih =>
    simp only [runExecutor]
    split
    · exact ih _ _ hs
    · exact ih _ _ fun hheld => hs ((hQ.prepareDelivery claim turnId s.queue).1 hheld)
  | beforeStart turnId next ih =>
    simp only [runExecutor]
    rcases acknowledgeAccepted_cases claim hQ hmarks turnId true s with
      ⟨s', heq, hs', -, -⟩ | ⟨s', error, heq, hfail, -⟩ <;> rw [heq]
    · exact ih _ _ hs'
    · exact ih _ _ fun hheld => hs ((hfail.holds hQ).1 hheld)

theorem runExecutor_ends (run : ExecutorRun ε) (observed : Bool) (s : DispatchState σ) :
    let ended := runExecutor Q env claim requireRecovery run false observed s
    RunEnds Q Holds env claim marks s (EndsUnacknowledged Q env claim run observed s.queue)
      ended.1 ended.2 := by
  induction run generalizing observed s with
  | returns result =>
    refine ⟨by rintro ⟨⟩, fun _ => Iff.rfl, fun _ => rfl, ?_⟩
    simp only [runExecutor, ExecutorEnd.Unacknowledged, observe_eq_ok, true_and]
    constructor
    · intro h
      cases result with
      | accepted turnId => exact ⟨_, turnId, ⟨rfl, h.1⟩, rfl, h.2⟩
      | duplicate turnId => exact ⟨_, turnId, ⟨rfl, h.1⟩, rfl, h.2⟩
      | rejected => exact h.elim
    · rintro ⟨_, turnId, ⟨rfl, hobserved⟩, hstarted, hfail⟩
      cases result <;> cases hstarted <;> exact ⟨hobserved, hfail⟩
  | throws error =>
    refine ⟨by rintro ⟨⟩, fun _ => Iff.rfl, fun _ => rfl, ?_⟩
    simp [runExecutor, EndsUnacknowledged, ExecutorEnd.Unacknowledged, observe]
  | onAccepted accepted next ih => exact ih _ _ s
  | beforeSubmit turnId next ih =>
    simp only [runExecutor, EndsUnacknowledged]
    rcases env.onPreparing turnId with error | ⟨⟨⟩⟩
    · exact ih _ _ s
    · obtain ⟨hack, hheld, hflag, hend⟩ := ih (Q.prepareDelivery claim.sessionId claim.claimId
        turnId s.queue).1 observed (call (Q.prepareDelivery claim.sessionId claim.claimId turnId) s).2
      exact ⟨hack, fun h => (hheld h).trans (hQ.prepareDelivery claim turnId s.queue), hflag, hend⟩
  | beforeStart turnId next ih =>
    simp only [runExecutor]
    rcases acknowledgeAccepted_cases claim hQ hmarks turnId true s with
      ⟨s', heq, hs', hflag, hnone⟩ | ⟨s', error, heq, hfail, hflag⟩ <;> rw [heq]
    · obtain ⟨hack, hsettled⟩ := runExecutor_acknowledged env claim hQ hmarks (next (.ok ()))
        observed hs'
      refine ⟨fun _ => hsettled, fun h => absurd (hack.symm.trans h) (by simp),
        fun h => absurd (hack.symm.trans h) (by simp), ?_⟩
      constructor
      · rintro ⟨q', error, hfail, -⟩
        exact absurd hfail (hnone q' error)
      · rintro ⟨hnot, -⟩
        exact absurd (hack.symm.trans hnot) (by simp)
    · obtain ⟨hack, hheld, hflag', hend⟩ := ih (.error error) observed s'
      refine ⟨hack, fun h => (hheld h).trans (hfail.holds hQ), fun h => ?_, ?_⟩
      · rw [hflag' h, hflag, Bool.or_assoc, Bool.or_self]
      · refine Iff.trans ?_ hend
        constructor
        · rintro ⟨q', error', hfail', hends⟩
          obtain ⟨rfl, rfl⟩ := hfail.unique hfail'
          exact hends
        · exact fun hends => ⟨s'.queue, error, hfail, hends⟩

/-- The claim of a Turn that was started stays settled if it is acknowledged, and is settled now
unless both tries fail. -/
theorem settleStartedClaim_settles (mode : StartedMode) (turnId : String) {acknowledged : Bool}
    {s : DispatchState σ} (hs : acknowledged = true → Settled Holds claim s)
    (hnone : acknowledged = false → ∀ q' error, ¬ BothFail Q claim turnId s.queue q' error) :
    Settled Holds claim (settleStartedClaim Q claim mode turnId acknowledged requireRecovery s).2 := by
  unfold settleStartedClaim
  cases acknowledged
  · rcases acknowledgeAccepted_cases claim hQ hmarks turnId (decide (mode = .accepted)) s
      with ⟨s', heq, hs', -, -⟩ | ⟨s', error, heq, hfail, -⟩
    · simp only [Bool.false_eq_true, if_false]
      rw [Effect.bind_of_ok heq]
      exact hs'
    · exact absurd hfail (hnone rfl _ _)
  · exact hs rfl

/-- Where both tries fail the claim is left, with the mark of the caller. -/
theorem settleStartedClaim_leaves (mode : StartedMode) {turnId : String} {q' : σ} {error : ε}
    {s : DispatchState σ} (hfail : BothFail Q claim turnId s.queue q' error) :
    let s' := (settleStartedClaim Q claim mode turnId false requireRecovery s).2
    (Holds s'.queue claim ↔ Holds s.queue claim) ∧
      s'.recoverBeforeNextClaim = (s.recoverBeforeNextClaim || marks) := by
  unfold settleStartedClaim
  rcases acknowledgeAccepted_cases claim hQ hmarks turnId (decide (mode = .accepted)) s
    with ⟨s', heq, -, -, hnone⟩ | ⟨s', error', heq, hfail', hflag⟩
  · exact absurd hfail (hnone _ _)
  · simp only [Bool.false_eq_true, if_false]
    rw [Effect.bind_of_error heq]
    exact ⟨hfail'.holds hQ, hflag⟩

/-- The claim handed to an executor is settled, or left with the mark of the caller. -/
theorem executeClaim_cases (yielding : Bool) (s : DispatchState σ) (hheld : Holds s.queue claim) :
    let s' := (executeClaim Q env claim requireRecovery yielding s).2
    (¬ EndsUnacknowledged Q env claim env.executor false s.queue ∧ Settled Holds claim s') ∨
      EndsUnacknowledged Q env claim env.executor false s.queue ∧ Holds s'.queue claim ∧
        s'.recoverBeforeNextClaim = (s.recoverBeforeNextClaim || marks) := by
  obtain ⟨hack, hkeep, hflag, hend⟩ := runExecutor_ends env claim hQ hmarks
    env.executor false s
  unfold executeClaim
  rw [hend]
  generalize runExecutor Q env claim requireRecovery env.executor false false s = ended at *
  obtain ⟨e, s₁⟩ := ended
  simp only [] at hack hkeep hflag ⊢
  rcases hobserve : observe env e with error | result
  · have hnot : ¬ ExecutorEnd.Unacknowledged Q env claim e s₁.queue := by
      rintro ⟨-, result, turnId, hok, -⟩
      rw [hobserve] at hok
      cases hok
    refine .inl ⟨hnot, ?_⟩
    cases hacked : e.acknowledged
    · exact settleThrownClaim_settles hQ (fun _ => True) true error s₁ trivial
    · exact hack hacked
  by_cases hun : ExecutorEnd.Unacknowledged Q env claim e s₁.queue
  · refine .inr ⟨hun, ?_⟩
    obtain ⟨hnack, result', turnId, hok, hstarted, q', error, hfail⟩ := hun
    obtain rfl := Except.ok.inj (hobserve.symm.trans hok)
    have hleaves : ∀ mode,
        let s' := (settleStartedClaim Q claim mode turnId false requireRecovery s₁).2
        Holds s'.queue claim ∧
          s'.recoverBeforeNextClaim = (s.recoverBeforeNextClaim || marks) := by
      intro mode
      obtain ⟨hholds, hmark⟩ := settleStartedClaim_leaves claim hQ hmarks mode hfail
      exact ⟨hholds.2 ((hkeep hnack).2 hheld), hmark.trans (hflag hnack)⟩
    rw [hnack]
    cases result <;> cases hstarted
    · exact hleaves .accepted
    · exact hleaves .duplicate
  · refine .inl ⟨hun, ?_⟩
    have hnone : e.acknowledged = false → ∀ turnId, startedTurn result = some turnId →
        ∀ q' error, ¬ BothFail Q claim turnId s₁.queue q' error :=
      fun hnack turnId hstarted q' error hfail =>
        hun ⟨hnack, result, turnId, hobserve, hstarted, q', error, hfail⟩
    cases result with
    | accepted turnId =>
      exact settleStartedClaim_settles claim hQ hmarks .accepted turnId hack fun h => hnone h turnId rfl
    | duplicate turnId =>
      exact settleStartedClaim_settles claim hQ hmarks .duplicate turnId hack fun h => hnone h turnId rfl
    | rejected reason queueDisposition =>
      exact settleRejectedClaim_settles hQ (fun _ => True) reason queueDisposition yielding s₁ trivial

/-- A dispatched claim is settled, or left by its executor with the mark of the caller. -/
theorem dispatchClaim_cases (yielding : Bool) (s : DispatchState σ) (hheld : Holds s.queue claim) :
    let s' := (dispatchClaim Q env claim requireRecovery yielding s).2
    let left := env.classifyQueuedItem = .ok .ready ∧ env.isCancellationRequested false = false ∧
      EndsUnacknowledged Q env claim env.executor false s.queue
    (¬ left ∧ Settled Holds claim s') ∨ left ∧ Holds s'.queue claim ∧
      s'.recoverBeforeNextClaim = (s.recoverBeforeNextClaim || marks) := by
  unfold dispatchClaim
  rcases hclassify : env.classifyQueuedItem with error | disposition
  · refine .inl ⟨by simp, ?_⟩
    exact settleThrownClaim_settles hQ (fun _ => True) false error s trivial
  simp only []
  cases hcancel : env.isCancellationRequested false
  · have hskip : cancelRequestedClaim Q env claim false s = (.ok none, s) := by
      rw [cancelRequestedClaim, hcancel]
      rfl
    rw [Effect.firstSome_of_none hskip]
    by_cases hready : disposition = .ready
    · subst hready
      have hnext : settleClassifiedClaim Q env claim .ready yielding s = (.ok none, s) := rfl
      rw [Effect.firstSome_of_none hnext]
      simpa using executeClaim_cases env claim hQ hmarks yielding s hheld
    · refine .inl ⟨fun hleft => hready (Except.ok.inj hleft.1), ?_⟩
      exact Effect.firstSome_of_some (settleClassifiedClaim_settles hQ (fun _ => True) hready
        yielding) s trivial
  · refine .inl ⟨by simp, ?_⟩
    have hcancelled : Effect.Ensures (fun _ => True) (cancelRequestedClaim Q env claim false)
        fun r s => r ≠ .ok none ∧ Settled Holds claim s := by
      rw [cancelRequestedClaim, hcancel]
      exact (cancelClaim_settles hQ _).bind (fun _ s hs => ⟨by simp, hs⟩)
        fun e s hs => ⟨by simp, hs⟩
    exact Effect.firstSome_of_some hcancelled s trivial

end Runs

/-! ## The entries -/

/-- The drain of `dispatch` marks the Session, `continuePaused` does not. -/
def Entry.marksSession : Entry → Bool
  | dispatch => true
  | continuePaused => false

section Entries

variable {sessionId : String} {entry : Entry} {s s' : DispatchState σ}

/-- Where a claim is taken, the entry ends as the dispatch of it does. -/
theorem Entry.after_of_claim
    (htaken : claimIfOpen Q env (entry.request sessionId s) s = (.ok (some claim), s')) :
    ∃ requireRecovery yielding, Marks requireRecovery entry.marksSession ∧
      entry.after Q env sessionId s = (dispatchClaim Q env claim requireRecovery yielding s').2 := by
  cases entry with
  | dispatch =>
    refine ⟨markRecovery, true, fun s => by simp [markRecovery, marksSession], ?_⟩
    calc (dispatchNext Q env sessionId s).2
      _ = ((dispatchClaim Q env claim markRecovery true >>= fun attempt =>
          pure attempt.drainAgain) s').2 := congrArg Prod.snd (Effect.bind_of_ok htaken)
      _ = _ := Effect.bind_pure_state _ _ _
  | continuePaused =>
    refine ⟨pure (), false, fun s => by simp [marksSession], ?_⟩
    calc (dispatchContinuedHead Q env sessionId s).2
      _ = ((dispatchClaim Q env claim (pure ()) false >>= fun attempt =>
          pure attempt.result) s').2 := congrArg Prod.snd (Effect.bind_of_ok htaken)
      _ = _ := Effect.bind_pure_state _ _ _

/-- Where no claim is taken, the entry ends. -/
theorem Entry.after_of_none {r : Except ε (Option QueueDispatchClaim)}
    (htaken : claimIfOpen Q env (entry.request sessionId s) s = (r, s'))
    (hnone : ∀ claim, r ≠ .ok (some claim)) : entry.after Q env sessionId s = s' := by
  rcases r with error | _ | claim
  · cases entry with
    | dispatch => exact congrArg Prod.snd (Effect.bind_of_error htaken)
    | continuePaused => exact congrArg Prod.snd (Effect.bind_of_error htaken)
  · cases entry with
    | dispatch => exact congrArg Prod.snd (Effect.bind_of_ok htaken)
    | continuePaused => exact congrArg Prod.snd (Effect.bind_of_ok htaken)
  · exact absurd rfl (hnone claim)

variable {q : σ} (hopen : env.stoppedBeforeClaim = false)
  (hclaim : Q.claimNext (entry.request sessionId s) s.queue = (.ok (some claim), q))

include hopen hclaim

theorem claimIfOpen_eq :
    claimIfOpen Q env (entry.request sessionId s) s =
      if env.stoppedAfterClaim then
        (call (Q.release (entry.request sessionId s).sessionId claim.claimId none) >>=
          fun _ => pure none) { s with queue := q }
      else (.ok (some claim), { s with queue := q }) := by
  have hcall : call (Q.claimNext (entry.request sessionId s)) s =
      (.ok (some claim), { s with queue := q }) := by
    rw [call, hclaim]
  unfold claimIfOpen
  rw [hopen, if_neg (by simp), Effect.bind_of_ok hcall]
  split_ifs <;> rfl

/-- A claim taken as the dispatcher stops is released. -/
theorem Entry.after_stopped (hQ : Q.Contract Holds isClaimOwnerAlive)
    (hstopped : env.stoppedAfterClaim = true) :
    Settled Holds claim (entry.after Q env sessionId s) := by
  have htaken := claimIfOpen_eq hopen hclaim
  rw [hstopped, if_pos rfl, ← (hQ.claimNext hclaim).1] at htaken
  have hreleased : Effect.Ensures (fun _ => True)
      (call (Q.release claim.sessionId claim.claimId none) >>= fun _ =>
        (pure none : Effect (DispatchState σ) ε (Option QueueDispatchClaim)))
      fun r s => (∀ claim, r ≠ .ok (some claim)) ∧ Settled Holds claim s :=
    (release_settles hQ _ none).bind (fun _ s hs => ⟨by simp, hs⟩) fun e s hs => ⟨by simp, hs⟩
  have hsettled := hreleased { s with queue := q } trivial
  rw [← htaken] at hsettled
  rw [Entry.after_of_none rfl hsettled.1]
  exact hsettled.2

/-- What becomes of the claim of an entry. -/
theorem Entry.after_cases (hQ : Q.Contract Holds isClaimOwnerAlive) :
    let s' := entry.after Q env sessionId s
    (¬ LeftUnacknowledged Q env claim q ∧ Settled Holds claim s') ∨
      LeftUnacknowledged Q env claim q ∧ Holds s'.queue claim ∧
        s'.recoverBeforeNextClaim = (s.recoverBeforeNextClaim || entry.marksSession) := by
  cases hstopped : env.stoppedAfterClaim
  · have htaken := claimIfOpen_eq hopen hclaim
    rw [hstopped, if_neg (by simp)] at htaken
    obtain ⟨requireRecovery, yielding, hmarks, hafter⟩ := Entry.after_of_claim htaken
    simp only [LeftUnacknowledged, hstopped, true_and, hafter]
    exact dispatchClaim_cases env claim hQ hmarks yielding { s with queue := q }
      (hQ.claimNext hclaim).2
  · refine .inl ⟨?_, Entry.after_stopped hopen hclaim hQ hstopped⟩
    simp [LeftUnacknowledged, hstopped]

end Entries

/-- A claim left held in a marked Session is recovered unless it is active then. -/
theorem holds_recoverBeforeClaim (hQ : Q.Contract Holds isClaimOwnerAlive) (nowMs : ℤ)
    {s : DispatchState σ} (hmarked : s.recoverBeforeNextClaim = true)
    (hheld : Holds s.queue claim) :
    Holds (recoverBeforeClaim Q claim.sessionId nowMs s).2.queue claim ↔
      claim.Active isClaimOwnerAlive nowMs := by
  obtain ⟨q, hrecovered, hholds⟩ := hQ.recoverClaims claim nowMs s.queue
  have hcall : call (Q.recoverClaims claim.sessionId nowMs) s = (.ok (), { s with queue := q }) := by
    rw [call, hrecovered]
  unfold recoverBeforeClaim
  rw [if_pos hmarked, Effect.bind_of_ok hcall]
  exact hholds.trans (and_iff_right hheld)

/-- The claim an entry takes is settled or flagged unless its Turn is started unacknowledged; then
only where a drain marks the Session and the claim is not active any more when the next starts. -/
theorem claim_settled_or_flagged (hQ : Q.Contract Holds isClaimOwnerAlive) (entry : Entry)
    {sessionId : String} {s : DispatchState σ} {q : σ} (hopen : env.stoppedBeforeClaim = false)
    (hclaim : Q.claimNext (entry.request sessionId s) s.queue = (.ok (some claim), q))
    (nextDrainMs : ℤ) :
    SettledOrFlagged Q Holds claim nextDrainMs (entry.after Q env sessionId s) ↔
      ¬ LeftUnacknowledged Q env claim q ∨
        (entry = .dispatch ∨ s.recoverBeforeNextClaim = true) ∧
          ¬ claim.Active isClaimOwnerAlive nextDrainMs := by
  have hmarks : entry.marksSession = true ↔ entry = .dispatch := by
    cases entry <;> simp [Entry.marksSession]
  rcases Entry.after_cases hopen hclaim hQ with ⟨hnot, hsettled⟩ | ⟨hleft, hheld, hflag⟩
  · exact iff_of_true (.inl hsettled) (.inl hnot)
  · have hmarked : (entry.after Q env sessionId s).recoverBeforeNextClaim = true ↔
        entry = .dispatch ∨ s.recoverBeforeNextClaim = true := by
      rw [hflag, Bool.or_eq_true, hmarks, or_comm]
    constructor
    · rintro (hsettled | ⟨hflagged, hrecovered⟩)
      · exact absurd hheld hsettled
      · exact .inr ⟨hmarked.1 hflagged,
          mt (holds_recoverBeforeClaim hQ nextDrainMs hflagged hheld).2 hrecovered⟩
    · rintro (hnot | ⟨hentry, hinactive⟩)
      · exact absurd hleft hnot
      · exact .inr ⟨hmarked.2 hentry,
          mt (holds_recoverBeforeClaim hQ nextDrainMs (hmarked.2 hentry) hheld).1 hinactive⟩

/-- The queue of one row keeps the contract. -/
theorem oneRowQueue_contract :
    OneRowQueue.capability.Contract OneRowQueue.Holds (· = "owner") := by
  have hsettle : ∀ (claim : QueueDispatchClaim) (q : OneRowQueue),
      ¬ (OneRowQueue.settle claim.sessionId claim.claimId q).2.Holds claim := by
    intro claim q hheld
    by_cases hids : q.holdsIds claim.sessionId claim.claimId
    · simp [OneRowQueue.settle, hids, OneRowQueue.Holds] at hheld
    · have hq : q.held = some claim := by
        simpa [OneRowQueue.settle, hids, OneRowQueue.Holds] using hheld
      exact hids (by simp [OneRowQueue.holdsIds, hq])
  refine ⟨?_, fun _ _ _ => Iff.rfl, ?_, ?_, fun claim _ q => hsettle claim q,
    fun claim _ q => hsettle claim q, hsettle, ?_⟩
  · intro request q q' claim htaken
    rcases hq : q.held with _ | held <;>
      simp only [OneRowQueue.capability, OneRowQueue.claimNext, hq, Prod.mk.injEq, Except.ok.injEq,
        Option.some.injEq, reduceCtorEq, false_and] at htaken
    obtain ⟨rfl, rfl⟩ := htaken
    exact ⟨rfl, rfl⟩
  · intro claim turnId q q' hacknowledged
    by_cases hfails : 0 < q.failures
    · simp [OneRowQueue.capability, OneRowQueue.acknowledge, hfails] at hacknowledged
    · have heq : OneRowQueue.settle claim.sessionId claim.claimId q = (.ok (), q') := by
        simpa [OneRowQueue.capability, OneRowQueue.acknowledge, hfails] using hacknowledged
      have hnot := hsettle claim q
      rwa [heq] at hnot
  · intro claim turnId q q' error hfailed
    by_cases hfails : 0 < q.failures
    · simp only [OneRowQueue.capability, OneRowQueue.acknowledge, hfails, if_true,
        Prod.mk.injEq] at hfailed
      rw [← hfailed.2]
      rfl
    · simp only [OneRowQueue.capability, OneRowQueue.acknowledge, hfails, if_false,
        OneRowQueue.settle] at hfailed
      split_ifs at hfailed
      · cases hfailed
      · rw [← (Prod.mk.inj hfailed).2]
  · intro claim nowMs q
    refine ⟨_, rfl, ?_⟩
    simp only [OneRowQueue.Holds, Option.filter_eq_some_iff]
    constructor
    · rintro ⟨hheld, hactive⟩
      exact ⟨hheld, by simpa using hactive⟩
    · rintro ⟨hheld, hactive⟩
      exact ⟨hheld, by simpa using hactive⟩

/-- In a drain the failed acknowledgements mark the Session, and a drain after the lease ends
recovers the claim. -/
theorem claim_settled_or_flagged_dispatch :
    SettledOrFlagged OneRowQueue.capability OneRowQueue.Holds
      (OneRowQueue.claimOf (Entry.request "session" OneRowQueue.unclaimed .dispatch)) 60000
      (Entry.after OneRowQueue.capability startsTurn "session" OneRowQueue.unclaimed .dispatch) :=
  (claim_settled_or_flagged oneRowQueue_contract .dispatch rfl rfl 60000).2
    (.inr ⟨.inl rfl, by decide⟩)

/-- Past a pause the Session is not marked, so the claim is neither settled nor flagged; nor is it
after a drain, where the next one starts before the lease ends. -/
theorem claim_not_settled_or_flagged :
    OneRowQueue.capability.Contract OneRowQueue.Holds (· = "owner") ∧
    ¬ SettledOrFlagged OneRowQueue.capability OneRowQueue.Holds
      (OneRowQueue.claimOf (Entry.request "session" OneRowQueue.unclaimed .continuePaused)) 60000
      (Entry.after OneRowQueue.capability startsTurn "session" OneRowQueue.unclaimed
        .continuePaused) ∧
    ¬ SettledOrFlagged OneRowQueue.capability OneRowQueue.Holds
      (OneRowQueue.claimOf (Entry.request "session" OneRowQueue.unclaimed .dispatch)) 1000
      (Entry.after OneRowQueue.capability startsTurn "session" OneRowQueue.unclaimed .dispatch) := by
  refine ⟨oneRowQueue_contract, ?_, ?_⟩
  · unfold SettledOrFlagged
    decide
  · unfold SettledOrFlagged
    decide

end Dispatcher

end Kinetick
