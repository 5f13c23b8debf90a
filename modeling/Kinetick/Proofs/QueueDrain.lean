import Kinetick.Proofs.QueueTaken
import Kinetick.Proofs.TurnDispatch
import Kinetick.Turn.QueueDrain

/-!
# A drain ends

Every pass that asks for another takes an item that is pending and has not yielded, and either
removes it or has it yield. The pending items that have not yielded are fewer after each, and nothing
the dispatcher asks of the queue adds one.
-/

namespace Kinetick

namespace Dispatcher

variable {σ ε α : Type}

/-! ### A queue that only shrinks -/

section

variable (ids : σ → Finset String) (Only : String → σ → Prop)

/-- The call adds no item, and claims no other. -/
def Shrinks (m : Effect σ ε α) : Prop :=
  ∀ q, ids (m q).2 ⊆ ids q ∧ ∀ itemId, Only itemId q → Only itemId (m q).2

/-- Where the call answers, the only item that may be claimed is gone. -/
def Removes (m : Effect σ ε Unit) : Prop :=
  ∀ q q' itemId, m q = (.ok (), q') → Only itemId q → itemId ∉ ids q'

end

/-- What a queue does that only shrinks: `Only` is the one item that may be claimed. -/
structure Shrinking (Q : QueueDispatchCapability σ ε) (sessionId : String)
    (ids : σ → Finset String) (Only : String → σ → Prop) : Prop where
  claimNext : ∀ excludeItemIds q,
    ids (Q.claimNext ⟨sessionId, false, excludeItemIds⟩ q).2 ⊆ ids q
  claimed : ∀ excludeItemIds q claim q',
    Q.claimNext ⟨sessionId, false, excludeItemIds⟩ q = (.ok (some claim), q') →
      claim.sessionId = sessionId ∧ claim.itemId ∈ ids q ∧ claim.itemId ∉ excludeItemIds ∧
        Only claim.itemId q'
  prepareDelivery : ∀ claimId turnId, Shrinks ids Only (Q.prepareDelivery sessionId claimId turnId)
  acknowledge : ∀ claimId turnId, Shrinks ids Only (Q.acknowledge sessionId claimId turnId)
  acknowledged : ∀ claimId turnId, Removes ids Only (Q.acknowledge sessionId claimId turnId)
  release : ∀ claimId reason, Shrinks ids Only (Q.release sessionId claimId reason)
  reject : ∀ claimId reason, Shrinks ids Only (Q.reject sessionId claimId reason)
  rejected : ∀ claimId reason, Removes ids Only (Q.reject sessionId claimId reason)
  cancelClaim : ∀ claimId, Shrinks ids Only (Q.cancelClaim sessionId claimId)
  cancelled : ∀ claimId, Removes ids Only (Q.cancelClaim sessionId claimId)
  recoverClaims : ∀ nowMs, Shrinks ids Only (Q.recoverClaims sessionId nowMs)

/-- The pending items are among these, only the claimed one may be claimed, and so much yielded. -/
structure Within (ids : σ → Finset String) (Only : String → σ → Prop) (itemId : String)
    (I : Finset String) (yielded : List String) (s : DispatchState σ) : Prop where
  ids : ids s.queue ⊆ I
  only : Only itemId s.queue
  yielded : s.yielded = yielded

/-- The pending items are among these, and where the answer asks for another pass the claimed item is
gone or yielded. -/
def Asks (ids : σ → Finset String) (itemId : String) (I : Finset String) (yielded : List String)
    (again : α → Bool) (r : Except ε α) (s : DispatchState σ) : Prop :=
  ids s.queue ⊆ I ∧ ∀ a, r = .ok a → again a = true →
    s.yielded = yielded ∧ itemId ∉ ids s.queue ∨ s.yielded = yielded ++ [itemId]

section

variable {Q : QueueDispatchCapability σ ε} {ids : σ → Finset String} {Only : String → σ → Prop}
  {env : DispatchEnvironment ε} {claim : QueueDispatchClaim} {I : Finset String}
  {yielded : List String} {itemId : String} {s : DispatchState σ}

theorem Within.call {m : Effect σ ε α} (hs : Within ids Only itemId I yielded s)
    (h : Shrinks ids Only m) : Within ids Only itemId I yielded (call m s).2 := by
  obtain ⟨hids, honly⟩ := h s.queue
  exact ⟨hids.trans hs.ids, honly _ hs.only, hs.yielded⟩

theorem Within.removed {m : Effect σ ε Unit} (hs : Within ids Only itemId I yielded s)
    (h : Removes ids Only m) (hok : (Dispatcher.call m s).1 = .ok ()) :
    itemId ∉ ids (Dispatcher.call m s).2.queue :=
  h s.queue _ _ (Prod.ext hok rfl) hs.only

theorem Within.asks_error (hs : Within ids Only itemId I yielded s) (again : α → Bool) (error : ε) :
    Asks ids itemId I yielded again (.error error) s :=
  ⟨hs.ids, by rintro a ⟨⟩⟩

/-- A call that settles a claim may ask for another pass only if it removes the item. -/
theorem asks_call {m : Effect σ ε Unit} (h : Shrinks ids Only m) {again : α → Bool} {a : α}
    (hagain : again a = true → Removes ids Only m) :
    Effect.Ensures (Within ids Only itemId I yielded) (call m >>= fun _ => pure a)
      (Asks ids itemId I yielded again) := by
  intro s hs
  have hwithin := hs.call h
  rcases hm : call m s with ⟨error | ⟨⟨⟩⟩, s'⟩ <;> rw [hm] at hwithin
  · rw [Effect.bind_of_error hm]
    exact hwithin.asks_error again error
  · rw [Effect.bind_of_ok hm]
    refine ⟨hwithin.ids, fun b hb hask => .inl ⟨hwithin.yielded, ?_⟩⟩
    obtain rfl := Except.ok.inj hb
    have hgone := hs.removed (hagain hask) (congrArg Prod.fst hm)
    rwa [hm] at hgone

/-- The computation settles the claim, or leaves it and answers nothing. -/
def Offers (ids : σ → Finset String) (Only : String → σ → Prop) (itemId : String)
    (I : Finset String) (yielded : List String) (r : Except ε (Option QueueDispatchAttempt))
    (s : DispatchState σ) : Prop :=
  r = .ok none ∧ Within ids Only itemId I yielded s ∨
    r ≠ .ok none ∧ Asks ids itemId I yielded (fun a => a.any QueueDispatchAttempt.drainAgain) r s

theorem offers_call {m : Effect σ ε Unit} (h : Shrinks ids Only m) {attempt : QueueDispatchAttempt}
    (hagain : attempt.drainAgain = true → Removes ids Only m) :
    Effect.Ensures (Within ids Only itemId I yielded) (call m >>= fun _ => pure (some attempt))
      (Offers ids Only itemId I yielded) := by
  intro s hs
  refine .inr ⟨?_, asks_call (a := some attempt) h hagain s hs⟩
  rcases hm : call m s with ⟨error | ⟨⟨⟩⟩, s'⟩
  · rw [Effect.bind_of_error hm]
    simp
  · rw [Effect.bind_of_ok hm]
    simp

/-- Where the first computation leaves the claim, the second settles it. -/
theorem Offers.firstSome {m : Effect (DispatchState σ) ε (Option QueueDispatchAttempt)}
    {rest : Effect (DispatchState σ) ε QueueDispatchAttempt}
    (h : Effect.Ensures (Within ids Only itemId I yielded) m (Offers ids Only itemId I yielded))
    (hrest : Effect.Ensures (Within ids Only itemId I yielded) rest
      (Asks ids itemId I yielded QueueDispatchAttempt.drainAgain)) :
    Effect.Ensures (Within ids Only itemId I yielded) (Effect.firstSome m rest)
      (Asks ids itemId I yielded QueueDispatchAttempt.drainAgain) := by
  refine h.bind (fun a => ?_) fun error s herror => ?_
  · rcases a with _ | a
    · intro s hs
      rcases hs with ⟨-, hwithin⟩ | ⟨hne, -⟩
      · exact hrest s hwithin
      · exact absurd rfl hne
    · intro s hs
      rcases hs with ⟨hnone, -⟩ | ⟨-, hids, hasks⟩
      · cases hnone
      · refine ⟨hids, fun b hb hask => hasks (some a) rfl ?_⟩
        obtain rfl := Except.ok.inj hb
        exact hask
  · rcases herror with ⟨hnone, -⟩ | ⟨-, hids, -⟩
    · cases hnone
    · exact ⟨hids, by rintro a ⟨⟩⟩

section Settlement

variable (hQ : Shrinking Q claim.sessionId ids Only)

include hQ

theorem cancelRequestedClaim_offers (executed : Bool) :
    Effect.Ensures (Within ids Only claim.itemId I yielded)
      (cancelRequestedClaim Q env claim executed) (Offers ids Only claim.itemId I yielded) := by
  unfold cancelRequestedClaim
  split_ifs
  · exact offers_call (hQ.cancelClaim _) fun _ => hQ.cancelled _
  · exact fun s hs => .inl ⟨rfl, hs⟩

theorem settleThrownClaim_asks (executed : Bool) (error : ε) :
    Effect.Ensures (Within ids Only claim.itemId I yielded)
      (settleThrownClaim Q env claim executed error)
      (Asks ids claim.itemId I yielded QueueDispatchAttempt.drainAgain) := by
  refine Offers.firstSome (cancelRequestedClaim_offers hQ executed) ?_
  refine Effect.Ensures.bind (Q := fun _ => Within ids Only claim.itemId I yielded)
    (fun s hs => hs.call (hQ.release _ _)) (fun _ s hs => hs.asks_error _ error) ?_
  exact fun error s hs => hs.asks_error _ error

/-- A claim is released, and its item yields where it is to. -/
theorem releaseYielding_yields (yieldsPosition : Bool) :
    Effect.Ensures (Within ids Only claim.itemId I yielded) (releaseYielding Q claim yieldsPosition)
      fun r s => ids s.queue ⊆ I ∧
        (r = .ok () → yieldsPosition = true → s.yielded = yielded ++ [claim.itemId]) := by
  intro s hs
  have hwithin := hs.call (hQ.release claim.claimId none)
  unfold releaseYielding
  rcases hm : call (Q.release claim.sessionId claim.claimId none) s with ⟨error | ⟨⟨⟩⟩, s'⟩ <;>
    rw [hm] at hwithin
  · rw [Effect.bind_of_error hm]
    exact ⟨hwithin.ids, by rintro ⟨⟩⟩
  · rw [Effect.bind_of_ok hm]
    cases yieldsPosition
    · exact ⟨hwithin.ids, fun _ h => by cases h⟩
    · exact ⟨hwithin.ids, fun _ _ => congrArg (· ++ [claim.itemId]) hwithin.yielded⟩

theorem settleClassifiedClaim_offers (disposition : QueueDispatchDisposition) (yielding : Bool) :
    Effect.Ensures (Within ids Only claim.itemId I yielded)
      (settleClassifiedClaim Q env claim disposition yielding)
      (Offers ids Only claim.itemId I yielded) := by
  unfold settleClassifiedClaim
  by_cases hready : disposition = .ready
  · rw [if_pos hready]
    exact fun s hs => .inl ⟨rfl, hs⟩
  rw [if_neg hready]
  by_cases hrelease : disposition = .defer || isRetryableSelection claim
  · rw [if_pos hrelease]
    refine (releaseYielding_yields hQ _).bind (fun _ s hs => .inr ⟨by simp, hs.1, ?_⟩)
      fun error s hs => .inr ⟨by simp, hs.1, by rintro a ⟨⟩⟩
    intro a ha hask
    obtain rfl := Except.ok.inj ha
    exact .inr (hs.2 rfl hask)
  · rw [if_neg hrelease]
    exact offers_call (hQ.cancelClaim _) fun _ => hQ.cancelled _

theorem settleHandoffRejection_offers (reason : String)
    (queueDisposition : Option TurnSubmissionQueueDisposition) :
    Effect.Ensures (Within ids Only claim.itemId I yielded)
      (settleHandoffRejection Q claim reason queueDisposition)
      (Offers ids Only claim.itemId I yielded) := by
  unfold settleHandoffRejection
  split_ifs
  · exact fun s hs => .inl ⟨rfl, hs⟩
  · cases startsWith reason "policy:cloud-handoff:denied:"
    · exact offers_call (hQ.release _ _) (by simp)
    · exact offers_call (hQ.reject _ _) fun _ => hQ.rejected _ _

theorem settleRejected_asks (reason : String) :
    Effect.Ensures (Within ids Only claim.itemId I yielded) (settleRejected Q claim reason)
      (Asks ids claim.itemId I yielded id) := by
  unfold settleRejected
  split_ifs
  · exact asks_call (hQ.release _ _) (by simp)
  all_goals exact asks_call (hQ.reject _ _) fun _ => hQ.rejected _ _

theorem settleRejectedClaim_asks (reason : String)
    (queueDisposition : Option TurnSubmissionQueueDisposition) (yielding : Bool) :
    Effect.Ensures (Within ids Only claim.itemId I yielded)
      (settleRejectedClaim Q env claim reason queueDisposition yielding)
      (Asks ids claim.itemId I yielded QueueDispatchAttempt.drainAgain) := by
  refine Offers.firstSome (cancelRequestedClaim_offers hQ true) ?_
  refine Offers.firstSome (settleHandoffRejection_offers hQ reason queueDisposition) ?_
  split_ifs
  · exact asks_call (hQ.release _ _) (by simp)
  · refine (releaseYielding_yields hQ _).bind (fun _ s hs => ⟨hs.1, fun a ha hask => ?_⟩)
      fun error s hs => ⟨hs.1, by rintro a ⟨⟩⟩
    obtain rfl := Except.ok.inj ha
    exact .inr (hs.2 rfl hask)
  · exact asks_call (hQ.cancelClaim _) fun _ => hQ.cancelled _
  · refine (settleRejected_asks hQ reason).bind (fun again s hs => ?_) fun error s hs => ?_
    · refine ⟨hs.1, fun a ha hask => hs.2 again rfl ?_⟩
      obtain rfl := Except.ok.inj ha
      exact hask
    · exact ⟨hs.1, by rintro a ⟨⟩⟩

/-- Of the two tries, one that goes through removes the item. -/
theorem acknowledgeAccepted_removes (turnId : String) (accepted : Bool) :
    Effect.Ensures (Within ids Only claim.itemId I yielded)
      (acknowledgeAccepted Q claim turnId accepted markRecovery) fun r s =>
        Within ids Only claim.itemId I yielded s ∧ (r.isOk = true → claim.itemId ∉ ids s.queue) := by
  intro s hs
  have hshrinks := hQ.acknowledge claim.claimId turnId
  have hremoves := hQ.acknowledged claim.claimId turnId
  have htry : ∀ s, (call (Q.acknowledge claim.sessionId claim.claimId turnId)).attempt s =
      (.ok (call (Q.acknowledge claim.sessionId claim.claimId turnId) s).1,
        (call (Q.acknowledge claim.sessionId claim.claimId turnId) s).2) := fun s => rfl
  have hfirst := hs.call hshrinks
  have hgone := hs.removed hremoves
  unfold acknowledgeAccepted
  rw [Effect.bind_of_ok (htry s)]
  rcases hm : call (Q.acknowledge claim.sessionId claim.claimId turnId) s with
    ⟨error | ⟨⟨⟩⟩, s₁⟩ <;> rw [hm] at hfirst hgone
  · have hsecond := hfirst.call hshrinks
    have hgone' := hfirst.removed hremoves
    simp only []
    rw [Effect.bind_of_ok (htry s₁)]
    rcases hm' : call (Q.acknowledge claim.sessionId claim.claimId turnId) s₁ with
      ⟨error' | ⟨⟨⟩⟩, s₂⟩ <;> rw [hm'] at hsecond hgone'
    · exact ⟨⟨hsecond.ids, hsecond.only, hsecond.yielded⟩, by rintro ⟨⟩⟩
    · exact ⟨hsecond, fun _ => hgone' rfl⟩
  · exact ⟨hfirst, fun _ => hgone rfl⟩

/-- Whatever the executor calls, the item is gone once its Turn is acknowledged. -/
theorem runExecutor_removes (env : DispatchEnvironment ε) (run : ExecutorRun ε) :
    ∀ (acknowledged observed : Bool) (s : DispatchState σ),
      Within ids Only claim.itemId I yielded s →
      (acknowledged = true → claim.itemId ∉ ids s.queue) →
      let ended := runExecutor Q env claim markRecovery run acknowledged observed s
      Within ids Only claim.itemId I yielded ended.2 ∧
        (ended.1.acknowledged = true → claim.itemId ∉ ids ended.2.queue) := by
  induction run with
  | returns result => exact fun _ _ _ hs hack => ⟨hs, hack⟩
  | throws error => exact fun _ _ _ hs hack => ⟨hs, hack⟩
  | onAccepted accepted next ih => exact fun _ _ s hs hack => ih _ _ _ s hs hack
  | beforeSubmit turnId next ih =>
    intro acknowledged observed s hs hack
    simp only [runExecutor]
    split
    · exact ih _ _ _ s hs hack
    · have hshrinks := hQ.prepareDelivery claim.claimId turnId
      exact ih _ _ _ _ (hs.call hshrinks) fun h hmem => hack h ((hshrinks s.queue).1 hmem)
  | beforeStart turnId next ih =>
    intro acknowledged observed s hs hack
    simp only [runExecutor]
    -- Whether or not a try goes through, no item is pending that was not before.
    have hcall := acknowledgeAccepted_removes hQ turnId true s
      (⟨subset_rfl, hs.only, hs.yielded⟩ : Within ids Only claim.itemId (ids s.queue) yielded s)
    rcases hm : acknowledgeAccepted Q claim turnId true markRecovery s with ⟨error | again, s'⟩ <;>
      rw [hm] at hcall
    · refine ih _ _ _ _ ⟨hcall.1.ids.trans hs.ids, hcall.1.only, hcall.1.yielded⟩ fun h hmem => ?_
      exact hack h (hcall.1.ids hmem)
    · exact ih _ _ _ _ ⟨hcall.1.ids.trans hs.ids, hcall.1.only, hcall.1.yielded⟩ fun _ => hcall.2 rfl

theorem settleStartedClaim_asks (mode : StartedMode) (turnId : String) {acknowledged : Bool}
    {s : DispatchState σ} (hs : Within ids Only claim.itemId I yielded s)
    (hack : acknowledged = true → claim.itemId ∉ ids s.queue) :
    let ended := settleStartedClaim Q claim mode turnId acknowledged markRecovery s
    Asks ids claim.itemId I yielded QueueDispatchAttempt.drainAgain ended.1 ended.2 := by
  unfold settleStartedClaim
  cases acknowledged
  · have hcall := acknowledgeAccepted_removes hQ turnId (decide (mode = .accepted)) s hs
    simp only [Bool.false_eq_true, if_false]
    rcases hm : acknowledgeAccepted Q claim turnId (decide (mode = .accepted)) markRecovery s with
      ⟨error | again, s'⟩ <;> rw [hm] at hcall
    · rw [Effect.bind_of_error hm]
      exact hcall.1.asks_error _ error
    · rw [Effect.bind_of_ok hm]
      exact ⟨hcall.1.ids, fun _ _ _ => .inl ⟨hcall.1.yielded, hcall.2 rfl⟩⟩
  · exact ⟨hs.ids, fun _ _ _ => .inl ⟨hs.yielded, hack rfl⟩⟩

theorem executeClaim_asks (yielding : Bool) :
    Effect.Ensures (Within ids Only claim.itemId I yielded)
      (executeClaim Q env claim markRecovery yielding)
      (Asks ids claim.itemId I yielded QueueDispatchAttempt.drainAgain) := by
  intro s hs
  have hrun := runExecutor_removes hQ env env.executor false false s hs (by simp)
  unfold executeClaim
  generalize runExecutor Q env claim markRecovery env.executor false false s = ended at *
  obtain ⟨e, s'⟩ := ended
  obtain ⟨hwithin, hack⟩ := hrun
  simp only []
  rcases observe env e with error | result
  · cases hacked : e.acknowledged
    · exact settleThrownClaim_asks hQ true error s' hwithin
    · exact hwithin.asks_error _ error
  · cases result with
    | accepted turnId => exact settleStartedClaim_asks hQ .accepted turnId hwithin hack
    | duplicate turnId => exact settleStartedClaim_asks hQ .duplicate turnId hwithin hack
    | rejected reason queueDisposition =>
      exact settleRejectedClaim_asks hQ reason queueDisposition yielding s' hwithin

theorem dispatchClaim_asks (env : DispatchEnvironment ε) (yielding : Bool) :
    Effect.Ensures (Within ids Only claim.itemId I yielded)
      (dispatchClaim Q env claim markRecovery yielding)
      (Asks ids claim.itemId I yielded QueueDispatchAttempt.drainAgain) := by
  unfold dispatchClaim
  rcases env.classifyQueuedItem with error | disposition
  · exact settleThrownClaim_asks hQ false error
  · exact Offers.firstSome (cancelRequestedClaim_offers hQ false)
      (Offers.firstSome (settleClassifiedClaim_offers hQ disposition yielding)
        (executeClaim_asks hQ yielding))

end Settlement

/-! ### A pass -/

section Pass

variable {sessionId : String} (hQ : Shrinking Q sessionId ids Only)

include hQ

/-- A claim is taken among the pending items that have not yielded, and no other is claimed. -/
theorem claimIfOpen_within {s s' : DispatchState σ} {taken : Except ε (Option QueueDispatchClaim)}
    (h : claimIfOpen Q env ⟨sessionId, false, s.yielded⟩ s = (taken, s')) :
    ids s'.queue ⊆ ids s.queue ∧ ∀ claim, taken = .ok (some claim) →
      claim.sessionId = sessionId ∧ claim.itemId ∈ ids s.queue ∧ claim.itemId ∉ s.yielded ∧
        Within ids Only claim.itemId (ids s.queue) s.yielded s' := by
  have hshrinks := hQ.claimNext s.yielded s.queue
  unfold claimIfOpen at h
  by_cases hstopped : env.stoppedBeforeClaim = true
  · rw [if_pos hstopped] at h
    cases h
    exact ⟨subset_rfl, by rintro claim ⟨⟩⟩
  rw [if_neg hstopped] at h
  rcases hclaim : Q.claimNext ⟨sessionId, false, s.yielded⟩ s.queue with ⟨error | _ | claim, q⟩ <;>
    rw [hclaim] at hshrinks
  · have hcall : call (Q.claimNext ⟨sessionId, false, s.yielded⟩) s =
        (.error error, { s with queue := q }) := by rw [call, hclaim]
    rw [Effect.bind_of_error hcall] at h
    cases h
    exact ⟨hshrinks, by rintro claim ⟨⟩⟩
  · have hcall : call (Q.claimNext ⟨sessionId, false, s.yielded⟩) s =
        (.ok none, { s with queue := q }) := by rw [call, hclaim]
    rw [Effect.bind_of_ok hcall] at h
    cases h
    exact ⟨hshrinks, by rintro claim ⟨⟩⟩
  · have hcall : call (Q.claimNext ⟨sessionId, false, s.yielded⟩) s =
        (.ok (some claim), { s with queue := q }) := by rw [call, hclaim]
    rw [Effect.bind_of_ok hcall] at h
    by_cases hafter : env.stoppedAfterClaim = true
    · simp only [hafter, if_true] at h
      have hreleased := (hQ.release claim.claimId none q).1
      rcases hrelease : Q.release sessionId claim.claimId none q with ⟨error | ⟨⟨⟩⟩, q'⟩ <;>
        rw [hrelease] at hreleased
      · have hcall' : call (Q.release sessionId claim.claimId none) { s with queue := q } =
          (.error error, { s with queue := q' }) := by simp only [call, hrelease]
        rw [Effect.bind_of_error hcall'] at h
        cases h
        exact ⟨hreleased.trans hshrinks, by rintro claim ⟨⟩⟩
      · have hcall' : call (Q.release sessionId claim.claimId none) { s with queue := q } =
          (.ok (), { s with queue := q' }) := by simp only [call, hrelease]
        rw [Effect.bind_of_ok hcall'] at h
        cases h
        exact ⟨hreleased.trans hshrinks, by rintro claim ⟨⟩⟩
    · simp only [hafter] at h
      obtain ⟨hsession, hmem, hnot, honly⟩ := hQ.claimed _ _ _ _ hclaim
      cases h
      refine ⟨hshrinks, fun claim hclaim => ?_⟩
      cases hclaim
      exact ⟨hsession, hmem, hnot, ⟨hshrinks, honly, rfl⟩⟩

/-- A dispatch that asks for another took an item that was pending and had not yielded, and removed it
or had it yield. -/
theorem dispatchNext_asks {again : Except ε Bool} {s s' : DispatchState σ}
    (h : dispatchNext Q env sessionId s = (again, s')) :
    ids s'.queue ⊆ ids s.queue ∧ (again = .ok true →
      ∃ itemId ∈ ids s.queue, itemId ∉ s.yielded ∧
        (s'.yielded = s.yielded ∧ itemId ∉ ids s'.queue ∨ s'.yielded = s.yielded ++ [itemId])) := by
  unfold dispatchNext at h
  rcases htaken : claimIfOpen Q env ⟨sessionId, false, s.yielded⟩ s with ⟨error | _ | claim, s₁⟩
  · obtain ⟨hids, -⟩ := claimIfOpen_within hQ htaken
    rw [Effect.bind_of_error htaken] at h
    cases h
    exact ⟨hids, by rintro ⟨⟩⟩
  · obtain ⟨hids, -⟩ := claimIfOpen_within hQ htaken
    rw [Effect.bind_of_ok htaken] at h
    cases h
    exact ⟨hids, fun h => by cases h⟩
  · obtain ⟨-, hclaim⟩ := claimIfOpen_within hQ htaken
    obtain ⟨hsession, hmem, hnot, hwithin⟩ := hclaim claim rfl
    rw [Effect.bind_of_ok htaken] at h
    have hasks := dispatchClaim_asks (hsession ▸ hQ) env true s₁ hwithin
    simp only [] at h
    rcases hdispatch : dispatchClaim Q env claim markRecovery true s₁ with ⟨error | attempt, s₂⟩ <;>
      rw [hdispatch] at hasks
    · rw [Effect.bind_of_error hdispatch] at h
      cases h
      exact ⟨hasks.1, by rintro ⟨⟩⟩
    · rw [Effect.bind_of_ok hdispatch] at h
      cases h
      refine ⟨hasks.1, fun hagain => ⟨claim.itemId, hmem, hnot, hasks.2 attempt rfl ?_⟩⟩
      exact Except.ok.inj hagain

theorem recoverBeforeClaim_shrinks {nowMs : ℤ} {r : Except ε Unit} {s s' : DispatchState σ}
    (h : recoverBeforeClaim Q sessionId nowMs s = (r, s')) :
    ids s'.queue ⊆ ids s.queue ∧ s'.yielded = s.yielded := by
  unfold recoverBeforeClaim at h
  by_cases hmarked : s.recoverBeforeNextClaim = true
  · rw [if_pos hmarked] at h
    have hshrinks := (hQ.recoverClaims nowMs s.queue).1
    rcases hm : call (Q.recoverClaims sessionId nowMs) s with ⟨error | ⟨⟨⟩⟩, s₁⟩
    · rw [Effect.bind_of_error hm] at h
      cases h
      obtain ⟨-, rfl⟩ := Prod.mk.inj hm
      exact ⟨hshrinks, rfl⟩
    · rw [Effect.bind_of_ok hm] at h
      cases h
      obtain ⟨-, rfl⟩ := Prod.mk.inj hm
      exact ⟨hshrinks, rfl⟩
  · rw [if_neg hmarked] at h
    cases h
    exact ⟨subset_rfl, rfl⟩

/-- A pass that asks for another, likewise. -/
theorem drainPass_asks {env : DrainEnvironment ε} {again : Except ε Bool} {s s' : DrainState σ}
    (h : drainPass Q sessionId env s = (again, s')) :
    s'.requestedWake = s.requestedWake ∧ s'.startedWake = s.requestedWake ∧
      ids s'.dispatch.queue ⊆ ids s.dispatch.queue ∧ (again = .ok true →
        ∃ itemId ∈ ids s.dispatch.queue, itemId ∉ s.started.yielded ∧
          (s'.dispatch.yielded = s.started.yielded ∧ itemId ∉ ids s'.dispatch.queue ∨
            s'.dispatch.yielded = s.started.yielded ++ [itemId])) := by
  have hrecovers : ∀ {r s₁}, recoverOpen Q sessionId env s.started = (r, s₁) →
      ids s₁.queue ⊆ ids s.dispatch.queue ∧ s₁.yielded = s.started.yielded := by
    intro r s₁ hm
    unfold recoverOpen at hm
    split_ifs at hm
    · cases hm
      exact ⟨subset_rfl, rfl⟩
    · exact recoverBeforeClaim_shrinks hQ hm
  unfold drainPass at h
  rcases hm : recoverOpen Q sessionId env s.started with ⟨error | ⟨⟨⟩⟩, s₁⟩
  · simp only [Effect.bind_of_error hm] at h
    cases h
    exact ⟨rfl, rfl, (hrecovers hm).1, by rintro ⟨⟩⟩
  · simp only [Effect.bind_of_ok hm] at h
    rcases hnext : dispatchNext Q env.dispatch sessionId s₁ with ⟨r, s₂⟩
    rw [hnext] at h
    cases h
    obtain ⟨hids, hyielded⟩ := hrecovers hm
    obtain ⟨hsub, hasks⟩ := dispatchNext_asks hQ hnext
    refine ⟨rfl, rfl, hsub.trans hids, fun hagain => ?_⟩
    obtain ⟨itemId, hmem, hnot, hdone⟩ := hasks hagain
    rw [hyielded] at hnot hdone
    exact ⟨itemId, hids hmem, hnot, hdone⟩

/-- The pending items that have not yielded. -/
def remaining (ids : σ → Finset String) (s : DrainState σ) : Finset String :=
  (ids s.dispatch.queue).filter fun itemId => itemId ∉ s.started.yielded

/-- So many passes are enough: each that is followed by another leaves fewer items. -/
theorem drainLoop_ends (envs : ℕ → DrainEnvironment ε) (passes : ℕ) :
    ∀ (next : ℕ) (s : DrainState σ), (remaining ids s).card < passes →
      (drainLoop Q sessionId envs passes next s).isSome = true := by
  induction passes with
  | zero => exact fun _ _ h => absurd h (Nat.not_lt_zero _)
  | succ passes ih =>
    intro next s hcard
    unfold drainLoop
    rcases hpass : drainPass Q sessionId (envs next) s with ⟨error | again, s'⟩
    · rfl
    obtain ⟨hrequested, hstarted, hids, hasks⟩ := drainPass_asks hQ hpass
    simp only []
    split_ifs with htest
    · refine ih _ _ (lt_of_lt_of_le ?_ (Nat.lt_succ_iff.1 hcard))
      have hnowake : ¬ s'.startedWake < s'.requestedWake := by omega
      have hyielded : s'.started.yielded = s'.dispatch.yielded := by
        simp [DrainState.started, hnowake]
      simp only [hnowake, decide_false, Bool.or_false, Bool.and_eq_true] at htest
      obtain ⟨itemId, hmem, hnot, hdone⟩ := hasks (by rw [htest.2])
      refine Finset.card_lt_card (Finset.ssubset_iff_of_subset ?_ |>.2 ⟨itemId, ?_, ?_⟩)
      · intro id hid
        obtain ⟨hid, hidNot⟩ := Finset.mem_filter.1 hid
        rw [hyielded] at hidNot
        refine Finset.mem_filter.2 ⟨hids hid, fun h => hidNot ?_⟩
        rcases hdone with ⟨hsame, -⟩ | hmore
        · rwa [hsame]
        · rw [hmore]
          exact List.mem_append_left _ h
      · exact Finset.mem_filter.2 ⟨hmem, hnot⟩
      · intro hin
        obtain ⟨hin, hinNot⟩ := Finset.mem_filter.1 hin
        rw [hyielded] at hinNot
        rcases hdone with ⟨-, hgone⟩ | hmore
        · exact hgone hin
        · rw [hmore] at hinNot
          exact hinNot (by simp)
    · rfl

end Pass

end

end Dispatcher

end Kinetick
