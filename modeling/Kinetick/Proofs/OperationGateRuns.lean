import Kinetick.Proofs.OperationGate

/-!
# What becomes of a gate's waiters

A promise that resolved stays so, nothing enters a Session that is leased or blocked, and a blocked
Session stays blocked until the gate releases it. So a drain waits for none but those that entered
before it, while its lease is held.
-/

namespace Kinetick

namespace SessionOperationGate

variable {g g' : SessionOperationGate} {s : String} {k : ℕ}

/-- The Session lets operations in. -/
def Open (g : SessionOperationGate) (s : String) : Prop :=
  ∀ k, g.states s = some k → (g.objects k).deleting = false ∧ (g.objects k).mutation = none

/-- What a step keeps of promises, permits and leases. -/
structure Grows (g g' : SessionOperationGate) : Prop where
  promised : g.promised ≤ g'.promised
  resolved : ∀ p, p < g.promised → g.resolved p = true → g'.resolved p = true
  permits : ∀ (i : ℕ) (permit : OperationPermit), g'.permits[i]? = some permit →
    permit.released = false → g.permits[i]? = some permit ∨ g.Open permit.sessionId
  leases : ∀ (i : ℕ) (lease : SessionExclusiveOperationLease), g'.leases[i]? = some lease →
    lease.released = false →
      g.leases[i]? = some lease ∨ g.leases.length ≤ i ∧ g.Open lease.sessionId
  kept : ∀ (i : ℕ) (lease : SessionExclusiveOperationLease), g.leases[i]? = some lease →
    ∃ lease', g'.leases[i]? = some lease' ∧ lease'.sessionId = lease.sessionId ∧
      lease'.drained = lease.drained

/-- What a step keeps that takes and releases nothing. -/
structure Promises (g g' : SessionOperationGate) : Prop where
  promised : g.promised ≤ g'.promised
  resolved : ∀ p, p < g.promised → g.resolved p = true → g'.resolved p = true
  permits : g'.permits = g.permits
  leases : g'.leases = g.leases

theorem Promises.refl (g : SessionOperationGate) : Promises g g :=
  ⟨Nat.le_refl _, fun _ _ h => h, rfl, rfl⟩

theorem Promises.grows (h : Promises g g') : Grows g g' :=
  ⟨h.promised, h.resolved, fun _ _ hi _ => .inl (h.permits ▸ hi),
    fun _ _ hi _ => .inl (h.leases ▸ hi), fun _ lease hi => ⟨lease, h.leases ▸ hi, rfl, rfl⟩⟩

theorem Grows.refl (g : SessionOperationGate) : Grows g g := (Promises.refl g).grows

theorem Grows.trans_promises {g₁ : SessionOperationGate} (h : Grows g g₁) (h' : Promises g₁ g') :
    Grows g g' := by
  refine ⟨Nat.le_trans h.promised h'.promised, fun p hp hres => ?_, fun i permit hi => ?_,
    fun i lease hi => ?_, fun i lease hi => ?_⟩
  · exact h'.resolved p (Nat.lt_of_lt_of_le hp h.promised) (h.resolved p hp hres)
  · exact h.permits i permit (h'.permits ▸ hi)
  · exact h.leases i lease (h'.leases ▸ hi)
  · rw [h'.leases]
    exact h.kept i lease hi

/-- The element a list gained is the one that was added. -/
theorem getElem?_append_singleton {α : Type*} {xs : List α} {x y : α} {i : ℕ}
    (h : (xs ++ [x])[i]? = some y) : xs[i]? = some y ∨ i = xs.length ∧ y = x := by
  rw [List.getElem?_append] at h
  split_ifs at h with hlt
  · exact .inl h
  · rw [List.getElem?_singleton] at h
    split_ifs at h with hzero
    refine .inr ⟨by omega, ?_⟩
    cases h
    rfl

/-- A settlement of a record leaves the others, and the Sessions of others. -/
theorem settleState_frame {t : String} {k' : ℕ} (hs : g.states s = some k) (hne : k' ≠ k) :
    (g.settleState t k').states s = some k ∧ (g.settleState t k').objects k = g.objects k := by
  have hobject : (g.settleDrains k').objects k = g.objects k := by
    rw [settleDrains_object, if_neg (Ne.symm hne)]
  have hstates : (g.settleDrains k').states = g.states := by rw [settleDrains_eq]
  unfold settleState
  simp only [hstates]
  split_ifs with hidle
  · obtain ⟨-, -, -, ht⟩ := hidle
    have hts : s ≠ t := by
      rintro rfl
      rw [hs] at ht
      exact hne (Option.some.inj ht).symm
    refine ⟨?_, hobject⟩
    simpa [setState, hstates, hts] using hs
  · exact ⟨hstates ▸ hs, hobject⟩

theorem settleState_resolved (g : SessionOperationGate) (t : String) (k p : ℕ) :
    (g.settleState t k).resolved p = (g.resolved p || decide (Resolves (g.objects k) p)) := by
  simp only [settleState, settleDrains_eq]
  split_ifs
  · rfl
  · rfl

theorem settleState_promises (g : SessionOperationGate) (t : String) (k : ℕ) :
    Promises g (g.settleState t k) := by
  have hresolved : ∀ p, p < g.promised → g.resolved p = true →
      (g.settleState t k).resolved p = true := by
    intro p _ hp
    rw [settleState_resolved, hp, Bool.true_or]
  simp only [settleState, settleDrains_eq] at hresolved ⊢
  split_ifs at hresolved ⊢
  · exact ⟨Nat.le_refl _, hresolved, rfl, rfl⟩
  · exact ⟨Nat.le_refl _, hresolved, rfl, rfl⟩

/-- A blocked record that is settled stays the Session's. -/
theorem settleState_blocked (hs : g.states s = some k) (hdeleting : (g.objects k).deleting = true) :
    (g.settleState s k).states s = some k ∧
      (g.settleState s k).objects k = settledRecord (g.objects k) := by
  have hdeletes := (settleDrains_counts g k k).2.1
  unfold settleState
  rw [if_neg (by rw [hdeletes, hdeleting]; simp)]
  constructor
  · rw [settleDrains_eq]
    exact hs
  · rw [settleDrains_object, if_pos rfl]

/-! ## What every step keeps -/

theorem promises_made (g : SessionOperationGate) (resolved : Bool) : Promises g { g with
    resolved := Function.update g.resolved g.promised resolved, promised := g.promised + 1 } :=
  ⟨Nat.le_succ _, fun p hp hres => by simpa [Nat.ne_of_lt hp] using hres, rfl, rfl⟩

theorem sharedDrain_promises (g : SessionOperationGate) (k : ℕ) : Promises g (g.sharedDrain k).2 := by
  unfold SessionOperationGate.sharedDrain
  split_ifs
  · exact promises_made g true
  rcases hdrain : (g.objects k).sharedDrain with _ | p
  · exact { promises_made g false with }
  · exact .refl g

theorem fullDrain_promises (g : SessionOperationGate) (k : ℕ) : Promises g (g.fullDrain k).2 := by
  unfold SessionOperationGate.fullDrain
  rcases hdrain : (g.objects k).fullDrain with _ | p
  · exact { promises_made g false with }
  · exact .refl g

theorem tryEnter_grows (h : Invariant g) (s : String) : Grows g (g.tryEnter s).1 := by
  have hopened := h.stateOf s
  unfold SessionOperationGate.tryEnter
  generalize g.stateOf s = opened at hopened ⊢
  obtain ⟨k, next⟩ := opened
  obtain ⟨g', hg'⟩ : ∃ g', next.setState s (some k) = g' := ⟨_, rfl⟩
  have hobject : next.objects = g'.objects := by rw [← hg']; rfl
  simp only [hg', hobject] at hopened ⊢
  obtain ⟨-, -, -, -, hpermits, hleases, ⟨hpromised, hresolved⟩, -, hold⟩ := hopened
  split_ifs with hrefused
  · exact .refl g
  simp only [not_or, not_not, Bool.not_eq_true] at hrefused
  have hopen : g.Open s := by
    intro k' hk'
    obtain ⟨rfl, rfl⟩ := hold k' hk'
    exact hrefused
  refine ⟨Nat.le_of_eq hpromised.symm, fun p _ hp => ?_, fun i permit hi hnot => ?_,
    fun i lease hi _ => .inl (hleases ▸ hi), fun i lease hi => ⟨lease, ?_, rfl, rfl⟩⟩
  · change g'.resolved p = true
    rwa [hresolved]
  · change (g'.permits ++ [_])[i]? = some permit at hi
    rw [hpermits] at hi
    rcases getElem?_append_singleton hi with hi | ⟨-, rfl⟩
    · exact .inl hi
    · exact .inr hopen
  · change g'.leases[i]? = some lease
    rwa [hleases]

theorem releasePermit_grows (g : SessionOperationGate) (i : ℕ) : Grows g (g.releasePermit i).1 := by
  unfold SessionOperationGate.releasePermit
  rcases hi : g.permits[i]? with _ | permit
  · exact .refl g
  dsimp only
  split_ifs with hreleased
  · exact .refl g
  refine .trans_promises ?_ (settleState_promises _ _ _)
  refine ⟨Nat.le_refl _, fun _ _ h => h, fun j a hj hnot => .inl ?_, fun _ _ hj _ => .inl hj,
    fun _ lease hj => ⟨lease, hj, rfl, rfl⟩⟩
  change (g.permits.set i _)[j]? = some a at hj
  rw [List.getElem?_set] at hj
  split_ifs at hj
  · cases hj
    cases hnot
  · exact hj

theorem tryAcquireExclusive_grows (h : Invariant g) (s : String) :
    Grows g (g.tryAcquireExclusive s).1 := by
  have hopened := h.stateOf s
  unfold SessionOperationGate.tryAcquireExclusive
  generalize g.stateOf s = opened at hopened ⊢
  obtain ⟨k, next⟩ := opened
  have hcommute : ∀ o, (next.setObject k o).setState s (some k) =
      (next.setState s (some k)).setObject k o := fun o => rfl
  obtain ⟨g', hg'⟩ : ∃ g', next.setState s (some k) = g' := ⟨_, rfl⟩
  have hobject : next.objects = g'.objects := by rw [← hg']; rfl
  simp only [hcommute, hg', hobject] at hopened ⊢
  obtain ⟨-, -, -, -, hpermits, hleases, ⟨hpromised, hresolved⟩, -, hold⟩ := hopened
  split_ifs with hrefused
  · exact .refl g
  simp only [not_or, not_not, Bool.not_eq_true] at hrefused
  have hopen : g.Open s := by
    intro k' hk'
    obtain ⟨rfl, rfl⟩ := hold k' hk'
    exact hrefused
  have hgrows := sharedDrain_promises
    (g'.setObject k { g'.objects k with mutation := some g.leases.length }) k
  generalize (g'.setObject k { g'.objects k with mutation := some g.leases.length }).sharedDrain k
    = drained at hgrows ⊢
  obtain ⟨p, g₁⟩ := drained
  obtain ⟨hpromised₁, hresolved₁, hpermits₁, hleases₁⟩ := hgrows
  have hleases' : g₁.leases = g.leases := hleases₁.trans hleases
  refine ⟨Nat.le_trans (Nat.le_of_eq hpromised.symm) hpromised₁, fun q hq hres => ?_,
    fun i permit hi _ => .inl ?_, fun i lease hi hnot => ?_, fun i lease hi => ⟨lease, ?_, rfl, rfl⟩⟩
  · refine hresolved₁ q (hpromised.symm ▸ hq) ?_
    change g'.resolved q = true
    rwa [hresolved]
  · rw [← hpermits, ← hi]
    exact congrArg (·[i]?) hpermits₁.symm
  · change (g₁.leases ++ [_])[i]? = some lease at hi
    rw [hleases'] at hi
    rcases getElem?_append_singleton hi with hi | ⟨hlength, rfl⟩
    · exact .inl hi
    · exact .inr ⟨Nat.le_of_eq hlength.symm, hopen⟩
  · change (g₁.leases ++ [_])[i]? = some lease
    rw [hleases', List.getElem?_append_left (List.getElem?_eq_some_iff.1 hi).1, hi]

theorem lease_released_grows {i : ℕ} {lease : SessionExclusiveOperationLease}
    (hi : g.leases[i]? = some lease) :
    Grows g { g with leases := g.leases.set i { lease with released := true } } := by
  refine ⟨Nat.le_refl _, fun _ _ h => h, fun _ _ hj _ => .inl hj, fun j a hj hnot => .inl ?_,
    fun j a hj => ?_⟩
  · rw [List.getElem?_set] at hj
    split_ifs at hj
    · cases hj
      cases hnot
    · exact hj
  · rw [List.getElem?_set]
    split_ifs with heq hlt
    · subst heq
      rw [hi] at hj
      cases hj
      exact ⟨_, rfl, rfl, rfl⟩
    · subst heq
      exact absurd (List.getElem?_eq_some_iff.1 hi).1 hlt
    · exact ⟨a, hj, rfl, rfl⟩

theorem releaseLease_grows (g : SessionOperationGate) (i : ℕ) : Grows g (g.releaseLease i).1 := by
  unfold SessionOperationGate.releaseLease
  rcases hi : g.leases[i]? with _ | lease
  · exact .refl g
  dsimp only
  split_ifs with hreleased
  · exact .refl g
  · exact lease_released_grows hi
  · refine .trans_promises ?_ (settleState_promises _ _ _)
    exact { lease_released_grows hi with }

theorem block_grows (h : Invariant g) (s : String) : Grows g (g.block s).1 := by
  have hopened := h.stateOf s
  unfold SessionOperationGate.block
  generalize g.stateOf s = opened at hopened ⊢
  obtain ⟨k, next⟩ := opened
  obtain ⟨g', hg'⟩ : ∃ g', next.setState s (some k) = g' := ⟨_, rfl⟩
  have hobject : next.objects = g'.objects := by rw [← hg']; rfl
  simp only [hg', hobject] at hopened ⊢
  obtain ⟨-, -, -, -, hpermits, hleases, ⟨hpromised, hresolved⟩, -, -⟩ := hopened
  have hfirst : Promises g (g'.setObject k { g'.objects k with deleting := true }) :=
    ⟨Nat.le_of_eq hpromised.symm, fun p _ hp => (congrFun hresolved p).trans hp, hpermits, hleases⟩
  split_ifs
  · exact hfirst.grows.trans_promises (promises_made _ true)
  · exact hfirst.grows.trans_promises (fullDrain_promises _ k)

theorem release_grows (g : SessionOperationGate) (s : String) : Grows g (g.release s).1 := by
  unfold SessionOperationGate.release
  rcases hs : g.states s with _ | k
  · exact .refl g
  dsimp only
  split_ifs with hheld
  · exact .refl g
  · refine .trans_promises ?_ (settleState_promises _ s k)
    exact { Grows.refl g with }

theorem grows_step (h : Invariant g) (e : OperationGateEvent) :
    Grows g (operationGateSystem.step g e).1 := by
  cases e with
  | tryEnter s => exact tryEnter_grows h s
  | releasePermit i => exact releasePermit_grows g i
  | tryAcquireExclusive s => exact tryAcquireExclusive_grows h s
  | releaseLease i => exact releaseLease_grows g i
  | block s => exact block_grows h s
  | release s => exact release_grows g s

/-! ## A blocked record -/

/-- What a step keeps of a blocked Session's record: it stays the Session's and blocked, nothing enters
it, and it is waited for until it is drained in full. -/
structure StaysBlocked (g : SessionOperationGate) (s : String) (k : ℕ) (g' : SessionOperationGate) :
    Prop where
  states : g'.states s = some k
  deleting : (g'.objects k).deleting = true
  active : (g.objects k).active = 0 → (g'.objects k).active = 0
  mutation : (g.objects k).mutation = none → (g'.objects k).mutation = none
  waits : ∀ p, (g.objects k).drain true = some p → (g'.objects k).drain true = some p ∨
    g'.resolved p = true ∧ (g'.objects k).active = 0 ∧ (g'.objects k).mutation = none

theorem StaysBlocked.of_frame (hdeleting : (g.objects k).deleting = true)
    (h : g'.states s = some k ∧ g'.objects k = g.objects k) : StaysBlocked g s k g' := by
  obtain ⟨hstates, hobject⟩ := h
  refine ⟨hstates, ?_, ?_, ?_, ?_⟩ <;> rw [hobject]
  · exact hdeleting
  · exact id
  · exact id
  · exact fun p hp => .inl hp

/-- The record of another Session is written in a place of its own. -/
theorem Opened.frame {t : String} {k' : ℕ} (h : Opened g t k' g') (hs : g.states s = some k)
    (hne : t ≠ s) : g'.states s = some k ∧ k' ≠ k ∧ g'.objects k = g.objects k := by
  obtain ⟨hstates, hk, hobject⟩ := h.others s k (Ne.symm hne) hs
  exact ⟨hstates, Ne.symm hk, hobject⟩

/-- A count of the blocked record that goes down, and a settlement of it. -/
theorem StaysBlocked.settled (hs : g.states s = some k) {o : SessionOperationState}
    (hdeleting : o.deleting = true) (hactive : (g.objects k).active = 0 → o.active = 0)
    (hmutation : (g.objects k).mutation = none → o.mutation = none)
    (hdrain : o.drain true = (g.objects k).drain true)
    {g₁ : SessionOperationGate} (hstates : g₁.states = g.states) (hself : g₁.objects k = o) :
    StaysBlocked g s k (g₁.settleState s k) := by
  obtain ⟨hstay, hobject⟩ := settleState_blocked (g := g₁) (hstates ▸ hs) (hself.symm ▸ hdeleting)
  rw [hself] at hobject
  refine ⟨hstay, ?_, ?_, ?_, fun p hp => ?_⟩ <;> rw [hobject]
  · exact hdeleting
  · exact hactive
  · exact hmutation
  · rw [drain_settledRecord]
    split_ifs with hdue
    · refine .inr ⟨?_, hdue.1, hdue.2 rfl⟩
      rw [settleState_resolved, hself, Bool.or_eq_true, decide_eq_true_eq]
      exact .inr (.inr ⟨hdue, hdrain.trans hp⟩)
    · exact .inl (hdrain.trans hp)

theorem tryEnter_staysBlocked (h : Invariant g) (hs : g.states s = some k)
    (hdeleting : (g.objects k).deleting = true) (t : String) :
    StaysBlocked g s k (g.tryEnter t).1 := by
  by_cases hts : t = s
  · rw [hts, tryEnter_refused hs (.inl hdeleting)]
    exact .of_frame hdeleting ⟨hs, rfl⟩
  have hopened := h.stateOf t
  unfold SessionOperationGate.tryEnter
  generalize g.stateOf t = opened at hopened ⊢
  obtain ⟨k', next⟩ := opened
  obtain ⟨g', hg'⟩ : ∃ g', next.setState t (some k') = g' := ⟨_, rfl⟩
  have hobject : next.objects = g'.objects := by rw [← hg']; rfl
  simp only [hg', hobject] at hopened ⊢
  obtain ⟨hstates, hne, hkept⟩ := hopened.frame hs hts
  split_ifs
  · exact .of_frame hdeleting ⟨hs, rfl⟩
  · exact .of_frame hdeleting ⟨hstates, (setObject_of_ne (Ne.symm hne) _).trans hkept⟩

theorem releasePermit_staysBlocked (h : Invariant g) (hs : g.states s = some k)
    (hdeleting : (g.objects k).deleting = true) (i : ℕ) :
    StaysBlocked g s k (g.releasePermit i).1 := by
  unfold SessionOperationGate.releasePermit
  rcases hi : g.permits[i]? with _ | permit
  · exact .of_frame hdeleting ⟨hs, rfl⟩
  dsimp only
  split_ifs with hreleased
  · exact .of_frame hdeleting ⟨hs, rfl⟩
  rw [Bool.not_eq_true] at hreleased
  have hstate := h.permits permit (List.mem_of_getElem? hi) hreleased
  by_cases hk : permit.state = k
  · subst hk
    rw [h.injective _ _ _ hstate hs]
    refine .settled hs
      (o := { g.objects permit.state with active := (g.objects permit.state).active - 1 })
      hdeleting (fun hactive => ?_) id rfl rfl (setObject_self ..)
    dsimp only
    rw [hactive]
  · refine .of_frame hdeleting ?_
    obtain ⟨hstates, hobject⟩ := settleState_frame (t := permit.sessionId) (g := setObject
      { g with permits := g.permits.set i { permit with released := true } } permit.state
      { g.objects permit.state with active := (g.objects permit.state).active - 1 }) hs hk
    exact ⟨hstates, hobject.trans (setObject_of_ne (Ne.symm hk) _)⟩

theorem releaseLease_staysBlocked (h : Invariant g) (hs : g.states s = some k)
    (hdeleting : (g.objects k).deleting = true) (i : ℕ) :
    StaysBlocked g s k (g.releaseLease i).1 := by
  unfold SessionOperationGate.releaseLease
  rcases hi : g.leases[i]? with _ | lease
  · exact .of_frame hdeleting ⟨hs, rfl⟩
  dsimp only
  split_ifs with hreleased
  · exact .of_frame hdeleting ⟨hs, rfl⟩
  · exact .of_frame hdeleting ⟨hs, rfl⟩
  rw [Bool.not_eq_true] at hreleased
  have hstate := h.leases lease (List.mem_of_getElem? hi) hreleased
  by_cases hk : lease.state = k
  · subst hk
    rw [h.injective _ _ _ hstate hs]
    exact .settled hs (o := { g.objects lease.state with mutation := none }) hdeleting id
      (fun _ => rfl) rfl rfl (setObject_self ..)
  · refine .of_frame hdeleting ?_
    obtain ⟨hstates, hobject⟩ := settleState_frame (t := lease.sessionId) (g := setObject
      { g with leases := g.leases.set i { lease with released := true } } lease.state
      { g.objects lease.state with mutation := none }) hs hk
    exact ⟨hstates, hobject.trans (setObject_of_ne (Ne.symm hk) _)⟩

/-- A drain of another record's shared operations leaves the record. -/
theorem sharedDrain_frame {k' : ℕ} (hs : g.states s = some k) (hne : k ≠ k') :
    (g.sharedDrain k').2.states s = some k ∧ (g.sharedDrain k').2.objects k = g.objects k := by
  unfold SessionOperationGate.sharedDrain
  split_ifs
  · exact ⟨hs, rfl⟩
  rcases hdrain : (g.objects k').sharedDrain with _ | p
  · exact ⟨hs, setObject_of_ne hne _⟩
  · exact ⟨hs, rfl⟩

theorem tryAcquireExclusive_staysBlocked (h : Invariant g) (hs : g.states s = some k)
    (hdeleting : (g.objects k).deleting = true) (t : String) :
    StaysBlocked g s k (g.tryAcquireExclusive t).1 := by
  by_cases hts : t = s
  · rw [hts, tryAcquireExclusive_refused hs (.inl hdeleting)]
    exact .of_frame hdeleting ⟨hs, rfl⟩
  have hopened := h.stateOf t
  unfold SessionOperationGate.tryAcquireExclusive
  generalize g.stateOf t = opened at hopened ⊢
  obtain ⟨k', next⟩ := opened
  have hcommute : ∀ o, (next.setObject k' o).setState t (some k') =
      (next.setState t (some k')).setObject k' o := fun o => rfl
  obtain ⟨g', hg'⟩ : ∃ g', next.setState t (some k') = g' := ⟨_, rfl⟩
  have hobject : next.objects = g'.objects := by rw [← hg']; rfl
  simp only [hcommute, hg', hobject] at hopened ⊢
  obtain ⟨hstates, hne, hkept⟩ := hopened.frame hs hts
  split_ifs
  · exact .of_frame hdeleting ⟨hs, rfl⟩
  obtain ⟨hstates', hkept'⟩ := sharedDrain_frame
    (g := g'.setObject k' { g'.objects k' with mutation := some g.leases.length }) hstates
    (Ne.symm hne)
  exact .of_frame hdeleting ⟨hstates', hkept'.trans ((setObject_of_ne (Ne.symm hne) _).trans hkept)⟩

/-- A full drain leaves the record but for what is awaited, and what was awaited it awaits. -/
theorem fullDrain_record (g : SessionOperationGate) (k k' : ℕ) :
    (g.fullDrain k').2.states = g.states ∧
      (k ≠ k' → (g.fullDrain k').2.objects k = g.objects k) ∧
      ((g.fullDrain k').2.objects k').active = (g.objects k').active ∧
      ((g.fullDrain k').2.objects k').mutation = (g.objects k').mutation ∧
      ((g.fullDrain k').2.objects k').deleting = (g.objects k').deleting ∧
      ((g.fullDrain k').2.objects k').drain true = some (g.fullDrain k').1 ∧
      ∀ p, (g.objects k').drain true = some p → (g.fullDrain k').1 = p := by
  unfold SessionOperationGate.fullDrain
  rcases hdrain : (g.objects k').fullDrain with _ | p
  · have hnone : (g.objects k').drain true = none := hdrain
    simp only [deferred, setObject_self, hnone]
    exact ⟨rfl, fun hne => setObject_of_ne hne _, trivial, trivial, trivial, rfl,
      fun p hp => by cases hp⟩
  · have hsome : (g.objects k').drain true = some p := hdrain
    refine ⟨rfl, fun _ => rfl, rfl, rfl, rfl, hsome, fun q hq => ?_⟩
    exact Option.some.inj (hsome.symm.trans hq)

theorem block_staysBlocked (h : Invariant g) (hs : g.states s = some k)
    (hdeleting : (g.objects k).deleting = true) (t : String) :
    StaysBlocked g s k (g.block t).1 := by
  have hopened := h.stateOf t
  unfold SessionOperationGate.block
  generalize g.stateOf t = opened at hopened ⊢
  obtain ⟨k', next⟩ := opened
  obtain ⟨g', hg'⟩ : ∃ g', next.setState t (some k') = g' := ⟨_, rfl⟩
  have hobject : next.objects = g'.objects := by rw [← hg']; rfl
  simp only [hg', hobject] at hopened ⊢
  by_cases hts : t = s
  · subst hts
    obtain ⟨rfl, hsame⟩ := hopened.old k hs
    subst hsame
    obtain ⟨o, ho⟩ : ∃ o, { g'.objects k with deleting := true } = o := ⟨_, rfl⟩
    have hself : o = g'.objects k := by
      rw [← ho, ← hdeleting]
    rw [ho, hself]
    split_ifs with hidle
    · exact .of_frame hdeleting ⟨hs, setObject_self ..⟩
    · obtain ⟨hstates, -, hactive, hmutation, hdeletes, hdrain, hold⟩ :=
        fullDrain_record (g'.setObject k (g'.objects k)) k k
      rw [setObject_self] at hactive hmutation hdeletes hold
      refine ⟨(congrFun hstates t).trans hs, hdeletes.trans hdeleting, fun h => hactive.trans h,
        fun h => hmutation.trans h, fun p hp => .inl ?_⟩
      rw [hdrain, hold p hp]
  · obtain ⟨hstates, hne, hkept⟩ := hopened.frame hs hts
    have hkept' := (setObject_of_ne (Ne.symm hne) { g'.objects k' with deleting := true }).trans hkept
    split_ifs
    · exact .of_frame hdeleting ⟨hstates, hkept'⟩
    · obtain ⟨hstates', hobjects, -⟩ :=
        fullDrain_record (g'.setObject k' { g'.objects k' with deleting := true }) k k'
      exact .of_frame hdeleting
        ⟨(congrFun hstates' s).trans hstates, (hobjects (Ne.symm hne)).trans hkept'⟩

theorem release_staysBlocked (h : Invariant g) (hs : g.states s = some k)
    (hdeleting : (g.objects k).deleting = true) {t : String}
    (hnot : ¬ Unblocks s g (.release t)) : StaysBlocked g s k (g.release t).1 := by
  have hanswer : t = s → (g.release t).2 ≠ .done := by
    rintro rfl hdone
    exact hnot ⟨rfl, hdone⟩
  unfold SessionOperationGate.release at hanswer ⊢
  rcases ht : g.states t with _ | k'
  · exact .of_frame hdeleting ⟨hs, rfl⟩
  rw [ht] at hanswer
  dsimp only at hanswer ⊢
  split_ifs at hanswer ⊢
  · exact .of_frame hdeleting ⟨hs, rfl⟩
  have hts : t ≠ s := fun hts => hanswer hts rfl
  have hne : k' ≠ k := by
    rintro rfl
    exact hts (h.injective t s k' ht hs)
  obtain ⟨hstates, hobject⟩ := settleState_frame (t := t) (g := setObject g k'
    { g.objects k' with deleting := false }) hs hne
  exact .of_frame hdeleting ⟨hstates, hobject.trans (setObject_of_ne (Ne.symm hne) _)⟩

/-- A blocked Session stays blocked until a release of the gate goes through. -/
theorem staysBlocked_step (h : Invariant g) (hs : g.states s = some k)
    (hdeleting : (g.objects k).deleting = true) {e : OperationGateEvent} (hnot : ¬ Unblocks s g e) :
    StaysBlocked g s k (operationGateSystem.step g e).1 := by
  cases e with
  | tryEnter t => exact tryEnter_staysBlocked h hs hdeleting t
  | releasePermit i => exact releasePermit_staysBlocked h hs hdeleting i
  | tryAcquireExclusive t => exact tryAcquireExclusive_staysBlocked h hs hdeleting t
  | releaseLease i => exact releaseLease_staysBlocked h hs hdeleting i
  | block t => exact block_staysBlocked h hs hdeleting t
  | release t => exact release_staysBlocked h hs hdeleting hnot

end SessionOperationGate

end Kinetick
