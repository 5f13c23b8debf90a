import Mathlib.Data.List.Basic
import Kinetick.Turn.OperationGate

/-!
# The gate of a Session's operations is a lock

The record of a Session counts its permits and names its lease, and a promise of it is pending exactly
while the record waits for it. A settlement resolves the waiters whose condition became true and drops
a record that is idle, so the records of the Sessions are those that are active, blocked or leased.
-/

namespace Kinetick

/-- What the record waits for: to be drained of the shared operations, or in full. -/
def SessionOperationState.drain (o : SessionOperationState) : (full : Bool) → Option ℕ
  | false => o.sharedDrain
  | true => o.fullDrain

namespace SessionOperationGate

variable {g : SessionOperationGate} {s : String} {k : ℕ}

/-! ## The invariant -/

/-- A permit of the record that is not released. -/
def holds (k : ℕ) (permit : OperationPermit) : Bool := !permit.released && permit.state = k

/-- The records agree with the permits, leases and promises, settled or not. -/
structure Kept (g : SessionOperationGate) : Prop where
  injective : ∀ s t k, g.states s = some k → g.states t = some k → s = t
  made : ∀ s k, g.states s = some k → k < g.made
  permits : ∀ permit ∈ g.permits, permit.released = false →
    g.states permit.sessionId = some permit.state
  leases : ∀ lease ∈ g.leases, lease.released = false →
    g.states lease.sessionId = some lease.state
  active : ∀ k, (g.objects k).active = g.permits.countP (holds k)
  mutation : ∀ k i, (g.objects k).mutation = some i ↔
    ∃ lease, g.leases[i]? = some lease ∧ lease.released = false ∧ lease.state = k
  pending : ∀ k full p, (g.objects k).drain full = some p → p < g.promised ∧ g.resolved p = false
  unique : ∀ k k' full full' p, (g.objects k).drain full = some p →
    (g.objects k').drain full' = some p → k = k' ∧ full = full'
  deleting : ∀ k p, (g.objects k).drain true = some p → (g.objects k).deleting = true
  drained : ∀ lease ∈ g.leases, lease.drained < g.promised ∧
    (g.resolved lease.drained = false → (g.objects lease.state).drain false = some lease.drained ∧
      g.states lease.sessionId = some lease.state)
  quiet : ∀ lease ∈ g.leases, lease.released = false → g.resolved lease.drained = true →
    (g.objects lease.state).active = 0

/-- What the record waits for is so. -/
def Due (o : SessionOperationState) (full : Bool) : Prop :=
  o.active = 0 ∧ (full = true → o.mutation = none)

instance (o : SessionOperationState) (full : Bool) : Decidable (Due o full) :=
  inferInstanceAs (Decidable (_ ∧ _))

def SettledAt (g : SessionOperationGate) (k : ℕ) : Prop :=
  ∀ full p, (g.objects k).drain full = some p → ¬ Due (g.objects k) full

def BusyAt (g : SessionOperationGate) (k : ℕ) : Prop :=
  (g.objects k).active ≠ 0 ∨ (g.objects k).deleting = true ∨ (g.objects k).mutation ≠ none

structure Invariant (g : SessionOperationGate) : Prop extends Kept g where
  settled : ∀ k, SettledAt g k
  busy : ∀ s k, g.states s = some k → BusyAt g k

/-! ## Settlement -/

section Settlement

variable (g k)

theorem resolve_eq (drain : Option ℕ) : g.resolve drain =
    { g with resolved := fun p => g.resolved p || decide (drain = some p) } := by
  rcases drain with _ | q
  · simp [resolve]
  · have hresolved : Function.update g.resolved q true =
        fun p => g.resolved p || decide (some q = some p) := by
      funext p
      by_cases h : p = q
      · simp [h]
      · simp [h, Ne.symm h]
    simp only [resolve, hresolved]

/-- The record that waits for nothing that is so. -/
def settledRecord (o : SessionOperationState) : SessionOperationState :=
  { o with
    sharedDrain := if Due o false then none else o.sharedDrain
    fullDrain := if Due o true then none else o.fullDrain }

theorem drain_settledRecord (o : SessionOperationState) (full : Bool) :
    (settledRecord o).drain full = if Due o full then none else o.drain full := by
  cases full <;> rfl

/-- The promises a settlement of the record resolves. -/
def Resolves (o : SessionOperationState) (p : ℕ) : Prop :=
  Due o false ∧ o.drain false = some p ∨ Due o true ∧ o.drain true = some p

instance (o : SessionOperationState) (p : ℕ) : Decidable (Resolves o p) :=
  inferInstanceAs (Decidable (_ ∨ _))

theorem resolves_iff {o : SessionOperationState} {p : ℕ} :
    Resolves o p ↔ ∃ full, Due o full ∧ o.drain full = some p := by
  simp [Resolves]

theorem settleDrains_eq : g.settleDrains k = { g with
    objects := Function.update g.objects k (settledRecord (g.objects k))
    resolved := fun p => g.resolved p || decide (Resolves (g.objects k) p) } := by
  simp only [settleDrains, resolve_eq, setObject]
  split_ifs with hactive hmutation
  · simp [settledRecord, Resolves, Due, SessionOperationState.drain, hactive, hmutation, Bool.or_assoc]
  · simp [settledRecord, Resolves, Due, SessionOperationState.drain, hactive, hmutation]
  · simp [settledRecord, Resolves, Due, hactive]

theorem settleDrains_object (k' : ℕ) : (g.settleDrains k).objects k' =
    if k' = k then settledRecord (g.objects k) else g.objects k' := by
  rw [settleDrains_eq]
  simp only [Function.update_apply]

/-- A settlement changes only what a record waits for. -/
theorem settleDrains_counts (k' : ℕ) :
    ((g.settleDrains k).objects k').active = (g.objects k').active ∧
      ((g.settleDrains k).objects k').deleting = (g.objects k').deleting ∧
      ((g.settleDrains k).objects k').mutation = (g.objects k').mutation := by
  rw [settleDrains_object]
  split_ifs with hk
  · simp [hk, settledRecord]
  · simp

end Settlement

theorem drain_settleDrains {k' p : ℕ} {full : Bool}
    (h : ((g.settleDrains k).objects k').drain full = some p) :
    (g.objects k').drain full = some p ∧ (k' = k → ¬ Due (g.objects k) full) := by
  rw [settleDrains_object] at h
  split_ifs at h with hk
  · rw [drain_settledRecord] at h
    split_ifs at h with hdue
    rw [hk]
    exact ⟨h, fun _ => hdue⟩
  · exact ⟨h, fun h => absurd h hk⟩

theorem Kept.settleDrains (h : Kept g) (k : ℕ) : Kept (g.settleDrains k) := by
  have hresolved : ∀ p, (g.settleDrains k).resolved p =
      (g.resolved p || decide (Resolves (g.objects k) p)) := fun p => by rw [settleDrains_eq]
  have hcounts := settleDrains_counts g k
  refine ⟨?_, ?_, ?_, ?_, fun k' => ?_, fun k' i => ?_, fun k' full p hdrain => ?_,
    fun k' k'' full full' p hdrain hdrain' => ?_, fun k' p hfull => ?_, fun lease hlease => ?_,
    fun lease hlease hheld hdrained => ?_⟩
  · rw [settleDrains_eq]
    exact h.injective
  · rw [settleDrains_eq]
    exact h.made
  · rw [settleDrains_eq]
    exact h.permits
  · rw [settleDrains_eq]
    exact h.leases
  · rw [(hcounts k').1, h.active]
    rw [settleDrains_eq]
  · rw [(hcounts k').2.2, h.mutation]
    rw [settleDrains_eq]
  · obtain ⟨hold, hnot⟩ := drain_settleDrains hdrain
    obtain ⟨hlt, hpending⟩ := h.pending _ _ _ hold
    refine ⟨by rwa [settleDrains_eq], ?_⟩
    rw [hresolved, hpending, Bool.false_or, decide_eq_false_iff_not, resolves_iff]
    rintro ⟨full', hdue, hdrain'⟩
    obtain ⟨rfl, rfl⟩ := h.unique _ _ _ _ _ hold hdrain'
    exact hnot rfl hdue
  · exact h.unique _ _ _ _ _ (drain_settleDrains hdrain).1 (drain_settleDrains hdrain').1
  · rw [(hcounts k').2.1]
    exact h.deleting _ _ (drain_settleDrains hfull).1
  · rw [settleDrains_eq] at hlease ⊢
    obtain ⟨hlt, hpending⟩ := h.drained lease hlease
    refine ⟨hlt, fun hnot => ?_⟩
    simp only [Bool.or_eq_false_iff, decide_eq_false_iff_not, resolves_iff, not_exists, not_and] at hnot
    obtain ⟨hdrain, hstate⟩ := hpending hnot.1
    refine ⟨?_, hstate⟩
    simp only [Function.update_apply]
    split_ifs with hk
    · rw [drain_settledRecord, if_neg fun hdue => hnot.2 _ hdue (hk ▸ hdrain), ← hk, hdrain]
    · exact hdrain
  · rw [(hcounts lease.state).1]
    rw [hresolved, Bool.or_eq_true, decide_eq_true_eq, resolves_iff] at hdrained
    rw [settleDrains_eq] at hlease
    rcases hres : g.resolved lease.drained with _ | _
    · rw [hres] at hdrained
      obtain ⟨full, hdue, hdrain⟩ := hdrained.resolve_left (by simp)
      obtain ⟨rfl, -⟩ := h.unique _ _ _ _ _ ((h.drained lease hlease).2 hres).1 hdrain
      exact hdue.1
    · exact h.quiet lease hlease hheld hres

theorem settledAt_settleDrains (k' : ℕ) (h : k' ≠ k → SettledAt g k') :
    SettledAt (g.settleDrains k) k' := by
  intro full p hdrain hdue
  obtain ⟨hold, hnot⟩ := drain_settleDrains hdrain
  obtain ⟨hactive, -, hmutation⟩ := settleDrains_counts g k k'
  rw [Due, hactive, hmutation] at hdue
  by_cases hk : k' = k
  · exact hnot hk (hk ▸ hdue)
  · exact h hk full p hold hdue

theorem Kept.no_permit (h : Kept g) (hactive : (g.objects k).active = 0) {permit : OperationPermit}
    (hmem : permit ∈ g.permits) (hreleased : permit.released = false) : permit.state ≠ k := by
  rintro rfl
  rw [h.active, List.countP_eq_zero] at hactive
  exact hactive permit hmem (by simp [holds, hreleased])

theorem Kept.no_lease (h : Kept g) (hmutation : (g.objects k).mutation = none)
    {lease : SessionExclusiveOperationLease} (hmem : lease ∈ g.leases)
    (hreleased : lease.released = false) : lease.state ≠ k := by
  rintro rfl
  obtain ⟨i, hi⟩ := List.mem_iff_getElem?.1 hmem
  have hsome := (h.mutation lease.state i).2 ⟨lease, hi, hreleased, rfl⟩
  rw [hmutation] at hsome
  cases hsome

/-- An idle record that nothing waits for may be dropped. -/
theorem Kept.drop (h : Kept g) (hs : g.states s = some k) (hsettled : SettledAt g k)
    (hactive : (g.objects k).active = 0) (hmutation : (g.objects k).mutation = none) :
    Kept (g.setState s none) := by
  have hstates : ∀ t k', (g.setState s none).states t = some k' → g.states t = some k' := by
    intro t k' ht
    simp only [setState, Function.update_apply] at ht
    split_ifs at ht
    exact ht
  have hkeeps : ∀ t k', g.states t = some k' → k' ≠ k → (g.setState s none).states t = some k' := by
    intro t k' ht hne
    have hts : t ≠ s := by
      rintro rfl
      rw [hs] at ht
      exact hne (Option.some.inj ht).symm
    simpa [setState, hts] using ht
  refine ⟨fun t u k' ht hu => h.injective t u k' (hstates t k' ht) (hstates u k' hu),
    fun t k' ht => h.made t k' (hstates t k' ht), fun permit hmem hreleased => ?_,
    fun lease hmem hreleased => ?_, h.active, h.mutation, h.pending, h.unique, h.deleting,
    fun lease hmem => ?_, h.quiet⟩
  · exact hkeeps _ _ (h.permits permit hmem hreleased) (h.no_permit hactive hmem hreleased)
  · exact hkeeps _ _ (h.leases lease hmem hreleased) (h.no_lease hmutation hmem hreleased)
  · obtain ⟨hlt, hpending⟩ := h.drained lease hmem
    refine ⟨hlt, fun hnot => ?_⟩
    obtain ⟨hdrain, hstate⟩ := hpending hnot
    refine ⟨hdrain, hkeeps _ _ hstate ?_⟩
    rintro rfl
    exact hsettled false _ hdrain ⟨hactive, by simp⟩

/-- A settlement of the Session's record, once its counts are right, makes everything right. -/
theorem Kept.settleState (h : Kept g) (hs : g.states s = some k)
    (hsettled : ∀ k', k' ≠ k → SettledAt g k')
    (hbusy : ∀ t k', g.states t = some k' → k' ≠ k → BusyAt g k') :
    Invariant (g.settleState s k) := by
  have hkept := h.settleDrains k
  have hsettled' : ∀ k', SettledAt (g.settleDrains k) k' :=
    fun k' => settledAt_settleDrains k' (hsettled k')
  have hstates : (g.settleDrains k).states = g.states := by rw [settleDrains_eq]
  have hbusy' : ∀ k', BusyAt (g.settleDrains k) k' ↔ BusyAt g k' := by
    intro k'
    obtain ⟨hactive, hdeleting, hmutation⟩ := settleDrains_counts g k k'
    rw [BusyAt, hactive, hdeleting, hmutation, BusyAt]
  unfold SessionOperationGate.settleState
  simp only [hstates, hs, and_true]
  split_ifs with hidle
  · obtain ⟨hactive, hdeleting, hmutation⟩ := hidle
    refine ⟨hkept.drop (by rwa [hstates]) (hsettled' k) hactive hmutation, hsettled',
      fun t k' ht => (hbusy' k').2 (hbusy t k' ?_ ?_)⟩
    · simp only [setState, Function.update_apply, hstates] at ht
      split_ifs at ht
      exact ht
    · rintro rfl
      simp only [setState, Function.update_apply, hstates] at ht
      split_ifs at ht with hts
      exact hts (h.injective t s k' ht hs)
  · refine ⟨hkept, hsettled', fun t k' ht => (hbusy' k').2 ?_⟩
    rw [hstates] at ht
    by_cases hk : k' = k
    · subst hk
      rw [← hbusy']
      unfold BusyAt
      by_contra hnot
      simp only [not_or, not_not, Bool.not_eq_true] at hnot
      exact hidle hnot
    · exact hbusy t k' ht hk

/-! ## The operations -/

theorem Invariant.initial : Invariant .initial where
  injective s t k h := by cases h
  made s k h := by cases h
  permits permit h := by cases h
  leases lease h := by cases h
  active k := rfl
  mutation k i := by simp [SessionOperationGate.initial]
  pending k full p h := by cases full <;> cases h
  unique k k' full full' p h := by cases full <;> cases h
  deleting k p h := by cases h
  drained lease h := by cases h
  quiet lease h := by cases h
  settled k full p h := by cases full <;> cases h
  busy s k h := by cases h

/-- The record of a Session, made where there is none, in its place. -/
structure Opened (g : SessionOperationGate) (s : String) (k : ℕ) (g' : SessionOperationGate) :
    Prop where
  kept : Kept g'
  states : g'.states s = some k
  settled : ∀ k', SettledAt g' k'
  busy : ∀ t k', g'.states t = some k' → k' ≠ k → BusyAt g' k'
  permits : g'.permits = g.permits
  leases : g'.leases = g.leases
  promises : g'.promised = g.promised ∧ g'.resolved = g.resolved
  others : ∀ t k', t ≠ s → g.states t = some k' →
    g'.states t = some k' ∧ k' ≠ k ∧ g'.objects k' = g.objects k'
  old : ∀ k', g.states s = some k' → k' = k ∧ g' = g

theorem Invariant.stateOf (h : Invariant g) (s : String) :
    Opened g s (g.stateOf s).1 ((g.stateOf s).2.setState s (some (g.stateOf s).1)) := by
  unfold SessionOperationGate.stateOf
  rcases hs : g.states s with _ | k
  · have hnew : ∀ t k', g.states t = some k' → k' ≠ g.made := fun t k' ht =>
      Nat.ne_of_lt (h.made t k' ht)
    have hpermit : ∀ permit ∈ g.permits, permit.released = false → permit.state ≠ g.made :=
      fun permit hmem hreleased => hnew _ _ (h.permits permit hmem hreleased)
    have hlease : ∀ lease ∈ g.leases, lease.released = false → lease.state ≠ g.made :=
      fun lease hmem hreleased => hnew _ _ (h.leases lease hmem hreleased)
    have hkeeps : ∀ t k', g.states t = some k' →
        Function.update g.states s (some g.made) t = some k' := by
      intro t k' ht
      have hts : t ≠ s := by
        rintro rfl
        rw [hs] at ht
        cases ht
      simpa [hts] using ht
    have hdrain : ∀ k' full p,
        (Function.update g.objects g.made {} k').drain full = some p →
          k' ≠ g.made ∧ (g.objects k').drain full = some p := by
      intro k' full p hp
      by_cases hk : k' = g.made
      · subst hk
        cases full <;> simp [SessionOperationState.drain] at hp
      · exact ⟨hk, by simpa [hk] using hp⟩
    simp only [setObject, setState]
    refine ⟨⟨fun t u k' ht hu => ?_, fun t k' ht => ?_,
      fun permit hmem hreleased => hkeeps _ _ (h.permits permit hmem hreleased),
      fun lease hmem hreleased => hkeeps _ _ (h.leases lease hmem hreleased), fun k' => ?_,
      fun k' i => ?_, fun k' full p hp => h.pending _ _ _ (hdrain k' full p hp).2,
      fun k' k'' full full' p hp hp' => h.unique _ _ _ _ _ (hdrain _ _ _ hp).2 (hdrain _ _ _ hp').2,
      fun k' p hp => ?_, fun lease hmem => ?_, fun lease hmem hreleased hdrained => ?_⟩,
      by simp, fun k' full p hp => ?_, fun t k' ht hne => ?_, rfl, rfl, ⟨rfl, rfl⟩,
      fun t k' hts ht => ⟨hkeeps t k' ht, hnew t k' ht, by simp [hnew t k' ht]⟩,
      fun k' hsome => by rw [hs] at hsome; cases hsome⟩
    · simp only [Function.update_apply] at ht hu
      split_ifs at ht hu with hts hus hus
      · rw [hts, hus]
      · cases ht
        exact absurd rfl (hnew _ _ hu)
      · cases hu
        exact absurd rfl (hnew _ _ ht)
      · exact h.injective t u k' ht hu
    · simp only [Function.update_apply] at ht
      split_ifs at ht
      · cases ht
        exact Nat.lt_succ_self _
      · exact Nat.lt_succ_of_lt (h.made t k' ht)
    · simp only [Function.update_apply]
      split_ifs with hk
      · rw [hk, eq_comm, List.countP_eq_zero]
        intro permit hmem hholds
        simp only [holds, Bool.and_eq_true, Bool.not_eq_true', decide_eq_true_eq] at hholds
        exact hpermit permit hmem hholds.1 hholds.2
      · exact h.active k'
    · simp only [Function.update_apply]
      split_ifs with hk
      · subst hk
        simp only [false_iff, not_exists, not_and]
        exact fun lease hi hreleased => hlease lease (List.mem_of_getElem? hi) hreleased
      · exact h.mutation k' i
    · obtain ⟨hk, hold⟩ := hdrain k' true p hp
      simpa [hk] using h.deleting k' p hold
    · obtain ⟨hlt, hpending⟩ := h.drained lease hmem
      refine ⟨hlt, fun hnot => ?_⟩
      obtain ⟨hold, hstate⟩ := hpending hnot
      have hk := hnew _ _ hstate
      exact ⟨by simpa [hk] using hold, hkeeps _ _ hstate⟩
    · simpa [hlease lease hmem hreleased] using h.quiet lease hmem hreleased hdrained
    · obtain ⟨hk, hold⟩ := hdrain k' full p hp
      simpa [hk] using h.settled k' full p hold
    · simp only [Function.update_apply] at ht
      split_ifs at ht
      · cases ht
        exact absurd rfl hne
      · simpa [BusyAt, hne] using h.busy t k' ht
  · have hsame : g.setState s (some k) = g := by
      rw [setState, Function.update_eq_self_iff.2 hs.symm]
    simp only [hsame]
    refine ⟨h.toKept, hs, h.settled, fun t k' ht _ => h.busy t k' ht, rfl, rfl, ⟨rfl, rfl⟩,
      fun t k' hts ht => ⟨ht, ?_, rfl⟩, fun k' hsome => ?_⟩
    · rintro rfl
      exact hts (h.injective t s k' ht hs)
    · rw [hs] at hsome
      exact ⟨(Option.some.inj hsome).symm, rfl⟩

@[simp] theorem setObject_self (g : SessionOperationGate) (k : ℕ) (o : SessionOperationState) :
    (g.setObject k o).objects k = o := by simp [setObject]

theorem setObject_of_ne {k' : ℕ} (h : k' ≠ k) (o : SessionOperationState) :
    (g.setObject k o).objects k' = g.objects k' := by simp [setObject, h]

/-- A write of the record that leaves what it waits for. -/
theorem drain_setObject {o : SessionOperationState}
    (h : ∀ full, o.drain full = (g.objects k).drain full) (k' : ℕ) (full : Bool) :
    ((g.setObject k o).objects k').drain full = (g.objects k').drain full := by
  by_cases hk : k' = k
  · rw [hk, setObject_self, h]
  · rw [setObject_of_ne hk]

/-- A refused entry changes nothing, and one that is let in counts. -/
theorem Invariant.tryEnter (h : Invariant g) (s : String) : Invariant (g.tryEnter s).1 := by
  have hopened := h.stateOf s
  unfold SessionOperationGate.tryEnter
  generalize g.stateOf s = opened at hopened ⊢
  obtain ⟨k, next⟩ := opened
  obtain ⟨g', hg'⟩ : ∃ g', next.setState s (some k) = g' := ⟨_, rfl⟩
  have hobject : next.objects = g'.objects := by rw [← hg']; rfl
  simp only [hg', hobject] at hopened ⊢
  obtain ⟨hkept, hstates, hsettled, hbusy, -, -, -, -, -⟩ := hopened
  split_ifs with hrefused
  · exact h
  simp only [not_or, not_not, Bool.not_eq_true] at hrefused
  obtain ⟨-, hmutation⟩ := hrefused
  obtain ⟨o, ho⟩ : ∃ o, { g'.objects k with active := (g'.objects k).active + 1 } = o := ⟨_, rfl⟩
  have hactive : o.active = (g'.objects k).active + 1 := by rw [← ho]
  have hsame : o.mutation = (g'.objects k).mutation ∧ o.deleting = (g'.objects k).deleting := by
    rw [← ho]
    exact ⟨rfl, rfl⟩
  have hdrain := drain_setObject (g := g') (k := k) (o := o) fun full => by
    rw [← ho]
    cases full <;> rfl
  rw [ho]
  refine ⟨⟨hkept.injective, hkept.made, fun permit hmem hreleased => ?_, hkept.leases, fun k' => ?_,
    fun k' i => ?_, fun k' full p hp => hkept.pending k' full p (hdrain k' full ▸ hp),
    fun k' k'' full full' p hp hp' => hkept.unique _ _ _ _ p (hdrain k' full ▸ hp)
      (hdrain k'' full' ▸ hp'), fun k' p hp => ?_, fun lease hmem => ?_,
    fun lease hmem hreleased hdrained => ?_⟩, fun k' full p hp => ?_, fun t k' ht => ?_⟩
  · rcases List.mem_append.1 hmem with hmem | hmem
    · exact hkept.permits permit hmem hreleased
    · rw [List.mem_singleton] at hmem
      subst hmem
      exact hstates
  · have hcount := hkept.active k'
    change ((g'.setObject k o).objects k').active = List.countP (holds k') (g'.permits ++ [_])
    rw [List.countP_append, ← hcount]
    by_cases hk : k' = k
    · simp [hk, hactive, holds]
    · simp [setObject_of_ne hk, holds, Ne.symm hk]
  · refine Iff.trans ?_ (hkept.mutation k' i)
    change ((g'.setObject k o).objects k').mutation = some i ↔ _
    by_cases hk : k' = k
    · rw [hk, setObject_self, hsame.1]
    · rw [setObject_of_ne hk]
  · have hdeleting := hkept.deleting k' p (hdrain k' true ▸ hp)
    change ((g'.setObject k o).objects k').deleting = true
    by_cases hk : k' = k
    · rw [hk] at hdeleting ⊢
      rwa [setObject_self, hsame.2]
    · rwa [setObject_of_ne hk]
  · change _ ∧ (_ → ((g'.setObject k o).objects lease.state).drain false = _ ∧ _)
    rw [hdrain]
    exact hkept.drained lease hmem
  · change ((g'.setObject k o).objects lease.state).active = 0
    rw [setObject_of_ne (hkept.no_lease hmutation hmem hreleased)]
    exact hkept.quiet lease hmem hreleased hdrained
  · change ¬ Due ((g'.setObject k o).objects k') full
    by_cases hk : k' = k
    · rw [hk, setObject_self, Due, hactive]
      exact fun hdue => absurd hdue.1 (Nat.succ_ne_zero _)
    · rw [setObject_of_ne hk]
      exact hsettled k' full p (hdrain k' full ▸ hp)
  · change BusyAt (g'.setObject k o) k'
    by_cases hk : k' = k
    · rw [hk, BusyAt, setObject_self, hactive]
      exact .inl (Nat.succ_ne_zero _)
    · rw [BusyAt, setObject_of_ne hk]
      exact hbusy t k' ht hk

/-- A permit is released once, and then its record is settled. -/
theorem Invariant.releasePermit (h : Invariant g) (i : ℕ) : Invariant (g.releasePermit i).1 := by
  unfold SessionOperationGate.releasePermit
  rcases hi : g.permits[i]? with _ | ⟨t, k, released⟩
  · exact h
  dsimp only
  split_ifs with hreleased
  · exact h
  rw [Bool.not_eq_true] at hreleased
  have hmem := List.mem_of_getElem? hi
  obtain ⟨hlt, hget⟩ := List.getElem?_eq_some_iff.1 hi
  have hstates : g.states t = some k := h.permits _ hmem hreleased
  obtain ⟨o, ho⟩ : ∃ o, { g.objects k with active := (g.objects k).active - 1 } = o := ⟨_, rfl⟩
  have hactive : o.active = (g.objects k).active - 1 := by rw [← ho]
  have hsame : o.mutation = (g.objects k).mutation ∧ o.deleting = (g.objects k).deleting := by
    rw [← ho]
    exact ⟨rfl, rfl⟩
  have hdrain := drain_setObject (g := g) (k := k) (o := o) fun full => by
    rw [← ho]
    cases full <;> rfl
  rw [ho]
  have holds_set : ∀ k', (g.permits.set i ⟨t, k, true⟩).countP (holds k') =
      g.permits.countP (holds k') - (if k' = k then 1 else 0) := by
    intro k'
    have hold : holds k' ⟨t, k, released⟩ = decide (k' = k) := by
      simp [holds, hreleased, eq_comm]
    rw [List.countP_set hlt, hget, hold]
    simp [holds]
  refine Kept.settleState ⟨h.injective, h.made, fun other hother hnot => ?_, h.leases, fun k' => ?_,
    fun k' j => ?_, fun k' full p hp => h.pending k' full p (hdrain k' full ▸ hp),
    fun k' k'' full full' p hp hp' => h.unique _ _ _ _ p (hdrain k' full ▸ hp)
      (hdrain k'' full' ▸ hp'), fun k' p hp => ?_, fun lease hlease => ?_,
    fun lease hlease hnot hdrained => ?_⟩ hstates (fun k' hne => ?_) fun t k' ht hne => ?_
  · rcases List.mem_or_eq_of_mem_set hother with hother | rfl
    · exact h.permits other hother hnot
    · cases hnot
  · have hcount := h.active k'
    change ((g.setObject k o).objects k').active = _
    refine Eq.trans ?_ (holds_set k').symm
    rw [← hcount]
    by_cases hk' : k' = k
    · rw [hk', setObject_self, hactive, if_pos rfl]
    · rw [setObject_of_ne hk', if_neg hk', Nat.sub_zero]
  · refine Iff.trans ?_ (h.mutation k' j)
    change ((g.setObject k o).objects k').mutation = some j ↔ _
    by_cases hk' : k' = k
    · rw [hk', setObject_self, hsame.1]
    · rw [setObject_of_ne hk']
  · have hdeleting := h.deleting k' p (hdrain k' true ▸ hp)
    change ((g.setObject k o).objects k').deleting = true
    by_cases hk' : k' = k
    · rw [hk'] at hdeleting ⊢
      rwa [setObject_self, hsame.2]
    · rwa [setObject_of_ne hk']
  · change _ ∧ (_ → ((g.setObject k o).objects lease.state).drain false = _ ∧ _)
    rw [hdrain]
    exact h.drained lease hlease
  · have hzero := h.quiet lease hlease hnot hdrained
    change ((g.setObject k o).objects lease.state).active = 0
    by_cases hk' : lease.state = k
    · rw [hk'] at hzero ⊢
      rw [setObject_self, hactive, hzero]
    · rwa [setObject_of_ne hk']
  · intro full p hp
    change ¬ Due ((g.setObject k o).objects k') full
    rw [setObject_of_ne hne]
    exact h.settled k' full p (hdrain k' full ▸ hp)
  · change BusyAt (g.setObject k o) k'
    rw [BusyAt, setObject_of_ne hne]
    exact h.busy t k' ht

/-- A lease is released once, and then its record is settled. -/
theorem Invariant.releaseLease (h : Invariant g) (i : ℕ) : Invariant (g.releaseLease i).1 := by
  unfold SessionOperationGate.releaseLease
  rcases hi : g.leases[i]? with _ | ⟨t, k, drained, released⟩
  · exact h
  dsimp only
  split_ifs with hreleased hlost
  · exact h
  · rw [Bool.not_eq_true] at hreleased
    exact absurd ((h.mutation k i).2 ⟨_, hi, hreleased, rfl⟩) hlost
  rw [Bool.not_eq_true] at hreleased
  rw [not_not] at hlost
  have hmem := List.mem_of_getElem? hi
  have hstates : g.states t = some k := h.leases _ hmem hreleased
  obtain ⟨o, ho⟩ : ∃ o, { g.objects k with mutation := none } = o := ⟨_, rfl⟩
  have hmutation : o.mutation = none := by rw [← ho]
  have hsame : o.active = (g.objects k).active ∧ o.deleting = (g.objects k).deleting := by
    rw [← ho]
    exact ⟨rfl, rfl⟩
  have hdrain := drain_setObject (g := g) (k := k) (o := o) fun full => by
    rw [← ho]
    cases full <;> rfl
  have hactive : ∀ k', ((g.setObject k o).objects k').active = (g.objects k').active := by
    intro k'
    by_cases hk' : k' = k
    · rw [hk', setObject_self, hsame.1]
    · rw [setObject_of_ne hk']
  rw [ho]
  refine Kept.settleState ⟨h.injective, h.made, h.permits, fun other hother hnot => ?_,
    fun k' => (hactive k').trans (h.active k'), fun k' j => ?_,
    fun k' full p hp => h.pending k' full p (hdrain k' full ▸ hp),
    fun k' k'' full full' p hp hp' => h.unique _ _ _ _ p (hdrain k' full ▸ hp)
      (hdrain k'' full' ▸ hp'), fun k' p hp => ?_, fun other hother => ?_,
    fun other hother hnot hdrained => ?_⟩ hstates (fun k' hne => ?_) fun t k' ht hne => ?_
  · rcases List.mem_or_eq_of_mem_set hother with hother | rfl
    · exact h.leases other hother hnot
    · cases hnot
  · change ((g.setObject k o).objects k').mutation = some j ↔
      ∃ other, (g.leases.set i ⟨t, k, drained, true⟩)[j]? = some other ∧
        other.released = false ∧ other.state = k'
    by_cases hk' : k' = k
    · subst hk'
      rw [setObject_self, hmutation]
      constructor
      · rintro ⟨⟩
      · rintro ⟨other, hj, hnot, hstate⟩
        rw [List.getElem?_set] at hj
        split_ifs at hj with hij
        · cases hj
          cases hnot
        · have hother := (h.mutation k' j).2 ⟨other, hj, hnot, hstate⟩
          rw [hlost] at hother
          exact absurd (Option.some.inj hother) hij
    · rw [setObject_of_ne hk', h.mutation]
      constructor
      · rintro ⟨other, hj, hnot, hstate⟩
        refine ⟨other, ?_, hnot, hstate⟩
        rw [List.getElem?_set_ne, hj]
        rintro rfl
        rw [hi] at hj
        cases hj
        exact hk' hstate.symm
      · rintro ⟨other, hj, hnot, hstate⟩
        rw [List.getElem?_set] at hj
        split_ifs at hj with hij
        · cases hj
          cases hnot
        · exact ⟨other, hj, hnot, hstate⟩
  · have hdeleting := h.deleting k' p (hdrain k' true ▸ hp)
    change ((g.setObject k o).objects k').deleting = true
    by_cases hk' : k' = k
    · rw [hk'] at hdeleting ⊢
      rwa [setObject_self, hsame.2]
    · rwa [setObject_of_ne hk']
  · change _ ∧ (_ → ((g.setObject k o).objects other.state).drain false = _ ∧ _)
    rw [hdrain]
    rcases List.mem_or_eq_of_mem_set hother with hother | rfl
    · exact h.drained other hother
    · have hold := h.drained _ hmem
      exact hold
  · refine (hactive _).trans ?_
    rcases List.mem_or_eq_of_mem_set hother with hother | rfl
    · exact h.quiet other hother hnot hdrained
    · cases hnot
  · intro full p hp
    change ¬ Due ((g.setObject k o).objects k') full
    rw [setObject_of_ne hne]
    exact h.settled k' full p (hdrain k' full ▸ hp)
  · change BusyAt (g.setObject k o) k'
    rw [BusyAt, setObject_of_ne hne]
    exact h.busy t k' ht

/-- A promise that is made is none there was. -/
theorem Kept.promise (h : Kept g) (resolved : Bool) : Kept { g with
    resolved := Function.update g.resolved g.promised resolved, promised := g.promised + 1 } := by
  have hold : ∀ {p}, p < g.promised →
      Function.update g.resolved g.promised resolved p = g.resolved p :=
    fun hp => by simp [Nat.ne_of_lt hp]
  refine ⟨h.injective, h.made, h.permits, h.leases, h.active, h.mutation, fun k' full p hp => ?_,
    h.unique, h.deleting, fun lease hlease => ?_, fun lease hlease hnot hdrained => ?_⟩
  · obtain ⟨hlt, hpending⟩ := h.pending k' full p hp
    exact ⟨Nat.lt_succ_of_lt hlt, (hold hlt).trans hpending⟩
  · obtain ⟨hlt, hpending⟩ := h.drained lease hlease
    exact ⟨Nat.lt_succ_of_lt hlt, fun hnot => hpending ((hold hlt).symm.trans hnot)⟩
  · exact h.quiet lease hlease hnot ((hold (h.drained lease hlease).1).symm.trans hdrained)

/-- A record that waits for nothing in a way may wait for a pending promise nothing waits for. -/
theorem Kept.await (h : Kept g) (full : Bool) {p : ℕ} {o : SessionOperationState}
    (hnone : (g.objects k).drain full = none) (hself : o.drain full = some p)
    (hother : o.drain (!full) = (g.objects k).drain !full)
    (hsame : o.active = (g.objects k).active ∧ o.mutation = (g.objects k).mutation ∧
      o.deleting = (g.objects k).deleting)
    (hp : p < g.promised) (hpending : g.resolved p = false)
    (hfree : ∀ k' full', (g.objects k').drain full' ≠ some p)
    (hdeleting : full = true → (g.objects k).deleting = true) : Kept (g.setObject k o) := by
  obtain ⟨hactive, hmutation, hdeletes⟩ := hsame
  have hcases : ∀ {k' full' q}, ((g.setObject k o).objects k').drain full' = some q →
      (g.objects k').drain full' = some q ∨ k' = k ∧ full' = full ∧ q = p := by
    intro k' full' q hq
    by_cases hk : k' = k
    · subst hk
      rw [setObject_self] at hq
      by_cases hfull : full' = full
      · subst hfull
        rw [hself] at hq
        exact .inr ⟨rfl, rfl, (Option.some.inj hq).symm⟩
      · obtain rfl : full' = !full := by cases full <;> cases full' <;> simp at hfull ⊢
        exact .inl (hother ▸ hq)
    · rw [setObject_of_ne hk] at hq
      exact .inl hq
  have hfield : ∀ k', ((g.setObject k o).objects k').active = (g.objects k').active ∧
      ((g.setObject k o).objects k').mutation = (g.objects k').mutation ∧
      ((g.setObject k o).objects k').deleting = (g.objects k').deleting := by
    intro k'
    by_cases hk : k' = k
    · rw [hk, setObject_self]
      exact ⟨hactive, hmutation, hdeletes⟩
    · rw [setObject_of_ne hk]
      exact ⟨rfl, rfl, rfl⟩
  refine ⟨h.injective, h.made, h.permits, h.leases, fun k' => ?_, fun k' i => ?_,
    fun k' full' q hq => ?_, fun k' k'' full' full'' q hq hq' => ?_, fun k' q hq => ?_,
    fun lease hlease => ?_, fun lease hlease hnot hdrained => ?_⟩
  · rw [(hfield k').1]
    exact h.active k'
  · rw [(hfield k').2.1]
    exact h.mutation k' i
  · rcases hcases hq with hq | ⟨-, -, rfl⟩
    · exact h.pending k' full' q hq
    · exact ⟨hp, hpending⟩
  · rcases hcases hq with hold | ⟨rfl, rfl, rfl⟩
    · rcases hcases hq' with hold' | ⟨rfl, rfl, rfl⟩
      · exact h.unique _ _ _ _ _ hold hold'
      · exact absurd hold (hfree _ _)
    · rcases hcases hq' with hold' | ⟨rfl, rfl, -⟩
      · exact absurd hold' (hfree _ _)
      · exact ⟨rfl, rfl⟩
  · rw [(hfield k').2.2]
    rcases hcases hq with hold | ⟨rfl, hfull, -⟩
    · exact h.deleting _ _ hold
    · exact hdeleting hfull.symm
  · obtain ⟨hlt, hwaits⟩ := h.drained lease hlease
    refine ⟨hlt, fun hnot => ?_⟩
    obtain ⟨hdrain, hstate⟩ := hwaits hnot
    refine ⟨?_, hstate⟩
    by_cases hk : lease.state = k
    · rw [hk] at hdrain ⊢
      rw [setObject_self]
      cases full
      · rw [hnone] at hdrain
        cases hdrain
      · exact hother.trans hdrain
    · rwa [setObject_of_ne hk]
  · rw [(hfield _).1]
    exact h.quiet lease hlease hnot hdrained

/-- Nothing waits for the promise made next. -/
theorem Kept.unwaited (h : Kept g) (k : ℕ) (full : Bool) : (g.objects k).drain full ≠ some g.promised :=
  fun hp => Nat.lt_irrefl _ (h.pending k full _ hp).1

/-- What the drain of a record's shared operations is: it is pending while the record waits for it, and
resolved with none active. -/
structure Drains (g : SessionOperationGate) (k p : ℕ) (g' : SessionOperationGate) : Prop where
  kept : Kept g'
  states : g'.states = g.states
  permits : g'.permits = g.permits
  leases : g'.leases = g.leases
  counts : ∀ k', (g'.objects k').active = (g.objects k').active ∧
    (g'.objects k').mutation = (g.objects k').mutation ∧
    (g'.objects k').deleting = (g.objects k').deleting ∧
    (g'.objects k').drain true = (g.objects k').drain true
  settled : ∀ k', SettledAt g k' → SettledAt g' k'
  promised : p < g'.promised
  pending : g'.resolved p = false → (g'.objects k).drain false = some p
  resolved : g'.resolved p = true → (g'.objects k).active = 0

theorem Kept.sharedDrain (h : Kept g) (k : ℕ) :
    Drains g k (g.sharedDrain k).1 (g.sharedDrain k).2 := by
  unfold SessionOperationGate.sharedDrain
  split_ifs with hactive
  · exact ⟨h.promise true, rfl, rfl, rfl, fun _ => ⟨rfl, rfl, rfl, rfl⟩, fun _ h => h,
      Nat.lt_succ_self _, fun hnot => by simp [resolvedPromise] at hnot, fun _ => hactive⟩
  rcases hdrain : (g.objects k).sharedDrain with _ | p
  · have hkept := h.promise false
    obtain ⟨o, ho⟩ : ∃ o, { g.objects k with sharedDrain := some g.promised } = o := ⟨_, rfl⟩
    have hself : o.drain false = some g.promised := by rw [← ho]; rfl
    have htrue : o.drain true = (g.objects k).drain true := by rw [← ho]; rfl
    have hsame : o.active = (g.objects k).active ∧ o.mutation = (g.objects k).mutation ∧
        o.deleting = (g.objects k).deleting := by
      rw [← ho]
      exact ⟨rfl, rfl, rfl⟩
    simp only [deferred, ho]
    refine ⟨hkept.await false (p := g.promised) hdrain hself htrue hsame (Nat.lt_succ_self _)
      (by simp) h.unwaited (by simp), rfl, rfl, rfl, fun k' => ?_, fun k' hsettled => ?_,
      Nat.lt_succ_self _, fun _ => ?_, fun hresolved => ?_⟩
    · by_cases hk : k' = k
      · rw [hk, setObject_self]
        exact ⟨hsame.1, hsame.2.1, hsame.2.2, htrue⟩
      · rw [setObject_of_ne hk]
        exact ⟨rfl, rfl, rfl, rfl⟩
    · intro full q hq
      by_cases hk : k' = k
      · subst hk
        rw [setObject_self] at hq ⊢
        rw [Due, hsame.1, hsame.2.1]
        exact fun hdue => hactive hdue.1
      · rw [setObject_of_ne hk] at hq ⊢
        exact hsettled full q hq
    · rw [setObject_self, hself]
    · simp [setObject] at hresolved
  · exact ⟨h, rfl, rfl, rfl, fun _ => ⟨rfl, rfl, rfl, rfl⟩, fun _ h => h,
      (h.pending k false p hdrain).1, fun _ => hdrain, fun hresolved => by
        rw [(h.pending k false p hdrain).2] at hresolved
        cases hresolved⟩

/-- A lease that is taken of a record without one. -/
theorem Kept.lease (h : Kept g) {p : ℕ} {o : SessionOperationState} (hs : g.states s = some k)
    (hnone : (g.objects k).mutation = none) (hself : o.mutation = some g.leases.length)
    (hdrain : ∀ full, o.drain full = (g.objects k).drain full)
    (hsame : o.active = (g.objects k).active ∧ o.deleting = (g.objects k).deleting)
    (hp : p < g.promised) (hpending : g.resolved p = false → (g.objects k).drain false = some p)
    (hresolved : g.resolved p = true → (g.objects k).active = 0) :
    Kept { g.setObject k o with leases := g.leases ++ [⟨s, k, p, false⟩] } := by
  have hdrain := drain_setObject hdrain
  have hactive : ∀ k', ((g.setObject k o).objects k').active = (g.objects k').active := by
    intro k'
    by_cases hk : k' = k
    · rw [hk, setObject_self, hsame.1]
    · rw [setObject_of_ne hk]
  refine ⟨h.injective, h.made, h.permits, fun lease hlease hnot => ?_,
    fun k' => (hactive k').trans (h.active k'), fun k' i => ?_,
    fun k' full q hq => h.pending k' full q (hdrain k' full ▸ hq),
    fun k' k'' full full' q hq hq' => h.unique _ _ _ _ q (hdrain k' full ▸ hq)
      (hdrain k'' full' ▸ hq'), fun k' q hq => ?_, fun lease hlease => ?_,
    fun lease hlease hnot hdrained => ?_⟩
  · rcases List.mem_append.1 hlease with hlease | hlease
    · exact h.leases lease hlease hnot
    · rw [List.mem_singleton] at hlease
      subst hlease
      exact hs
  · change ((g.setObject k o).objects k').mutation = some i ↔
      ∃ lease, (g.leases ++ [⟨s, k, p, false⟩])[i]? = some lease ∧ lease.released = false ∧
        lease.state = k'
    by_cases hk : k' = k
    · subst hk
      rw [setObject_self, hself, Option.some.injEq]
      constructor
      · rintro rfl
        exact ⟨⟨s, k', p, false⟩, by simp, rfl, rfl⟩
      · rintro ⟨lease, hi, hnot, hstate⟩
        rw [List.getElem?_append] at hi
        split_ifs at hi with hlt
        · have hsome := (h.mutation k' i).2 ⟨lease, hi, hnot, hstate⟩
          rw [hnone] at hsome
          cases hsome
        · rw [List.getElem?_singleton] at hi
          split_ifs at hi with hzero
          omega
    · rw [setObject_of_ne hk, h.mutation]
      constructor
      · rintro ⟨lease, hi, hnot, hstate⟩
        refine ⟨lease, ?_, hnot, hstate⟩
        rw [List.getElem?_append_left (List.getElem?_eq_some_iff.1 hi).1, hi]
      · rintro ⟨lease, hi, hnot, hstate⟩
        rw [List.getElem?_append] at hi
        split_ifs at hi with hlt
        · exact ⟨lease, hi, hnot, hstate⟩
        · rw [List.getElem?_singleton] at hi
          split_ifs at hi with hzero
          cases hi
          exact absurd hstate.symm hk
  · have hdeleting := h.deleting k' q (hdrain k' true ▸ hq)
    change ((g.setObject k o).objects k').deleting = true
    by_cases hk : k' = k
    · rw [hk] at hdeleting ⊢
      rwa [setObject_self, hsame.2]
    · rwa [setObject_of_ne hk]
  · change _ ∧ (_ → ((g.setObject k o).objects lease.state).drain false = _ ∧ _)
    rw [hdrain]
    rcases List.mem_append.1 hlease with hlease | hlease
    · exact h.drained lease hlease
    · rw [List.mem_singleton] at hlease
      subst hlease
      exact ⟨hp, fun hnot => ⟨hpending hnot, hs⟩⟩
  · refine (hactive _).trans ?_
    rcases List.mem_append.1 hlease with hlease | hlease
    · exact h.quiet lease hlease hnot hdrained
    · rw [List.mem_singleton] at hlease
      subst hlease
      exact hresolved hdrained

/-- The lease is taken of the drained record, whichever is written first. -/
theorem setObject_sharedDrain (g : SessionOperationGate) (k : ℕ) (mutation : Option ℕ) :
    ((g.setObject k { g.objects k with mutation }).sharedDrain k).1 = (g.sharedDrain k).1 ∧
      ((g.setObject k { g.objects k with mutation }).sharedDrain k).2 =
        (g.sharedDrain k).2.setObject k { (g.sharedDrain k).2.objects k with mutation } := by
  unfold SessionOperationGate.sharedDrain
  rw [setObject_self]
  dsimp only
  split_ifs with hactive
  · exact ⟨rfl, rfl⟩
  · rcases hdrain : (g.objects k).sharedDrain with _ | p <;> simp only [hdrain]
    · simp [deferred, setObject]
    · exact ⟨trivial, trivial⟩

theorem Invariant.tryAcquireExclusive (h : Invariant g) (s : String) :
    Invariant (g.tryAcquireExclusive s).1 := by
  have hopened := h.stateOf s
  unfold SessionOperationGate.tryAcquireExclusive
  generalize g.stateOf s = opened at hopened ⊢
  obtain ⟨k, next⟩ := opened
  have hcommute : ∀ o, (next.setObject k o).setState s (some k) =
      (next.setState s (some k)).setObject k o := fun o => rfl
  obtain ⟨g', hg'⟩ : ∃ g', next.setState s (some k) = g' := ⟨_, rfl⟩
  have hobject : next.objects = g'.objects := by rw [← hg']; rfl
  simp only [hcommute, hg', hobject] at hopened ⊢
  obtain ⟨hkept, hstates, hsettled, hbusy, -, hleases, -, -, -⟩ := hopened
  split_ifs with hrefused
  · exact h
  simp only [not_or, not_not, Bool.not_eq_true] at hrefused
  obtain ⟨hdeleting, hmutation⟩ := hrefused
  obtain ⟨hfirst, hsecond⟩ := setObject_sharedDrain g' k (some g.leases.length)
  rw [hfirst, hsecond]
  have hdrains := hkept.sharedDrain k
  generalize g'.sharedDrain k = drained at hdrains ⊢
  obtain ⟨p, g₁⟩ := drained
  obtain ⟨hkept₁, hstates₁, -, hleases₁, hcounts, hsettled₁, hp, hpending, hresolved⟩ := hdrains
  obtain ⟨hactive, hmutation₁, hdeleting₁, htrue⟩ := hcounts k
  dsimp only at *
  obtain ⟨o, ho⟩ : ∃ o, { g₁.objects k with mutation := some g.leases.length } = o := ⟨_, rfl⟩
  have hself : o.mutation = some g₁.leases.length := by rw [← ho, hleases₁, hleases]
  have hdrain : ∀ full, o.drain full = (g₁.objects k).drain full := by
    intro full
    rw [← ho]
    cases full <;> rfl
  have hsame : o.active = (g₁.objects k).active ∧ o.deleting = (g₁.objects k).deleting := by
    rw [← ho]
    exact ⟨rfl, rfl⟩
  rw [ho]
  have hlease := hkept₁.lease (s := s) (hstates₁ ▸ hstates) (hmutation₁.trans hmutation) hself hdrain
    hsame hp hpending hresolved
  refine ⟨hlease, fun k' full q hq => ?_, fun t k' ht => ?_⟩
  · change ((g₁.setObject k o).objects k').drain full = some q at hq
    change ¬ Due ((g₁.setObject k o).objects k') full
    by_cases hk : k' = k
    · rw [hk, setObject_self] at hq ⊢
      rw [hdrain] at hq
      cases full
      · exact fun hdue => hsettled₁ k (hsettled k) false q hq ⟨hsame.1 ▸ hdue.1, by simp⟩
      · have hdeletes := hkept₁.deleting k q hq
        rw [hdeleting₁, hdeleting] at hdeletes
        cases hdeletes
    · rw [setObject_of_ne hk] at hq ⊢
      exact hsettled₁ k' (hsettled k') full q hq
  · change BusyAt (g₁.setObject k o) k'
    by_cases hk : k' = k
    · rw [hk, BusyAt, setObject_self, hself]
      exact .inr (.inr (by simp))
    · rw [BusyAt, setObject_of_ne hk, (hcounts k').1, (hcounts k').2.1, (hcounts k').2.2.1]
      exact hbusy t k' (hstates₁ ▸ ht) hk

/-- The record is blocked, or no more. -/
theorem Kept.setDeleting (h : Kept g) {o : SessionOperationState}
    (hdrain : ∀ full, o.drain full = (g.objects k).drain full)
    (hsame : o.active = (g.objects k).active ∧ o.mutation = (g.objects k).mutation)
    (hdeleting : o.deleting = false → (g.objects k).drain true = none) : Kept (g.setObject k o) := by
  have hdrains := drain_setObject hdrain
  have hfield : ∀ k', ((g.setObject k o).objects k').active = (g.objects k').active ∧
      ((g.setObject k o).objects k').mutation = (g.objects k').mutation := by
    intro k'
    by_cases hk : k' = k
    · rw [hk, setObject_self]
      exact hsame
    · rw [setObject_of_ne hk]
      exact ⟨rfl, rfl⟩
  refine ⟨h.injective, h.made, h.permits, h.leases, fun k' => (hfield k').1.trans (h.active k'),
    fun k' i => ?_, fun k' full q hq => h.pending k' full q (hdrains k' full ▸ hq),
    fun k' k'' full full' q hq hq' => h.unique _ _ _ _ q (hdrains k' full ▸ hq)
      (hdrains k'' full' ▸ hq'), fun k' q hq => ?_, fun lease hlease => ?_,
    fun lease hlease hnot hdrained => (hfield _).1.trans (h.quiet lease hlease hnot hdrained)⟩
  · rw [(hfield k').2]
    exact h.mutation k' i
  · have hold := hdrains k' true ▸ hq
    have hdeletes := h.deleting k' q hold
    by_cases hk : k' = k
    · subst hk
      rw [setObject_self]
      by_contra hnot
      rw [hdeleting (by simpa using hnot)] at hold
      cases hold
    · rwa [setObject_of_ne hk]
  · rw [hdrains]
    exact h.drained lease hlease

theorem Invariant.fullDrain (h : Invariant g) (hdeleting : (g.objects k).deleting = true)
    (hbusy : ¬ ((g.objects k).active = 0 ∧ (g.objects k).mutation = none)) :
    Invariant (g.fullDrain k).2 := by
  unfold SessionOperationGate.fullDrain
  rcases hnone : (g.objects k).fullDrain with _ | p
  swap
  · exact h
  obtain ⟨o, ho⟩ : ∃ o, { g.objects k with fullDrain := some g.promised } = o := ⟨_, rfl⟩
  have hself : o.drain true = some g.promised := by rw [← ho]; rfl
  have hfalse : o.drain false = (g.objects k).drain false := by rw [← ho]; rfl
  have hsame : o.active = (g.objects k).active ∧ o.mutation = (g.objects k).mutation ∧
      o.deleting = (g.objects k).deleting := by
    rw [← ho]
    exact ⟨rfl, rfl, rfl⟩
  have hpromise := h.toKept.promise false
  simp only [deferred, ho]
  refine ⟨hpromise.await true (p := g.promised) hnone hself hfalse hsame (Nat.lt_succ_self _) (by simp)
    h.unwaited fun _ => hdeleting, fun k' full q hq => ?_, fun t k' ht => ?_⟩
  · by_cases hk : k' = k
    · subst hk
      rw [setObject_self] at hq ⊢
      rw [Due, hsame.1, hsame.2.1]
      cases full
      · rw [hfalse] at hq
        exact h.settled k' false q hq
      · exact fun hdue => hbusy ⟨hdue.1, hdue.2 rfl⟩
    · rw [setObject_of_ne hk] at hq ⊢
      exact h.settled k' full q hq
  · by_cases hk : k' = k
    · rw [hk, BusyAt, setObject_self, hsame.2.2, hdeleting]
      exact .inr (.inl rfl)
    · rw [BusyAt, setObject_of_ne hk]
      exact h.busy t k' ht

/-- A Session is blocked, and what it waits for is awaited. -/
theorem Invariant.block (h : Invariant g) (s : String) : Invariant (g.block s).1 := by
  have hopened := h.stateOf s
  unfold SessionOperationGate.block
  generalize g.stateOf s = opened at hopened ⊢
  obtain ⟨k, next⟩ := opened
  obtain ⟨g', hg'⟩ : ∃ g', next.setState s (some k) = g' := ⟨_, rfl⟩
  have hobject : next.objects = g'.objects := by rw [← hg']; rfl
  simp only [hg', hobject] at hopened ⊢
  obtain ⟨hkept, hstates, hsettled, hbusy, -, -, -, -, -⟩ := hopened
  obtain ⟨o, ho⟩ : ∃ o, { g'.objects k with deleting := true } = o := ⟨_, rfl⟩
  have hdrain : ∀ full, o.drain full = (g'.objects k).drain full := by
    intro full
    rw [← ho]
    cases full <;> rfl
  have hsame : o.active = (g'.objects k).active ∧ o.mutation = (g'.objects k).mutation := by
    rw [← ho]
    exact ⟨rfl, rfl⟩
  have hdeleting : o.deleting = true := by rw [← ho]
  rw [ho]
  have hblocked : Invariant (g'.setObject k o) := by
    refine ⟨hkept.setDeleting hdrain hsame (by rw [hdeleting]; rintro ⟨⟩), fun k' full q hq => ?_,
      fun t k' ht => ?_⟩
    · rw [drain_setObject hdrain] at hq
      by_cases hk : k' = k
      · subst hk
        rw [setObject_self, Due, hsame.1, hsame.2]
        exact hsettled k' full q hq
      · rw [setObject_of_ne hk]
        exact hsettled k' full q hq
    · by_cases hk : k' = k
      · rw [hk, BusyAt, setObject_self, hdeleting]
        exact .inr (.inl rfl)
      · rw [BusyAt, setObject_of_ne hk]
        exact hbusy t k' ht hk
  split_ifs with hidle
  · exact ⟨hblocked.toKept.promise true, hblocked.settled, hblocked.busy⟩
  · exact hblocked.fullDrain (by rw [setObject_self, hdeleting]) hidle

theorem Invariant.release (h : Invariant g) (s : String) : Invariant (g.release s).1 := by
  unfold SessionOperationGate.release
  rcases hs : g.states s with _ | k
  · exact h
  dsimp only
  split_ifs with hheld
  · exact h
  simp only [not_or, not_not] at hheld
  obtain ⟨o, ho⟩ : ∃ o, { g.objects k with deleting := false } = o := ⟨_, rfl⟩
  have hdrain : ∀ full, o.drain full = (g.objects k).drain full := by
    intro full
    rw [← ho]
    cases full <;> rfl
  have hsame : o.active = (g.objects k).active ∧ o.mutation = (g.objects k).mutation := by
    rw [← ho]
    exact ⟨rfl, rfl⟩
  rw [ho]
  refine (h.toKept.setDeleting hdrain hsame fun _ => ?_).settleState hs (fun k' hne => ?_)
    fun t k' ht hne => ?_
  · by_contra hsome
    obtain ⟨q, hq⟩ := Option.ne_none_iff_exists'.1 hsome
    exact h.settled k true q hq ⟨hheld.1, fun _ => hheld.2⟩
  · intro full q hq
    rw [drain_setObject hdrain] at hq
    rw [setObject_of_ne hne]
    exact h.settled k' full q hq
  · rw [BusyAt, setObject_of_ne hne]
    exact h.busy t k' ht

/-! ## What every reachable gate guarantees -/

theorem invariant_step (h : Invariant g) (e : OperationGateEvent) :
    Invariant (operationGateSystem.step g e).1 := by
  cases e with
  | tryEnter s => exact h.tryEnter s
  | releasePermit i => exact h.releasePermit i
  | tryAcquireExclusive s => exact h.tryAcquireExclusive s
  | releaseLease i => exact h.releaseLease i
  | block s => exact h.block s
  | release s => exact h.release s

theorem invariant_of_reachable (h : operationGateSystem.Reachable g) : Invariant g := by
  have hinitial : Invariant operationGateSystem.initial := Invariant.initial
  exact h.invariant hinitial fun _ e hg => invariant_step hg e

/-- A permit of an active record is one of its Session. -/
theorem Kept.entered (h : Kept g) (hs : g.states s = some k) (hactive : (g.objects k).active ≠ 0) :
    g.Entered s := by
  rw [h.active, Ne, List.countP_eq_zero] at hactive
  push Not at hactive
  obtain ⟨permit, hmem, hholds⟩ := hactive
  simp only [holds, Bool.and_eq_true, Bool.not_eq_true', decide_eq_true_eq] at hholds
  refine ⟨permit, hmem, h.injective _ s k ?_ hs, hholds.1⟩
  rw [← hholds.2]
  exact h.permits permit hmem hholds.1

theorem Kept.not_entered (h : Kept g) (hs : g.states s = some k) (hactive : (g.objects k).active = 0) :
    ¬ g.Entered s := by
  rintro ⟨permit, hmem, rfl, hreleased⟩
  have hstate := h.permits permit hmem hreleased
  rw [hs] at hstate
  exact h.no_permit hactive hmem hreleased (Option.some.inj hstate).symm

/-- No operation enters a record that is leased or blocked. -/
theorem tryEnter_refused (hs : g.states s = some k)
    (h : (g.objects k).deleting = true ∨ (g.objects k).mutation ≠ none) :
    g.tryEnter s = (g, .entered none) := by
  have hstate : g.stateOf s = (k, g) := by rw [stateOf, hs]
  unfold SessionOperationGate.tryEnter
  simp only [hstate]
  rw [if_pos h]

theorem tryAcquireExclusive_refused (hs : g.states s = some k)
    (h : (g.objects k).deleting = true ∨ (g.objects k).mutation ≠ none) :
    g.tryAcquireExclusive s = (g, .acquired none) := by
  have hstate : g.stateOf s = (k, g) := by rw [stateOf, hs]
  unfold SessionOperationGate.tryAcquireExclusive
  simp only [hstate]
  rw [if_pos h]

end SessionOperationGate

end Kinetick
