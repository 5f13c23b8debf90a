import Kinetick.Proofs.OperationGateRuns

/-!
# The gate of a Session's operations lets its waiters go

A lease that is drained is alone, and a blocked Session is closed once its promise resolves. A promise
resolves once no operation that entered before it is active: for a block always, for a lease while it
is held, since an operation may enter once it is released.
-/

namespace Kinetick

namespace SessionOperationGate

variable {g g' : SessionOperationGate} {s : String} {k : ℕ}

/-! ## What holds in a state -/

theorem Kept.leased_record (h : Kept g) {i : ℕ} {lease : SessionExclusiveOperationLease}
    (hi : g.leases[i]? = some lease) (hheld : lease.released = false) :
    g.states lease.sessionId = some lease.state ∧ (g.objects lease.state).mutation = some i :=
  ⟨h.leases lease (List.mem_of_getElem? hi) hheld, (h.mutation _ _).2 ⟨lease, hi, hheld, rfl⟩⟩

/-- A record with a lease is of a Session that is leased. -/
theorem Kept.leased (h : Kept g) (hs : g.states s = some k) (hmutation : (g.objects k).mutation ≠ none) :
    ∃ (i : ℕ) (lease : SessionExclusiveOperationLease), g.leases[i]? = some lease ∧
      lease.sessionId = s ∧ lease.released = false := by
  obtain ⟨i, hi⟩ := Option.ne_none_iff_exists'.1 hmutation
  obtain ⟨lease, hget, hheld, hstate⟩ := (h.mutation k i).1 hi
  refine ⟨i, lease, hget, h.injective _ _ k ?_ hs, hheld⟩
  rw [← hstate]
  exact h.leases lease (List.mem_of_getElem? hget) hheld

theorem Kept.not_leased (h : Kept g) (hs : g.states s = some k)
    (hmutation : (g.objects k).mutation = none) : ¬ g.Leased s := by
  rintro ⟨lease, hmem, rfl, hheld⟩
  have hstate := h.leases lease hmem hheld
  rw [hs] at hstate
  exact h.no_lease hmutation hmem hheld (Option.some.inj hstate).symm

theorem Invariant.leasesAlone (h : Invariant g) : g.LeasesAlone := by
  intro lease hmem hheld hdrained
  obtain ⟨i, hi⟩ := List.mem_iff_getElem?.1 hmem
  obtain ⟨hstate, hmutation⟩ := h.leased_record hi hheld
  refine ⟨h.not_entered hstate (h.quiet lease hmem hheld hdrained), ?_⟩
  rw [tryEnter_refused hstate (.inr (by rw [hmutation]; simp))]

theorem Invariant.oneLease (h : Invariant g) : g.OneLease := by
  intro i j a b hi hj hsame ha hb
  obtain ⟨hstate, hmutation⟩ := h.leased_record hi ha
  obtain ⟨hstate', hmutation'⟩ := h.leased_record hj hb
  rw [hsame, hstate'] at hstate
  rw [Option.some.inj hstate, hmutation] at hmutation'
  exact Option.some.inj hmutation'

theorem Invariant.lateReleasesIdle (h : Invariant g) : g.LateReleasesIdle := by
  constructor
  · intro i permit hi hlate
    have hreleased : permit.released = true := by
      by_contra hnot
      exact hlate (h.permits permit (List.mem_of_getElem? hi) (by simpa using hnot))
    unfold SessionOperationGate.releasePermit
    simp only [hi]
    rw [if_pos hreleased]
  · intro i lease hi hlate
    have hreleased : lease.released = true := by
      by_contra hnot
      exact hlate (h.leases lease (List.mem_of_getElem? hi) (by simpa using hnot))
    unfold SessionOperationGate.releaseLease
    simp only [hi]
    rw [if_pos hreleased]

theorem Invariant.idleDropped (h : Invariant g) : g.IdleDropped := by
  intro s hentered hleased hblocked
  by_contra hsome
  obtain ⟨k, hs⟩ := Option.ne_none_iff_exists'.1 hsome
  rcases h.busy s k hs with hactive | hdeleting | hmutation
  · exact hentered (h.entered hs hactive)
  · exact hblocked ⟨k, hs, hdeleting⟩
  · obtain ⟨i, lease, hi, hsession, hheld⟩ := h.leased hs hmutation
    exact hleased ⟨lease, List.mem_of_getElem? hi, hsession, hheld⟩

/-- A drain is pending only while an operation of its Session is active. -/
theorem Invariant.drained_of_not_entered (h : Invariant g) {lease : SessionExclusiveOperationLease}
    (hmem : lease ∈ g.leases) (hnot : ¬ g.Entered lease.sessionId) :
    g.resolved lease.drained = true := by
  by_contra hpending
  obtain ⟨hdrain, hstate⟩ := (h.drained lease hmem).2 (by simpa using hpending)
  have hidle : (g.objects lease.state).active = 0 := by
    by_contra hactive
    exact hnot (h.entered hstate hactive)
  exact h.settled lease.state false _ hdrain ⟨hidle, by simp⟩

/-- A promise that resolved stays so. -/
theorem resolved_after (h : Invariant g) {p : ℕ} (hp : p < g.promised) (hres : g.resolved p = true)
    (es : List OperationGateEvent) : (operationGateSystem.after g es).resolved p = true := by
  have hkept := operationGateSystem.after_invariant (G := fun _ _ => True)
    (P := fun g => Invariant g ∧ p < g.promised ∧ g.resolved p = true)
    (fun g e hg _ => ⟨invariant_step hg.1 e, Nat.lt_of_lt_of_le hg.2.1 (grows_step hg.1 e).promised,
      (grows_step hg.1 e).resolved p hg.2.1 hg.2.2⟩) ⟨h, hp, hres⟩
    (operationGateSystem.along_true g es)
  exact hkept.2.2

/-! ## The wait for a lease -/

/-- While the lease is held, only operations that entered before it are active. -/
structure LeaseWaits (g : SessionOperationGate) (s : String) (i permits : ℕ) : Prop where
  taken : i < g.leases.length
  session : ∀ lease, g.leases[i]? = some lease → lease.sessionId = s
  before : ∀ lease, g.leases[i]? = some lease → lease.released = false →
    ∀ (j : ℕ) (permit : OperationPermit), g.permits[j]? = some permit → permit.sessionId = s →
      permit.released = false → j < permits

theorem LeaseWaits.taken_of (h : Invariant g) {i : ℕ}
    (htaken : (g.tryAcquireExclusive s).2 = .acquired (some i)) :
    LeaseWaits (g.tryAcquireExclusive s).1 s i g.permits.length := by
  have hopened := h.stateOf s
  unfold SessionOperationGate.tryAcquireExclusive at htaken ⊢
  generalize g.stateOf s = opened at hopened htaken ⊢
  obtain ⟨k, next⟩ := opened
  have hcommute : ∀ o, (next.setObject k o).setState s (some k) =
      (next.setState s (some k)).setObject k o := fun o => rfl
  obtain ⟨g', hg'⟩ : ∃ g', next.setState s (some k) = g' := ⟨_, rfl⟩
  have hobject : next.objects = g'.objects := by rw [← hg']; rfl
  simp only [hcommute, hg', hobject] at hopened htaken ⊢
  obtain ⟨-, -, -, -, hpermits, hleases, -, -, -⟩ := hopened
  split_ifs at htaken ⊢
  · exact absurd htaken (by simp)
  have hi : g.leases.length = i := Option.some.inj (OperationGateAnswer.acquired.inj htaken)
  clear htaken
  subst hi
  have hkept := sharedDrain_promises
    (g'.setObject k { g'.objects k with mutation := some g.leases.length }) k
  generalize (g'.setObject k { g'.objects k with mutation := some g.leases.length }).sharedDrain k
    = drained at hkept ⊢
  obtain ⟨p, g₁⟩ := drained
  have hpermits₁ : g₁.permits = g.permits := hkept.permits.trans hpermits
  have hleases₁ : g₁.leases = g.leases := hkept.leases.trans hleases
  dsimp only
  rw [hpermits₁, hleases₁]
  refine ⟨?_, ?_, ?_⟩ <;> dsimp only
  · simp
  · intro lease hi
    rcases getElem?_append_singleton hi with hi | ⟨-, rfl⟩
    · exact absurd (List.getElem?_eq_some_iff.1 hi).1 (Nat.lt_irrefl _)
    · rfl
  · exact fun _ _ _ j permit hj _ _ => (List.getElem?_eq_some_iff.1 hj).1

theorem LeaseWaits.step (h : Invariant g) {i permits : ℕ} (hwaits : LeaseWaits g s i permits)
    (e : OperationGateEvent) : LeaseWaits (operationGateSystem.step g e).1 s i permits := by
  have hgrows := grows_step h e
  obtain ⟨lease, hi⟩ : ∃ lease, g.leases[i]? = some lease := ⟨_, List.getElem?_eq_getElem hwaits.taken⟩
  obtain ⟨lease', hi', hsession, -⟩ := hgrows.kept i lease hi
  refine ⟨(List.getElem?_eq_some_iff.1 hi').1, fun b hb => ?_, fun b hb hheld j permit hj hs hactive => ?_⟩
  · rw [hi'] at hb
    cases hb
    rw [hsession]
    exact hwaits.session lease hi
  · rcases hgrows.leases i b hb hheld with hold | ⟨hnew, -⟩
    swap
    · exact absurd hwaits.taken (Nat.not_lt.2 hnew)
    rcases hgrows.permits j permit hj hactive with hbefore | hopen
    · exact hwaits.before b hold hheld j permit hbefore hs hactive
    · -- a Session whose lease is held lets nothing in
      obtain ⟨hstate, hmutation⟩ := h.leased_record hold hheld
      rw [hwaits.session b hold, ← hs] at hstate
      rw [(hopen _ hstate).2] at hmutation
      cases hmutation

theorem LeaseWaits.drained (h : Invariant g) {i permits : ℕ} (hwaits : LeaseWaits g s i permits)
    {lease : SessionExclusiveOperationLease} (hi : g.leases[i]? = some lease)
    (hheld : lease.released = false) (hbefore : g.ReleasedBefore s permits 0) :
    g.resolved lease.drained = true := by
  refine h.drained_of_not_entered (List.mem_of_getElem? hi) ?_
  rw [hwaits.session lease hi]
  rintro ⟨permit, hmem, hs, hactive⟩
  obtain ⟨j, hj⟩ := List.mem_iff_getElem?.1 hmem
  have hlt := hwaits.before lease hi hheld j permit hj hs hactive
  rw [hbefore.1 j permit hlt hj hs] at hactive
  cases hactive

theorem LeaseWaits.after (h : Invariant g) {i permits : ℕ} (hwaits : LeaseWaits g s i permits)
    (es : List OperationGateEvent) : Invariant (operationGateSystem.after g es) ∧
      LeaseWaits (operationGateSystem.after g es) s i permits :=
  operationGateSystem.after_invariant (G := fun _ _ => True)
    (P := fun g => Invariant g ∧ LeaseWaits g s i permits)
    (fun _ e hg _ => ⟨invariant_step hg.1 e, hg.2.step hg.1 e⟩) ⟨h, hwaits⟩
    (operationGateSystem.along_true g es)

/-! ## The wait for a blocked Session -/

/-- Of a blocked Session only operations that entered before the block are active, and its promise is
pending while the record waits for it and resolved with nothing active. -/
structure BlockWaits (g : SessionOperationGate) (s : String) (p permits leases : ℕ) (k : ℕ) :
    Prop where
  states : g.states s = some k
  deleting : (g.objects k).deleting = true
  promised : p < g.promised
  resolved : g.resolved p = true → (g.objects k).active = 0 ∧ (g.objects k).mutation = none
  pending : g.resolved p = false → (g.objects k).drain true = some p
  entered : ∀ (i : ℕ) (permit : OperationPermit), g.permits[i]? = some permit →
    permit.sessionId = s → permit.released = false → i < permits
  leased : ∀ (i : ℕ) (lease : SessionExclusiveOperationLease), g.leases[i]? = some lease →
    lease.sessionId = s → lease.released = false → i < leases

theorem BlockWaits.blocked (h : Invariant g) {p : ℕ} (hblocked : (g.block s).2 = .blocked p) :
    ∃ k, BlockWaits (g.block s).1 s p g.permits.length g.leases.length k := by
  have hkept := (h.block s).toKept
  have hopened := h.stateOf s
  unfold SessionOperationGate.block at hblocked hkept ⊢
  generalize g.stateOf s = opened at hopened hblocked hkept ⊢
  obtain ⟨k, next⟩ := opened
  obtain ⟨g', hg'⟩ : ∃ g', next.setState s (some k) = g' := ⟨_, rfl⟩
  have hobject : next.objects = g'.objects := by rw [← hg']; rfl
  simp only [hg', hobject] at hopened hblocked hkept ⊢
  obtain ⟨-, hstates, -, -, hpermits, hleases, -, -, -⟩ := hopened
  obtain ⟨g₁, hg₁⟩ : ∃ g₁, g'.setObject k { g'.objects k with deleting := true } = g₁ := ⟨_, rfl⟩
  have hdeleting : (g₁.objects k).deleting = true := by rw [← hg₁, setObject_self]
  have hstates₁ : g₁.states s = some k := by rw [← hg₁]; exact hstates
  have hpermits₁ : g₁.permits = g.permits := by rw [← hg₁]; exact hpermits
  have hleases₁ : g₁.leases = g.leases := by rw [← hg₁]; exact hleases
  rw [hg₁] at hblocked hkept ⊢
  refine ⟨k, ?_⟩
  by_cases hidle : (g₁.objects k).active = 0 ∧ (g₁.objects k).mutation = none
  · rw [if_pos hidle] at hblocked hkept ⊢
    cases hblocked
    refine ⟨hstates₁, hdeleting, Nat.lt_succ_self _, fun _ => hidle, fun hnot => ?_,
      fun i permit hi _ _ => ?_, fun i lease hi _ _ => ?_⟩
    · simp [resolvedPromise] at hnot
    · exact (List.getElem?_eq_some_iff.1 (hpermits₁ ▸ hi)).1
    · exact (List.getElem?_eq_some_iff.1 (hleases₁ ▸ hi)).1
  · rw [if_neg hidle] at hblocked hkept ⊢
    cases hblocked
    obtain ⟨hstates₂, -, -, -, hdeleting₂, hdrain, -⟩ := fullDrain_record g₁ k k
    have hsame := fullDrain_promises g₁ k
    obtain ⟨hlt, hpending⟩ := hkept.pending k true _ hdrain
    refine ⟨(congrFun hstates₂ s).trans hstates₁, hdeleting₂.trans hdeleting, hlt, fun hres => ?_,
      fun _ => hdrain, fun i permit hi _ _ => ?_, fun i lease hi _ _ => ?_⟩
    · rw [hpending] at hres
      cases hres
    · exact (List.getElem?_eq_some_iff.1 (hsame.permits.trans hpermits₁ ▸ hi)).1
    · exact (List.getElem?_eq_some_iff.1 (hsame.leases.trans hleases₁ ▸ hi)).1

theorem BlockWaits.step (h : Invariant g) {p permits leases : ℕ}
    (hwaits : BlockWaits g s p permits leases k) {e : OperationGateEvent} (hnot : ¬ Unblocks s g e) :
    BlockWaits (operationGateSystem.step g e).1 s p permits leases k := by
  have hstays := staysBlocked_step h hwaits.states hwaits.deleting hnot
  have hgrows := grows_step h e
  have hkept := (invariant_step h e).toKept
  have hclosed : ¬ g.Open s := fun hopen => by
    have hdeletes := (hopen k hwaits.states).1
    rw [hwaits.deleting] at hdeletes
    cases hdeletes
  refine ⟨hstays.states, hstays.deleting, Nat.lt_of_lt_of_le hwaits.promised hgrows.promised,
    fun hres => ?_, fun hpending => ?_, fun i permit hi hs hactive => ?_, fun i lease hi hs hheld => ?_⟩
  · rcases hold : g.resolved p with _ | _
    · rcases hstays.waits p (hwaits.pending hold) with hdrain | ⟨-, hidle⟩
      · rw [(hkept.pending k true p hdrain).2] at hres
        cases hres
      · exact hidle
    · obtain ⟨hactive, hmutation⟩ := hwaits.resolved hold
      exact ⟨hstays.active hactive, hstays.mutation hmutation⟩
  · have hold : g.resolved p = false := by
      by_contra hres
      rw [hgrows.resolved p hwaits.promised (by simpa using hres)] at hpending
      cases hpending
    rcases hstays.waits p (hwaits.pending hold) with hdrain | ⟨hres, -⟩
    · exact hdrain
    · rw [hpending] at hres
      cases hres
  · rcases hgrows.permits i permit hi hactive with hbefore | hopen
    · exact hwaits.entered i permit hbefore hs hactive
    · exact absurd (hs ▸ hopen) hclosed
  · rcases hgrows.leases i lease hi hheld with hbefore | ⟨-, hopen⟩
    · exact hwaits.leased i lease hbefore hs hheld
    · exact absurd (hs ▸ hopen) hclosed

/-- A promise of a blocked Session that is drained in full resolved. -/
theorem BlockWaits.resolved_of_idle (h : Invariant g) {p permits leases : ℕ}
    (hwaits : BlockWaits g s p permits leases k) (hactive : (g.objects k).active = 0)
    (hmutation : (g.objects k).mutation = none) : g.resolved p = true := by
  by_contra hpending
  exact h.settled k true p (hwaits.pending (by simpa using hpending)) ⟨hactive, fun _ => hmutation⟩

theorem BlockWaits.resolved_of_released (h : Invariant g) {p permits leases : ℕ}
    (hwaits : BlockWaits g s p permits leases k) (hbefore : g.ReleasedBefore s permits leases) :
    g.resolved p = true := by
  refine hwaits.resolved_of_idle h ?_ ?_
  · by_contra hactive
    obtain ⟨permit, hmem, hs, hnot⟩ := h.entered hwaits.states hactive
    obtain ⟨i, hi⟩ := List.mem_iff_getElem?.1 hmem
    rw [hbefore.1 i permit (hwaits.entered i permit hi hs hnot) hi hs] at hnot
    cases hnot
  · by_contra hmutation
    obtain ⟨i, lease, hi, hs, hnot⟩ := h.leased hwaits.states hmutation
    rw [hbefore.2 i lease (hwaits.leased i lease hi hs hnot) hi hs] at hnot
    cases hnot

/-- The gate is released only once the promise of the block resolved. -/
theorem BlockWaits.resolved_of_unblocks (h : Invariant g) {p permits leases : ℕ}
    (hwaits : BlockWaits g s p permits leases k) {e : OperationGateEvent} (he : Unblocks s g e) :
    g.resolved p = true := by
  obtain ⟨rfl, hdone⟩ := he
  have hanswer : (g.release s).2 = .done := hdone
  unfold SessionOperationGate.release at hanswer
  rw [hwaits.states] at hanswer
  dsimp only at hanswer
  split_ifs at hanswer with hbusy
  simp only [not_or, not_not] at hbusy
  exact hwaits.resolved_of_idle h hbusy.1 hbusy.2

/-- Until the gate is released, and after it the promise resolved. -/
theorem BlockWaits.after (h : Invariant g) {p permits leases : ℕ}
    (hwaits : BlockWaits g s p permits leases k) (es : List OperationGateEvent) :
    Invariant (operationGateSystem.after g es) ∧
      ((operationGateSystem.after g es).resolved p = true ∨
        BlockWaits (operationGateSystem.after g es) s p permits leases k) := by
  have hkept := operationGateSystem.after_invariant (G := fun _ _ => True)
    (P := fun g => Invariant g ∧ p < g.promised ∧
      (g.resolved p = true ∨ BlockWaits g s p permits leases k)) (fun g e hg _ => ?_)
    ⟨h, hwaits.promised, .inr hwaits⟩ (operationGateSystem.along_true g es)
  · exact ⟨hkept.1, hkept.2.2⟩
  · obtain ⟨hinv, hp, hstate⟩ := hg
    have hgrows := grows_step hinv e
    refine ⟨invariant_step hinv e, Nat.lt_of_lt_of_le hp hgrows.promised, ?_⟩
    rcases hstate with hres | hwait
    · exact .inl (hgrows.resolved p hp hres)
    by_cases he : Unblocks s g e
    · exact .inl (hgrows.resolved p hp (hwait.resolved_of_unblocks hinv he))
    · exact .inr (hwait.step hinv he)

/-- A blocked Session whose promise resolved is closed until the gate is released. -/
theorem BlockWaits.closed_after (h : Invariant g) {p permits leases : ℕ}
    (hwaits : BlockWaits g s p permits leases k) {es : List OperationGateEvent}
    (halong : operationGateSystem.Along (fun g e => ¬ Unblocks s g e) g es)
    (hres : (operationGateSystem.after g es).resolved p = true) :
    (operationGateSystem.after g es).Closed s ∧ ¬ (operationGateSystem.after g es).Leased s ∧
      ((operationGateSystem.after g es).tryAcquireExclusive s).2 = .acquired none := by
  obtain ⟨hinv, hwait⟩ := operationGateSystem.after_invariant
    (P := fun g => Invariant g ∧ BlockWaits g s p permits leases k)
    (fun _ e hg he => ⟨invariant_step hg.1 e, hg.2.step hg.1 he⟩) ⟨h, hwaits⟩ halong
  obtain ⟨hactive, hmutation⟩ := hwait.resolved hres
  refine ⟨⟨hinv.not_entered hwait.states hactive, ?_⟩, hinv.not_leased hwait.states hmutation, ?_⟩
  · rw [tryEnter_refused hwait.states (.inl hwait.deleting)]
  · rw [tryAcquireExclusive_refused hwait.states (.inl hwait.deleting)]

/-! ## The gate as a lock -/

open SessionOperationGate

/-- From when it is drained until it is released a lease is alone, and a Session has at most one. A
late release changes nothing, and an idle Session has no record. A promise that resolved stays so. A
drain resolves once no operation is active, and, while its lease is held, once those that entered before
it released. The promise of a block resolves once those that entered before it released, and from then
until the gate is released nothing is active and nothing enters. -/
theorem gate_locks (h : operationGateSystem.Reachable g) :
    g.LeasesAlone ∧ g.OneLease ∧ g.LateReleasesIdle ∧ g.IdleDropped ∧
    (∀ es p, p < g.promised → g.resolved p = true →
      (operationGateSystem.after g es).resolved p = true) ∧
    (∀ lease ∈ g.leases, ¬ g.Entered lease.sessionId → g.resolved lease.drained = true) ∧
    (∀ (s : String) (i : ℕ), (g.tryAcquireExclusive s).2 = .acquired (some i) → ∀ es lease,
      (operationGateSystem.after g (.tryAcquireExclusive s :: es)).leases[i]? = some lease →
      lease.released = false →
      (operationGateSystem.after g (.tryAcquireExclusive s :: es)).ReleasedBefore s
        g.permits.length 0 →
      (operationGateSystem.after g (.tryAcquireExclusive s :: es)).resolved lease.drained = true) ∧
    ∀ (s : String) (p : ℕ), (g.block s).2 = .blocked p → ∀ es,
      ((operationGateSystem.after g (.block s :: es)).ReleasedBefore s g.permits.length
          g.leases.length →
        (operationGateSystem.after g (.block s :: es)).resolved p = true) ∧
      (operationGateSystem.Along (fun g e => ¬ Unblocks s g e) (g.block s).1 es →
        (operationGateSystem.after g (.block s :: es)).resolved p = true →
        (operationGateSystem.after g (.block s :: es)).Closed s ∧
          ¬ (operationGateSystem.after g (.block s :: es)).Leased s ∧
          ((operationGateSystem.after g (.block s :: es)).tryAcquireExclusive s).2 =
            .acquired none) := by
  have hinv := invariant_of_reachable h
  refine ⟨hinv.leasesAlone, hinv.oneLease, hinv.lateReleasesIdle, hinv.idleDropped,
    fun es p hp hres => resolved_after hinv hp hres es,
    fun lease hmem hnot => hinv.drained_of_not_entered hmem hnot,
    fun s i htaken es lease hi hheld hbefore => ?_, fun s p hblocked es => ?_⟩
  · obtain ⟨hafter, hwaits⟩ := (LeaseWaits.taken_of hinv htaken).after (hinv.tryAcquireExclusive s) es
    exact hwaits.drained hafter hi hheld hbefore
  · obtain ⟨k, hwaits⟩ := BlockWaits.blocked hinv hblocked
    refine ⟨fun hbefore => ?_, hwaits.closed_after (hinv.block s)⟩
    obtain ⟨hafter, hres | hwait⟩ := hwaits.after (hinv.block s) es
    · exact hres
    · exact hwait.resolved_of_released hafter hbefore

/-- A block waits for the operation that entered before it. -/
theorem gate_locks_blocked :
    (operationGateSystem.after .initial [.tryEnter "s", .block "s"]).resolved 0 = false ∧
      (operationGateSystem.after .initial [.tryEnter "s", .block "s", .releasePermit 0]).resolved 0 =
        true := by
  refine ⟨by decide, ?_⟩
  obtain ⟨-, -, -, -, -, -, -, hblocks⟩ := gate_locks
    (g := operationGateSystem.after .initial [.tryEnter "s"]) ⟨_, rfl⟩
  refine (hblocks "s" 0 (by decide) [.releasePermit 0]).1
    ⟨fun i permit hi hget _ => ?_, fun i lease hi => absurd hi (Nat.not_lt_zero i)⟩
  have hzero : i = 0 := Nat.lt_one_iff.1 hi
  subst hzero
  have hpermit : some permit = some ⟨"s", 0, true⟩ := hget.symm.trans (by decide)
  cases hpermit
  rfl

/-- The lease is released early, another operation enters, and the drain waits for it too though the
only operation that entered before the drain was asked for released. -/
theorem drain_waits_for_later :
    ¬ ∀ g, operationGateSystem.Reachable g → ∀ (s : String) (i : ℕ),
      (g.tryAcquireExclusive s).2 = .acquired (some i) → ∀ es lease,
      (operationGateSystem.after g (.tryAcquireExclusive s :: es)).leases[i]? = some lease →
      (operationGateSystem.after g (.tryAcquireExclusive s :: es)).ReleasedBefore s
        g.permits.length g.leases.length →
      (operationGateSystem.after g (.tryAcquireExclusive s :: es)).resolved lease.drained = true := by
  intro h
  have hdrained := h _ ⟨[.tryEnter "s"], rfl⟩ "s" 0 (by decide)
    [.releaseLease 0, .tryEnter "s", .releasePermit 0] ⟨"s", 0, 0, true⟩ (by decide) ?_
  · exact absurd hdrained (by decide)
  · refine ⟨fun i permit hi hget _ => ?_, fun i lease hi => absurd hi (Nat.not_lt_zero i)⟩
    have hzero : i = 0 := Nat.lt_one_iff.1 hi
    subst hzero
    have hpermit : some permit = some ⟨"s", 0, true⟩ := hget.symm.trans (by decide)
    cases hpermit
    rfl

end SessionOperationGate

end Kinetick
