import Mathlib.Data.Finset.Dedup
import Mathlib.Data.Finset.Erase
import Mathlib.Data.Finset.Lattice.Basic
import Mathlib.Data.Finset.SDiff
import Mathlib.Data.List.Count

/-!
# A mailbox whose consumer claims what it takes

Offered items wait in order. A consumer drains them all, and each drained item is claimed until the
consumer acknowledges it or gives it back. A mailbox that ends hands what still waits to somebody
else: `flush` and `stop` keep the claims, so that an item given back later still goes somewhere,
while `drop` forgets them.

`Seen` is what the callers see of one step, and `Stand` follows one item through what was seen. The
result is what it takes for no item to be lost or handed on twice: nothing is given back that was
claimed when the claims were dropped.
-/

namespace Kinetick

/-- Waiting items, claimed items, every item ever taken in, and whether the mailbox has stopped. -/
structure Mailbox (α : Type*) where
  pending : List α
  claims : Finset α
  known : Finset α
  stopped : Bool

namespace Mailbox

variable {α : Type*}

/-- What the callers see of a step. -/
structure Seen (α : Type*) where
  accepted : Option α := none
  diverted : Option α := none
  drained : List α := []
  acked : List α := []
  restored : List α := []
  handed : List α := []
  dropped : Bool := false

/-- Where an item stands, by what was seen: `claimed true` was claimed when the claims
were dropped. -/
inductive Stand
  | unseen
  | diverted
  | pending
  | claimed (beforeDrop : Bool)
  | acknowledged
  | handed
  deriving DecidableEq

variable [DecidableEq α]

/-- What a step makes of where an item stands. -/
def Stand.next (seen : Seen α) (i : α) : Stand → Stand
  | unseen =>
    if seen.accepted = some i then pending
    else if seen.diverted = some i then diverted else unseen
  | pending =>
    if i ∈ seen.handed then handed else if i ∈ seen.drained then claimed false else pending
  | claimed beforeDrop =>
    if i ∈ seen.acked then acknowledged
    else if i ∈ seen.restored then (if i ∈ seen.handed then handed else pending)
    else claimed (beforeDrop || seen.dropped)
  | s => s

/-- What is done with a mailbox. `divert` takes an item in elsewhere. -/
inductive Action (α : Type*)
  | skip
  | offer (i : α)
  | divert (i : α)
  | drain
  | ack (is : List α)
  | restore (is : List α)
  | flush
  | drop
  | stop

/-- The items given back that are claimed, each once. -/
def giveBack (claims : Finset α) : List α → List α
  | [] => []
  | i :: is => if i ∈ claims then i :: giveBack (claims.erase i) is else giveBack claims is

/-- What an action makes of the mailbox and shows. -/
def step (m : Mailbox α) : Action α → Mailbox α × Seen α
  | .skip => (m, {})
  | .offer i =>
    (if i ∈ m.known then m else { m with pending := m.pending ++ [i], known := insert i m.known },
      { accepted := some i })
  | .divert i => ({ m with known := insert i m.known }, { diverted := some i })
  | .drain =>
    ({ m with pending := [], claims := m.claims ∪ m.pending.toFinset }, { drained := m.pending })
  | .ack is => ({ m with claims := m.claims \ is.toFinset }, { acked := is })
  | .restore is =>
    let back := giveBack m.claims is
    ({ m with
        pending := if m.stopped then m.pending else back ++ m.pending
        claims := m.claims \ is.toFinset },
      { restored := is, handed := if m.stopped then back else [] })
  | .flush => ({ m with pending := [] }, { handed := m.pending })
  | .drop => ({ m with pending := [], claims := ∅ }, { handed := m.pending, dropped := true })
  | .stop => ({ m with pending := [], stopped := true }, { handed := m.pending })

theorem step_offer_known {m : Mailbox α} {i : α} (h : i ∈ m.known) :
    m.step (.offer i) = (m, { accepted := some i }) := by
  rw [step, if_pos h]

theorem step_offer_new {m : Mailbox α} {i : α} (h : i ∉ m.known) :
    m.step (.offer i) = ({ m with pending := m.pending ++ [i], known := insert i m.known },
      { accepted := some i }) := by
  rw [step, if_neg h]

theorem step_divert_known {m : Mailbox α} {i : α} (h : i ∈ m.known) :
    m.step (.divert i) = (m, { diverted := some i }) := by
  rw [step, Finset.insert_eq_of_mem h]

/-- An item is offered only while the mailbox has not stopped. -/
def Enabled (m : Mailbox α) : Action α → Prop
  | .offer _ => m.stopped = false
  | _ => True

/-- The item is where it stands: waiting once and to be drained, or handed over once. -/
structure ConservesAt (m : Mailbox α) (i : α) (stand : Stand) (handed : ℕ) : Prop where
  pending : m.pending.count i = if stand = .pending then 1 else 0
  handed : handed = if stand = .handed then 1 else 0
  drainable : stand = .pending → m.stopped = false

/-- Every item is where it stands. -/
def Conserves (m : Mailbox α) (stand : α → Stand) (handed : List α) : Prop :=
  ∀ i, m.ConservesAt i (stand i) (handed.count i)

/-- The claims and the known items agree with where the item stands as well. -/
structure KeptAt (m : Mailbox α) (i : α) (stand : Stand) (handed : ℕ) : Prop
    extends ConservesAt m i stand handed where
  claims : i ∈ m.claims ↔ stand = .claimed false
  known : i ∈ m.known ↔ stand ≠ .unseen

def Kept (m : Mailbox α) (stand : α → Stand) (handed : List α) : Prop :=
  ∀ i, m.KeptAt i (stand i) (handed.count i)

theorem count_giveBack (claims : Finset α) (is : List α) (i : α) :
    (giveBack claims is).count i = if i ∈ claims ∧ i ∈ is then 1 else 0 := by
  induction is generalizing claims with
  | nil => simp [giveBack]
  | cons j is ih =>
    unfold giveBack
    by_cases hj : j ∈ claims
    · rw [if_pos hj, List.count_cons, ih]
      by_cases hij : i = j
      · subst hij
        simp [hj]
      · simp [hij, Ne.symm hij]
    · rw [if_neg hj, ih]
      by_cases hij : i = j
      · subst hij
        simp [hj]
      · simp [hij]

/-- An empty mailbox keeps. -/
theorem kept_empty (stopped : Bool) :
    Kept (⟨[], ∅, ∅, stopped⟩ : Mailbox α) (fun _ => .unseen) [] :=
  fun i => ⟨⟨by simp, by simp, by simp⟩, by simp, by simp⟩

section Steps

variable {m : Mailbox α} {i : α} {s : Stand} {k : ℕ}

theorem ConservesAt.mem_pending (h : m.ConservesAt i s k) : i ∈ m.pending ↔ s = .pending := by
  rw [← List.count_pos_iff, h.pending]
  split_ifs with hs <;> simp [hs]

theorem KeptAt.offer (h : m.KeptAt i s k) (j : α) (hopen : m.stopped = false) :
    (m.step (.offer j)).1.KeptAt i (s.next (m.step (.offer j)).2 i) k := by
  obtain ⟨⟨hp, hk, hd⟩, hc, hn⟩ := h
  rcases eq_or_ne i j with rfl | hij
  · by_cases hj : i ∈ m.known <;> cases s <;> refine ⟨⟨?_, ?_, ?_⟩, ?_, ?_⟩ <;>
      simp_all [step, Stand.next]
  · have hji := hij.symm
    by_cases hj : j ∈ m.known <;> cases s <;> refine ⟨⟨?_, ?_, ?_⟩, ?_, ?_⟩ <;>
      simp_all [step, Stand.next]

theorem KeptAt.divert (h : m.KeptAt i s k) (j : α) :
    (m.step (.divert j)).1.KeptAt i (s.next (m.step (.divert j)).2 i) k := by
  obtain ⟨⟨hp, hk, hd⟩, hc, hn⟩ := h
  rcases eq_or_ne i j with rfl | hij
  · cases s <;> refine ⟨⟨?_, ?_, ?_⟩, ?_, ?_⟩ <;> simp_all [step, Stand.next]
  · have hji := hij.symm
    cases s <;> refine ⟨⟨?_, ?_, ?_⟩, ?_, ?_⟩ <;> simp_all [step, Stand.next]

theorem KeptAt.drain (h : m.KeptAt i s k) :
    (m.step .drain).1.KeptAt i (s.next (m.step .drain).2 i) k := by
  have hmem := h.mem_pending
  obtain ⟨⟨hp, hk, hd⟩, hc, hn⟩ := h
  cases s <;> refine ⟨⟨?_, ?_, ?_⟩, ?_, ?_⟩ <;> simp_all [step, Stand.next]

theorem KeptAt.ack (h : m.KeptAt i s k) (is : List α) :
    (m.step (.ack is)).1.KeptAt i (s.next (m.step (.ack is)).2 i) k := by
  obtain ⟨⟨hp, hk, hd⟩, hc, hn⟩ := h
  by_cases hi : i ∈ is <;> cases s <;> refine ⟨⟨?_, ?_, ?_⟩, ?_, ?_⟩ <;>
    simp_all [step, Stand.next]

theorem KeptAt.restore (h : m.KeptAt i s k) (is : List α) (hlive : i ∈ is → s ≠ .claimed true) :
    (m.step (.restore is)).1.KeptAt i (s.next (m.step (.restore is)).2 i)
      (k + (m.step (.restore is)).2.handed.count i) := by
  have hback := count_giveBack m.claims is i
  have hmem : i ∈ giveBack m.claims is ↔ i ∈ m.claims ∧ i ∈ is := by
    rw [← List.count_pos_iff, hback]
    split_ifs with hi <;> simp [hi]
  obtain ⟨⟨hp, hk, hd⟩, hc, hn⟩ := h
  by_cases hi : i ∈ is <;> cases hstop : m.stopped <;> rcases s with _ | _ | _ | (_ | _) | _ | _ <;>
    refine ⟨⟨?_, ?_, ?_⟩, ?_, ?_⟩ <;> simp_all [step, Stand.next]

theorem KeptAt.flush (h : m.KeptAt i s k) :
    (m.step .flush).1.KeptAt i (s.next (m.step .flush).2 i)
      (k + (m.step .flush).2.handed.count i) := by
  have hmem := h.mem_pending
  obtain ⟨⟨hp, hk, hd⟩, hc, hn⟩ := h
  cases s <;> refine ⟨⟨?_, ?_, ?_⟩, ?_, ?_⟩ <;> simp_all [step, Stand.next]

theorem KeptAt.stop (h : m.KeptAt i s k) :
    (m.step .stop).1.KeptAt i (s.next (m.step .stop).2 i)
      (k + (m.step .stop).2.handed.count i) := by
  have hmem := h.mem_pending
  obtain ⟨⟨hp, hk, hd⟩, hc, hn⟩ := h
  cases s <;> refine ⟨⟨?_, ?_, ?_⟩, ?_, ?_⟩ <;> simp_all [step, Stand.next]

theorem KeptAt.drop (h : m.KeptAt i s k) :
    (m.step .drop).1.KeptAt i (s.next (m.step .drop).2 i)
      (k + (m.step .drop).2.handed.count i) := by
  have hmem := h.mem_pending
  obtain ⟨⟨hp, hk, hd⟩, hc, hn⟩ := h
  cases s <;> refine ⟨⟨?_, ?_, ?_⟩, ?_, ?_⟩ <;> simp_all [step, Stand.next]

/-- An action that gives back nothing dropped keeps every item where it stands. -/
theorem KeptAt.step (h : m.KeptAt i s k) {a : Action α} (hen : m.Enabled a)
    (hlive : i ∈ (m.step a).2.restored → s ≠ .claimed true) :
    (m.step a).1.KeptAt i (s.next (m.step a).2 i) (k + (m.step a).2.handed.count i) := by
  cases a with
  | skip => cases s <;> simpa [Mailbox.step, Stand.next] using h
  | offer j => exact h.offer j hen
  | divert j => exact h.divert j
  | drain => exact h.drain
  | ack is => exact h.ack is
  | restore is => exact h.restore is hlive
  | flush => exact h.flush
  | drop => exact h.drop
  | stop => exact h.stop

/-- A dropped item that is given back is lost. -/
theorem KeptAt.lost (h : m.KeptAt i (.claimed true) k) {a : Action α}
    (hi : i ∈ (m.step a).2.restored) :
    ¬ (m.step a).1.ConservesAt i (Stand.next (m.step a).2 i (.claimed true))
      (k + (m.step a).2.handed.count i) := by
  cases a <;> simp only [Mailbox.step, List.not_mem_nil] at hi
  rename_i is
  have hnone : i ∉ giveBack m.claims is := by
    rw [← List.count_pos_iff, count_giveBack, if_neg (by simp [h.claims])]
    simp
  rintro ⟨hp, -, -⟩
  have hwait : (m.step (.restore is)).1.pending.count i = 0 := by
    have hp0 := h.pending
    cases hstop : m.stopped <;>
      simp_all [Mailbox.step, List.count_eq_zero_of_not_mem]
  have hnext : Stand.next (m.step (.restore is)).2 i (.claimed true) = .pending := by
    cases hstop : m.stopped <;> simp [Mailbox.step, Stand.next, hi, hnone, hstop]
  rw [hwait, hnext] at hp
  simp at hp

end Steps

end Mailbox

end Kinetick
