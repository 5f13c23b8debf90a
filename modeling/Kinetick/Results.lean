import Mathlib.Data.List.Forall2

/-!
# Results that may be errors

What an `Except` computation that answers has answered at each of its steps, and what mapping one over
a list answers.
-/

namespace Kinetick

variable {ε α β : Type}

theorem bind_eq_ok {x : Except ε α} {f : α → Except ε β} {b : β} :
    (x >>= f) = .ok b ↔ ∃ a, x = .ok a ∧ f a = .ok b := by
  cases x with
  | error e => simp [bind, Except.bind]
  | ok a => simp [bind, Except.bind]

theorem mapM_ok {f : α → Except ε β} {l : List α} (h : ∀ x ∈ l, ∃ y, f x = .ok y) :
    ∃ ys, l.mapM f = .ok ys ∧ List.Forall₂ (fun x y => f x = .ok y) l ys := by
  induction l with
  | nil => exact ⟨[], rfl, .nil⟩
  | cons x l ih =>
    obtain ⟨y, hy⟩ := h x List.mem_cons_self
    obtain ⟨ys, hys, hforall⟩ := ih fun x' hx' => h x' (List.mem_cons_of_mem _ hx')
    refine ⟨y :: ys, ?_, .cons hy hforall⟩
    rw [List.mapM_cons, bind_eq_ok]
    refine ⟨y, hy, ?_⟩
    rw [hys]
    rfl

end Kinetick
