import Mathlib.Data.List.Basic

/-!
# Runs of a machine that answers every event

A machine takes an event in a state to a next state and an answer. A run is what a list of events
makes of a state. `Along G` says every step of a run meets `G` in the state it starts from, and
the rules below lift what one step keeps to what a run keeps.
-/

namespace Kinetick

/-- A machine: its first state, and what an event makes of a state and answers. -/
structure Machine (σ ε ω : Type*) where
  initial : σ
  step : σ → ε → σ × ω

namespace Machine

variable {σ ε ω : Type*} (M : Machine σ ε ω)

/-- The state a run ends in. -/
def after (s : σ) : List ε → σ
  | [] => s
  | e :: es => after (M.step s e).1 es

/-- The answers of a run, in order. -/
def answers (s : σ) : List ε → List ω
  | [] => []
  | e :: es => (M.step s e).2 :: answers (M.step s e).1 es

/-- Every step of the run meets `G` in the state before it. -/
def Along (G : σ → ε → Prop) (s : σ) : List ε → Prop
  | [] => True
  | e :: es => G s e ∧ Along G (M.step s e).1 es

/-- Every state of the run is in `P`. -/
def Throughout (P : σ → Prop) (s : σ) : List ε → Prop
  | [] => P s
  | e :: es => P s ∧ Throughout P (M.step s e).1 es

/-- The states the runs from the first state end in. -/
def Reachable (s : σ) : Prop := ∃ es, M.after M.initial es = s

@[simp] theorem after_nil (s : σ) : M.after s [] = s := rfl

@[simp] theorem after_cons (s : σ) (e : ε) (es : List ε) :
    M.after s (e :: es) = M.after (M.step s e).1 es := rfl

@[simp] theorem along_nil (G : σ → ε → Prop) (s : σ) : M.Along G s [] := trivial

@[simp] theorem along_cons (G : σ → ε → Prop) (s : σ) (e : ε) (es : List ε) :
    M.Along G s (e :: es) ↔ G s e ∧ M.Along G (M.step s e).1 es := Iff.rfl

instance decidableAlong (G : σ → ε → Prop) [∀ s e, Decidable (G s e)] :
    ∀ (s : σ) (es : List ε), Decidable (M.Along G s es)
  | _, [] => .isTrue trivial
  | s, e :: es =>
    have := decidableAlong G (M.step s e).1 es
    inferInstanceAs (Decidable (G s e ∧ M.Along G (M.step s e).1 es))

theorem after_append (s : σ) (es fs : List ε) :
    M.after s (es ++ fs) = M.after (M.after s es) fs := by
  induction es generalizing s with
  | nil => rfl
  | cons e es ih => exact ih _

/-- The answer to an event is that of its step in the state the events before it lead to. -/
theorem getElem?_answers (s : σ) (es : List ε) (n : ℕ) :
    (M.answers s es)[n]? = es[n]?.map fun e => (M.step (M.after s (es.take n)) e).2 := by
  induction es generalizing s n with
  | nil => rfl
  | cons e es ih =>
    cases n with
    | zero => rfl
    | succ n => exact ih _ n

theorem along_append (G : σ → ε → Prop) (s : σ) (es fs : List ε) :
    M.Along G s (es ++ fs) ↔ M.Along G s es ∧ M.Along G (M.after s es) fs := by
  induction es generalizing s with
  | nil => simp
  | cons e es ih => simp [ih, and_assoc]

theorem Along.mono {M : Machine σ ε ω} {G H : σ → ε → Prop} (hGH : ∀ s e, G s e → H s e) {s : σ}
    {es : List ε} (h : M.Along G s es) : M.Along H s es := by
  induction es generalizing s with
  | nil => trivial
  | cons e es ih => exact ⟨hGH _ _ h.1, ih h.2⟩

theorem Along.and {M : Machine σ ε ω} {G H : σ → ε → Prop} {s : σ} {es : List ε}
    (h : M.Along G s es) (h' : M.Along H s es) : M.Along (fun s e => G s e ∧ H s e) s es := by
  induction es generalizing s with
  | nil => trivial
  | cons e es ih => exact ⟨⟨h.1, h'.1⟩, ih h.2 h'.2⟩

theorem along_true (s : σ) (es : List ε) : M.Along (fun _ _ => True) s es := by
  induction es generalizing s with
  | nil => trivial
  | cons e es ih => exact ⟨trivial, ih _⟩

theorem along_of_forall {E : ε → Prop} (s : σ) {es : List ε} (h : ∀ e ∈ es, E e) :
    M.Along (fun _ e => E e) s es := by
  induction es generalizing s with
  | nil => trivial
  | cons e es ih => exact ⟨h e List.mem_cons_self, ih _ fun e he => h e (List.mem_cons_of_mem _ he)⟩

/-- What every step meeting `G` keeps, every run along `G` keeps. -/
theorem after_invariant {P : σ → Prop} {G : σ → ε → Prop}
    (hstep : ∀ s e, P s → G s e → P (M.step s e).1) {s : σ} {es : List ε}
    (hs : P s) (h : M.Along G s es) : P (M.after s es) := by
  induction es generalizing s with
  | nil => exact hs
  | cons e es ih => exact ih (hstep s e hs h.1) h.2

/-- Where an invariant and `G` make each step good, every run along `G` is good throughout. -/
theorem Along.of_invariant {M : Machine σ ε ω} {P : σ → Prop} {G H : σ → ε → Prop}
    (hstep : ∀ s e, P s → G s e → P (M.step s e).1 ∧ H s e) {s : σ} {es : List ε}
    (hs : P s) (h : M.Along G s es) : M.Along H s es := by
  induction es generalizing s with
  | nil => trivial
  | cons e es ih =>
    obtain ⟨hP, hH⟩ := hstep s e hs h.1
    exact ⟨hH, ih hP h.2⟩

/-- Where an invariant makes a state good, every run along `G` is good throughout. -/
theorem Along.throughout {M : Machine σ ε ω} {P J : σ → Prop} {G : σ → ε → Prop}
    (hgood : ∀ s, J s → P s) (hkeep : ∀ s e, J s → G s e → J (M.step s e).1) {s : σ} {es : List ε}
    (hs : J s) (h : M.Along G s es) : M.Throughout P s es := by
  induction es generalizing s with
  | nil => exact hgood s hs
  | cons e es ih => exact ⟨hgood s hs, ih (hkeep s e hs h.1) h.2⟩

theorem Throughout.after {M : Machine σ ε ω} {P : σ → Prop} {s : σ} {es : List ε}
    (h : M.Throughout P s es) : P (M.after s es) := by
  induction es generalizing s with
  | nil => exact h
  | cons e es ih => exact ih h.2

/-- A relation to the start that steps meeting `G` extend holds along the run. -/
theorem after_relation {R : σ → σ → Prop} {P : σ → Prop} {G : σ → ε → Prop}
    (hrefl : ∀ s, R s s) (htrans : ∀ {a b c}, R a b → R b c → R a c)
    (hP : ∀ s e, P s → G s e → P (M.step s e).1)
    (hstep : ∀ s e, P s → G s e → R s (M.step s e).1) {s : σ} {es : List ε}
    (hs : P s) (h : M.Along G s es) : R s (M.after s es) := by
  induction es generalizing s with
  | nil => exact hrefl s
  | cons e es ih => exact htrans (hstep s e hs h.1) (ih (hP s e hs h.1) h.2)

/-- Where `J` makes a state good, a step meeting `G` keeps it and any other step ends in a bad
state, the runs that are good throughout are the runs along `G`. -/
theorem throughout_iff_along {P J : σ → Prop} {E : ε → Prop} {G : σ → ε → Prop}
    (hgood : ∀ s, J s → P s) (hkeep : ∀ s e, J s → E e → G s e → J (M.step s e).1)
    (hbreak : ∀ s e, J s → E e → P (M.step s e).1 → G s e) {s : σ} {es : List ε} (hs : J s)
    (hes : ∀ e ∈ es, E e) : M.Throughout P s es ↔ M.Along G s es := by
  induction es generalizing s with
  | nil => exact ⟨fun _ => trivial, fun _ => hgood s hs⟩
  | cons e es ih =>
    have he := hes e List.mem_cons_self
    have hrest := fun e h => hes e (List.mem_cons_of_mem _ h)
    constructor
    · rintro ⟨-, hafter⟩
      have hnext : P (M.step s e).1 := by
        cases es with
        | nil => exact hafter
        | cons => exact hafter.1
      have hG := hbreak s e hs he hnext
      exact ⟨hG, (ih (hkeep s e hs he hG) hrest).1 hafter⟩
    · rintro ⟨hG, halong⟩
      exact ⟨hgood s hs, (ih (hkeep s e hs he hG) hrest).2 halong⟩

theorem reachable_initial : M.Reachable M.initial := ⟨[], rfl⟩

theorem Reachable.step {M : Machine σ ε ω} {s : σ} (h : M.Reachable s) (e : ε) :
    M.Reachable (M.step s e).1 := by
  obtain ⟨es, rfl⟩ := h
  exact ⟨es ++ [e], by simp [after_append]⟩

/-- An invariant of every step holds in every reachable state. -/
theorem Reachable.invariant {M : Machine σ ε ω} {P : σ → Prop} (h0 : P M.initial)
    (hstep : ∀ s e, P s → P (M.step s e).1) {s : σ} (h : M.Reachable s) : P s := by
  obtain ⟨es, rfl⟩ := h
  exact M.after_invariant (fun s e hs _ => hstep s e hs) h0 (M.along_true _ es)

end Machine

end Kinetick
