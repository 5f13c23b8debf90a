import Kinetick.Async

/-!
# Computations that may die

Against what answers every ask, a computation goes through the states in which it asks. It may die
in any of them, and what it leaves then is that state. `Keeps` is the rule of what holds in all of
them and of what it ends in, and `Yields` that of a computation whose end is known.
-/

namespace Kinetick.Async

variable {κ : Type} {ρ : κ → Type} {ε α β σ : Type}

section

variable (answer : (c : κ) → σ → ρ c × σ)

/-- What a computation leaves that dies after so many answers. -/
def cut : ℕ → Async κ ρ ε α → σ → σ
  | 0, _, s => s
  | _ + 1, ret _, s => s
  | n + 1, ask c next, s => cut n (next (answer c s).1) (answer c s).2

/-- Wherever the computation asks `J` holds, and where it ends `Q` does. -/
def Keeps (J : σ → Prop) (Q : Except ε α → σ → Prop) : Async κ ρ ε α → σ → Prop
  | ret r, s => Q r s
  | ask c next, s => J s ∧ Keeps J Q (next (answer c s).1) (answer c s).2

/-- The computation ends in the answer and the state. -/
def Yields (J : σ → Prop) (m : Async κ ρ ε α) (s : σ) (a : α) (s' : σ) : Prop :=
  m.Keeps answer J (fun r t => r = .ok a ∧ t = s') s

/-- The computation throws, in the state. -/
def Throws (J : σ → Prop) (m : Async κ ρ ε α) (s s' : σ) : Prop :=
  m.Keeps answer J (fun r t => (∃ e, r = .error e) ∧ t = s') s

end

variable {answer : (c : κ) → σ → ρ c × σ} {J : σ → Prop}

theorem Keeps.mono {Q Q' : Except ε α → σ → Prop} (hQ : ∀ r s, Q r s → Q' r s)
    {m : Async κ ρ ε α} {s : σ} (h : m.Keeps answer J Q s) : m.Keeps answer J Q' s := by
  induction m generalizing s with
  | ret r => exact hQ r s h
  | ask c next ih => exact ⟨h.1, ih _ h.2⟩

theorem Keeps.bind {Q : Except ε α → σ → Prop} {R : Except ε β → σ → Prop} {m : Async κ ρ ε α}
    {f : α → Async κ ρ ε β} {s : σ} (h : m.Keeps answer J Q s)
    (hok : ∀ s a, Q (.ok a) s → (f a).Keeps answer J R s)
    (herror : ∀ s e, Q (.error e) s → R (.error e) s) : (m >>= f).Keeps answer J R s := by
  induction m generalizing s with
  | ret r =>
    rcases r with e | a
    · exact herror s e h
    · exact hok s a h
  | ask c next ih => exact ⟨h.1, ih _ h.2⟩

theorem Keeps.attempt {Q : Except ε α → σ → Prop} {R : Except ε (Except ε α) → σ → Prop}
    {m : Async κ ρ ε α} {s : σ} (h : m.Keeps answer J Q s) (hR : ∀ r s, Q r s → R (.ok r) s) :
    m.attempt.Keeps answer J R s := by
  induction m generalizing s with
  | ret r => exact hR r s h
  | ask c next ih => exact ⟨h.1, ih _ h.2⟩

/-- A computation that dies leaves what holds wherever it asks. -/
theorem Keeps.cut {Q : Except ε α → σ → Prop} {m : Async κ ρ ε α} {s : σ}
    (h : m.Keeps answer J Q s) (hQ : ∀ r s, Q r s → J s) (n : ℕ) : J (m.cut answer n s) := by
  induction m generalizing s n with
  | ret r => cases n <;> exact hQ r s h
  | ask c next ih =>
    cases n with
    | zero => exact h.1
    | succ n => exact ih _ h.2 n

theorem Keeps.perform {Q : Except ε α → σ → Prop} {m : Async κ ρ ε α} {s : σ}
    (h : m.Keeps answer J Q s) : Q (m.perform answer s).1 (m.perform answer s).2 := by
  induction m generalizing s with
  | ret r => exact h
  | ask c next ih => exact ih _ h.2

theorem Yields.pure (a : α) (s : σ) : (pure a : Async κ ρ ε α).Yields answer J s a s := ⟨rfl, rfl⟩

theorem Yields.request {c : κ} {s : σ} (h : J s) :
    (request c : Async κ ρ ε (ρ c)).Yields answer J s (answer c s).1 (answer c s).2 :=
  ⟨h, rfl, rfl⟩

/-- After a computation whose end is known the next goes on from there. -/
theorem Yields.bind_keeps {R : Except ε β → σ → Prop} {m : Async κ ρ ε α}
    {f : α → Async κ ρ ε β} {s s' : σ} {a : α} (h : m.Yields answer J s a s')
    (hf : (f a).Keeps answer J R s') : (m >>= f).Keeps answer J R s := by
  refine Keeps.bind h ?_ ?_
  · rintro t b ⟨hb, rfl⟩
    rw [Except.ok.inj hb]
    exact hf
  · rintro t e ⟨he, -⟩
    cases he

theorem Yields.bind {m : Async κ ρ ε α} {f : α → Async κ ρ ε β} {s s' s'' : σ} {a : α} {b : β}
    (h : m.Yields answer J s a s') (hf : (f a).Yields answer J s' b s'') :
    (m >>= f).Yields answer J s b s'' :=
  h.bind_keeps hf

theorem Yields.bind_throws {m : Async κ ρ ε α} {f : α → Async κ ρ ε β} {s s' s'' : σ} {a : α}
    (h : m.Yields answer J s a s') (hf : (f a).Throws answer J s' s'') :
    (m >>= f).Throws answer J s s'' :=
  h.bind_keeps hf

/-- What follows a throw is not run. -/
theorem Throws.bind {m : Async κ ρ ε α} {f : α → Async κ ρ ε β} {s s' : σ}
    (h : m.Throws answer J s s') : (m >>= f).Throws answer J s s' := by
  refine Keeps.bind h ?_ ?_
  · rintro t a ⟨⟨e, he⟩, -⟩
    cases he
  · rintro t e ⟨-, rfl⟩
    exact ⟨⟨e, rfl⟩, rfl⟩

theorem Throws.raise (e : ε) (s : σ) : (raise e : Async κ ρ ε α).Throws answer J s s :=
  ⟨⟨e, rfl⟩, rfl⟩

theorem Yields.attempt {m : Async κ ρ ε α} {s s' : σ} {a : α} (h : m.Yields answer J s a s') :
    m.attempt.Yields answer J s (.ok a) s' :=
  Keeps.attempt h fun _ _ hr => ⟨congrArg _ hr.1, hr.2⟩

end Kinetick.Async
