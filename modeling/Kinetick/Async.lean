import Kinetick.Effect

/-!
# Computations that await answers

A computation is a tree over the answers of what it asks: it ends in an answer or an error, or it
asks and goes on by the answer, whenever that comes. What happens between the asking and the answer
is up to whoever answers, so every ask is a point where other computations may run. What a
computation asks of its own surroundings `runLocal` answers at once.

`Leads` is the rule of a computation whose surroundings have a state, and may answer and change it in
more than one way; `Obeys` is the rule of one that besides may ask only so much of them.
-/

namespace Kinetick

/-- A computation that asks `κ`, is answered in `ρ` and ends in an `α` or an `ε`. -/
inductive Async (κ : Type) (ρ : κ → Type) (ε α : Type)
  | ret (r : Except ε α)
  | ask (c : κ) (next : ρ c → Async κ ρ ε α)

namespace Async

variable {κ : Type} {ρ : κ → Type} {ε α β γ : Type}

/-- The first computation and then the second, unless the first throws. -/
def seq : Async κ ρ ε α → (α → Async κ ρ ε β) → Async κ ρ ε β
  | ret (.ok a), f => f a
  | ret (.error e), _ => ret (.error e)
  | ask c next, f => ask c fun r => seq (next r) f

instance : Monad (Async κ ρ ε) where
  pure a := ret (.ok a)
  bind := seq

/-- Throws an error. -/
def raise (e : ε) : Async κ ρ ε α := ret (.error e)

/-- Asks, and answers the answer. -/
def request (c : κ) : Async κ ρ ε (ρ c) := ask c fun r => ret (.ok r)

/-- The computation, where the condition holds. -/
def when (c : Prop) [Decidable c] (m : Async κ ρ ε Unit) : Async κ ρ ε Unit :=
  if c then m else pure ()

/-- Ends in the result of the computation as an answer. -/
def attempt : Async κ ρ ε α → Async κ ρ ε (Except ε α)
  | ret r => ret (.ok r)
  | ask c next => ask c fun r => attempt (next r)

/-- The answer of the first computation, if it has one, and else the second. -/
def firstSome (m : Async κ ρ ε (Option α)) (rest : Async κ ρ ε α) : Async κ ρ ε α := do
  match ← m with
  | some a => return a
  | none => rest

/-- What the computation waits for. -/
def asked : Async κ ρ ε α → Option κ
  | ret _ => none
  | ask c _ => some c

/-- Goes on by an answer to what the computation waits for. -/
def resume [DecidableEq κ] (c : κ) (r : ρ c) : Async κ ρ ε α → Option (Async κ ρ ε α)
  | ret _ => none
  | ask c' next => if h : c = c' then some (next (h ▸ r)) else none

variable {σ : Type}

/-- Answers what the surroundings answer, up to the first ask they do not. -/
def runLocal (answer : (c : κ) → σ → Option (ρ c × σ)) :
    Async κ ρ ε α → σ → Async κ ρ ε α × σ
  | ret r, s => (ret r, s)
  | ask c next, s =>
    match answer c s with
    | none => (ask c next, s)
    | some (r, s) => runLocal answer (next r) s

/-- Runs a computation against what answers every ask. -/
def perform (answer : (c : κ) → σ → ρ c × σ) : Async κ ρ ε α → Effect σ ε α
  | ret r => fun s => (r, s)
  | ask c next => fun s => perform answer (next (answer c s).1) (answer c s).2

theorem resume_some [DecidableEq κ] {c : κ} {r : ρ c} {m m' : Async κ ρ ε α}
    (h : m.resume c r = some m') : ∃ next, m = ask c next ∧ m' = next r := by
  rcases m with _ | ⟨c', next⟩
  · cases h
  · simp only [resume] at h
    split_ifs at h with hc
    subst hc
    cases h
    exact ⟨next, rfl, rfl⟩

/-! ## Surroundings with a state -/

section

variable (does : (c : κ) → σ → ρ c → σ → Prop)

/-- Whatever the surroundings do, the computation ends in `Q`. -/
def Leads (Q : Except ε α → σ → Prop) : Async κ ρ ε α → σ → Prop
  | ret r, s => Q r s
  | ask c next, s => ∀ r s', does c s r s' → Leads Q (next r) s'

variable {does}

theorem Leads.mono {Q Q' : Except ε α → σ → Prop} (hQ : ∀ r s, Q r s → Q' r s)
    {m : Async κ ρ ε α} {s : σ} (h : m.Leads does Q s) : m.Leads does Q' s := by
  induction m generalizing s with
  | ret r => exact hQ r s h
  | ask c next ih => exact fun r s' hr => ih r (h r s' hr)

theorem Leads.bind {Q : Except ε α → σ → Prop} {R : Except ε β → σ → Prop} {m : Async κ ρ ε α}
    {f : α → Async κ ρ ε β} {s : σ} (h : m.Leads does Q s)
    (hok : ∀ s a, Q (.ok a) s → (f a).Leads does R s)
    (herror : ∀ s e, Q (.error e) s → R (.error e) s) : (m >>= f).Leads does R s := by
  induction m generalizing s with
  | ret r =>
    rcases r with e | a
    · exact herror s e h
    · exact hok s a h
  | ask c next ih => exact fun r s' hr => ih r (h r s' hr)

/-- In sequence after an attempt, which does not throw. -/
theorem Leads.bind_attempt {Q : Except ε α → σ → Prop} {R : Except ε β → σ → Prop}
    {m : Async κ ρ ε α} {f : Except ε α → Async κ ρ ε β} {s : σ} (h : m.Leads does Q s)
    (hresult : ∀ s r, Q r s → (f r).Leads does R s) : (m.attempt >>= f).Leads does R s := by
  induction m generalizing s with
  | ret r => exact hresult s r h
  | ask c next ih => exact fun r s' hr => ih r (h r s' hr)

end

section

variable (may : κ → σ → Prop) (does : (c : κ) → σ → ρ c → σ → Prop)

/-- Whatever the surroundings do, the computation asks only what it may, and ends in `Q`. -/
def Obeys (Q : Except ε α → σ → Prop) : Async κ ρ ε α → σ → Prop
  | ret r, s => Q r s
  | ask c next, s => may c s ∧ ∀ r s', does c s r s' → Obeys Q (next r) s'

variable {may does}

theorem Obeys.mono {Q Q' : Except ε α → σ → Prop} (hQ : ∀ r s, Q r s → Q' r s)
    {m : Async κ ρ ε α} {s : σ} (h : m.Obeys may does Q s) : m.Obeys may does Q' s := by
  induction m generalizing s with
  | ret r => exact hQ r s h
  | ask c next ih => exact ⟨h.1, fun r s' hr => ih r (h.2 r s' hr)⟩

theorem Obeys.bind {Q : Except ε α → σ → Prop} {R : Except ε β → σ → Prop} {m : Async κ ρ ε α}
    {f : α → Async κ ρ ε β} {s : σ} (h : m.Obeys may does Q s)
    (hok : ∀ s a, Q (.ok a) s → (f a).Obeys may does R s)
    (herror : ∀ s e, Q (.error e) s → R (.error e) s) : (m >>= f).Obeys may does R s := by
  induction m generalizing s with
  | ret r =>
    rcases r with e | a
    · exact herror s e h
    · exact hok s a h
  | ask c next ih => exact ⟨h.1, fun r s' hr => ih r (h.2 r s' hr)⟩

/-- In sequence after an attempt, which does not throw. -/
theorem Obeys.bind_attempt {Q : Except ε α → σ → Prop} {R : Except ε β → σ → Prop}
    {m : Async κ ρ ε α} {f : Except ε α → Async κ ρ ε β} {s : σ} (h : m.Obeys may does Q s)
    (hresult : ∀ s r, Q r s → (f r).Obeys may does R s) :
    (m.attempt >>= f).Obeys may does R s := by
  induction m generalizing s with
  | ret r => exact hresult s r h
  | ask c next ih => exact ⟨h.1, fun r s' hr => ih r (h.2 r s' hr)⟩

end

end Async

end Kinetick
