import Mathlib.Data.List.Basic

/-!
# Computations that change a state and may throw

A computation takes a state to an answer or an error and to the state it leaves: a throw undoes
nothing, and a handler starts from where it happened. `Ensures P m Q` is its rule of pre- and
postcondition, over the answer or error and the state left; `Answers P m Q` is the rule of its
answers alone.
-/

namespace Kinetick

/-- A computation over the states `σ` that answers an `α` or throws an `ε`. -/
def Effect (σ ε α : Type) := σ → Except ε α × σ

namespace Effect

variable {σ ε α β : Type}

instance : Monad (Effect σ ε) where
  pure a := fun s => (.ok a, s)
  bind m f := fun s => match m s with
    | (.ok a, s) => f a s
    | (.error e, s) => (.error e, s)

/-- Throws an error. -/
def raise (e : ε) : Effect σ ε α := fun s => (.error e, s)

/-- Changes the state. -/
def change (f : σ → σ) : Effect σ ε Unit := fun s => (.ok (), f s)

/-- Answers what it reads of the state. -/
def read (f : σ → α) : Effect σ ε α := fun s => (.ok (f s), s)

/-- Answers an answer or throws an error had elsewhere. -/
def ofExcept (r : Except ε α) : Effect σ ε α := fun s => (r, s)

/-- Leaves the state it started from where the computation throws. -/
def atomically (m : Effect σ ε α) : Effect σ ε α := fun s =>
  match m s with
  | (.ok a, s') => (.ok a, s')
  | (.error e, _) => (.error e, s)

/-- Runs a computation for each element in turn. -/
def forEach (f : α → Effect σ ε Unit) : List α → Effect σ ε Unit
  | [] => pure ()
  | a :: as => do
    f a
    forEach f as

/-- Runs a computation for each element in turn and answers their answers. -/
def gather (f : α → Effect σ ε β) : List α → Effect σ ε (List β)
  | [] => pure []
  | a :: as => do
    let b ← f a
    let bs ← gather f as
    return b :: bs

/-- Runs a computation and answers its answer or error. -/
def attempt (m : Effect σ ε α) : Effect σ ε (Except ε α) := fun s => (.ok (m s).1, (m s).2)

/-- The answer of the first computation, if it has one, and else the second. -/
def firstSome (m : Effect σ ε (Option α)) (rest : Effect σ ε α) : Effect σ ε α := do
  match ← m with
  | some a => return a
  | none => rest

@[simp] theorem pure_apply (a : α) (s : σ) : (pure a : Effect σ ε α) s = (.ok a, s) := rfl

@[simp] theorem raise_apply (e : ε) (s : σ) : (raise e : Effect σ ε α) s = (.error e, s) := rfl

@[simp] theorem change_apply (f : σ → σ) (s : σ) :
    (change f : Effect σ ε Unit) s = (.ok (), f s) := rfl

theorem bind_of_ok {m : Effect σ ε α} {f : α → Effect σ ε β} {s s' : σ} {a : α}
    (h : m s = (.ok a, s')) : (m >>= f) s = f a s' := by
  simp only [bind, h]

/-- An answer of a sequence comes from an answer of its first computation. -/
theorem bind_ok {m : Effect σ ε α} {f : α → Effect σ ε β} {s s'' : σ} {b : β}
    (h : (m >>= f) s = (.ok b, s'')) : ∃ a s', m s = (.ok a, s') ∧ f a s' = (.ok b, s'') := by
  rcases hm : m s with ⟨e | a, s'⟩ <;> simp only [bind, hm] at h
  · cases h
  · exact ⟨a, s', rfl, h⟩

theorem pure_ok {a b : α} {s s' : σ} (h : (pure a : Effect σ ε α) s = (.ok b, s')) :
    b = a ∧ s' = s := by
  cases h
  exact ⟨rfl, rfl⟩

theorem read_ok {f : σ → α} {a : α} {s s' : σ} (h : (read f : Effect σ ε α) s = (.ok a, s')) :
    a = f s ∧ s' = s := by
  cases h
  exact ⟨rfl, rfl⟩

theorem change_ok {f : σ → σ} {s s' : σ} (h : (change f : Effect σ ε Unit) s = (.ok (), s')) :
    s' = f s := by
  cases h
  rfl

theorem atomically_ok {m : Effect σ ε α} {a : α} {s s' : σ}
    (h : atomically m s = (.ok a, s')) : m s = (.ok a, s') := by
  unfold atomically at h
  rcases hm : m s with ⟨e | b, s''⟩ <;> rw [hm] at h <;> cases h
  rfl

theorem atomically_of_ok {m : Effect σ ε α} {a : α} {s s' : σ} (h : m s = (.ok a, s')) :
    atomically m s = (.ok a, s') := by
  unfold atomically
  rw [h]

/-- What throws in a transaction leaves the state. -/
theorem atomically_error {m : Effect σ ε α} {e : ε} {s s' : σ}
    (h : atomically m s = (.error e, s')) : s' = s := by
  unfold atomically at h
  rcases hm : m s with ⟨e | b, s''⟩ <;> rw [hm] at h <;> cases h
  rfl

theorem bind_of_error {m : Effect σ ε α} {f : α → Effect σ ε β} {s s' : σ} {e : ε}
    (h : m s = (.error e, s')) : (m >>= f) s = (.error e, s') := by
  simp only [bind, h]

/-- An answer that is only changed leaves the state. -/
theorem bind_pure_state (m : Effect σ ε α) (f : α → β) (s : σ) :
    ((m >>= fun a => pure (f a)) s).2 = (m s).2 := by
  rcases hms : m s with ⟨e | a, s'⟩
  · rw [bind_of_error hms]
  · rw [bind_of_ok hms]
    rfl

theorem firstSome_of_none {m : Effect σ ε (Option α)} {rest : Effect σ ε α} {s s' : σ}
    (h : m s = (.ok none, s')) : firstSome m rest s = rest s' :=
  bind_of_ok h

/-- From a state in `P` the computation ends in `Q`, whether it answers or throws. -/
def Ensures (P : σ → Prop) (m : Effect σ ε α) (Q : Except ε α → σ → Prop) : Prop :=
  ∀ s, P s → Q (m s).1 (m s).2

/-- The computation leaves the states in `P` in `P`. -/
abbrev Keeps (P : σ → Prop) (m : Effect σ ε α) : Prop := Ensures P m fun _ => P

variable {P P' : σ → Prop} {m : Effect σ ε α} {Q Q' : Except ε α → σ → Prop}

theorem Ensures.mono (h : Ensures P m Q) (hP : ∀ s, P' s → P s) (hQ : ∀ r s, Q r s → Q' r s) :
    Ensures P' m Q' :=
  fun s hs => hQ _ _ (h s (hP s hs))

theorem keeps_pure (a : α) : Keeps P (pure a : Effect σ ε α) := fun _ hs => hs

theorem keeps_raise (e : ε) : Keeps P (raise e : Effect σ ε α) := fun _ hs => hs

/-- In sequence: what the first ensures is where the second starts, unless the first throws. -/
theorem Ensures.bind {f : α → Effect σ ε β} {R : Except ε β → σ → Prop} (h : Ensures P m Q)
    (hok : ∀ a, Ensures (Q (.ok a)) (f a) R) (herror : ∀ e s, Q (.error e) s → R (.error e) s) :
    Ensures P (m >>= f) R := by
  intro s hs
  have hm := h s hs
  rcases hms : m s with ⟨r | a, s'⟩ <;> rw [hms] at hm
  · rw [bind_of_error hms]
    exact herror r s' hm
  · rw [bind_of_ok hms]
    exact hok a s' hm

/-- In sequence, where the answer does not matter. -/
theorem Ensures.bind_keeps {f : α → Effect σ ε β} {R : σ → Prop} (h : Ensures P m fun _ => R)
    (hf : ∀ a, Keeps R (f a)) : Ensures P (m >>= f) fun _ => R :=
  h.bind hf fun _ _ hs => hs

/-- Where the first computation ends in `R` unless it has no answer, and the second does anyway. -/
theorem ensures_firstSome {m : Effect σ ε (Option α)} {rest : Effect σ ε α} {R : σ → Prop}
    (h : Ensures P m fun r s => r = .ok none ∨ R s)
    (hrest : Ensures (fun _ => True) rest fun _ => R) : Ensures P (firstSome m rest) fun _ => R := by
  refine h.bind (fun a => ?_) fun e s h => h.resolve_left (by simp)
  rcases a with _ | a
  · exact fun s _ => hrest s trivial
  · exact fun s h => h.resolve_left (by simp)

/-- Where the first computation has an answer or throws, the second does not count. -/
theorem firstSome_of_some {m : Effect σ ε (Option α)} {rest : Effect σ ε α} {R : σ → Prop}
    (h : Ensures P m fun r s => r ≠ .ok none ∧ R s) : Ensures P (firstSome m rest) fun _ => R := by
  refine h.bind (fun a => ?_) fun e s h => h.2
  rcases a with _ | a
  · exact fun s h => absurd rfl h.1
  · exact fun s h => h.2

/-! ## Answers -/

/-- From a state in `P` an answer of the computation is in `Q`, with the state left. -/
def Answers (P : σ → Prop) (m : Effect σ ε α) (Q : α → σ → Prop) : Prop :=
  ∀ s a s', P s → m s = (.ok a, s') → Q a s'

theorem Answers.mono {Q Q' : α → σ → Prop} (h : Answers P m Q) (hP : ∀ s, P' s → P s)
    (hQ : ∀ a s, Q a s → Q' a s) : Answers P' m Q' :=
  fun s a s' hs hm => hQ a s' (h s a s' (hP s hs) hm)

theorem answers_pure {Q : α → σ → Prop} {a : α} (h : ∀ s, P s → Q a s) :
    Answers P (pure a : Effect σ ε α) Q := by
  intro s b s' hs hm
  obtain ⟨rfl, rfl⟩ := pure_ok hm
  exact h _ hs

theorem answers_raise {Q : α → σ → Prop} (e : ε) : Answers P (raise e : Effect σ ε α) Q := by
  intro s a s' _ hm
  cases hm

theorem answers_read {Q : α → σ → Prop} {f : σ → α} (h : ∀ s, P s → Q (f s) s) :
    Answers P (read f : Effect σ ε α) Q := by
  intro s a s' hs hm
  obtain ⟨rfl, rfl⟩ := read_ok hm
  exact h _ hs

theorem answers_atomically {Q : α → σ → Prop} (h : Answers P m Q) :
    Answers P (atomically m) Q :=
  fun s a s' hs hm => h s a s' hs (atomically_ok hm)

/-- In sequence: what the first answers is where the second starts. -/
theorem Answers.bind {f : α → Effect σ ε β} {Q : α → σ → Prop} {R : β → σ → Prop}
    (h : Answers P m Q) (hf : ∀ a, Answers (Q a) (f a) R) : Answers P (m >>= f) R := by
  intro s b s'' hs hm
  obtain ⟨a, s', ha, hb⟩ := bind_ok hm
  exact hf a s' b s'' (h s a s' hs ha) hb

theorem answers_forEach {f : α → Effect σ ε Unit} :
    ∀ {as : List α}, (∀ a ∈ as, Answers P (f a) fun _ => P) →
      Answers P (forEach f as) fun _ => P
  | [], _ => answers_pure fun _ hs => hs
  | _ :: _, h => (h _ (.head _)).bind fun _ => answers_forEach fun b hb => h b (.tail _ hb)

theorem answers_gather {f : α → Effect σ ε β} :
    ∀ {as : List α}, (∀ a ∈ as, Answers P (f a) fun _ => P) →
      Answers P (gather f as) fun _ => P
  | [], _ => answers_pure fun _ hs => hs
  | _ :: _, h => (h _ (.head _)).bind fun _ =>
      (answers_gather fun b hb => h b (.tail _ hb)).bind fun _ => answers_pure fun _ hs => hs

end Effect

end Kinetick
