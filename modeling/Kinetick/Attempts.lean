import Mathlib.Data.List.Perm.Subperm

/-!
# Attempts at one thing after another

Each thing is attempted once, or again right after a first attempt that failed. Where no thing comes
up twice, two attempts at the same thing stand side by side, and there are at most two for each.
-/

namespace Kinetick

variable {κ α : Type} {keyOf : α → κ} {failed : α → Prop}

/-- The attempts are at the things in order, one or two for each. -/
inductive Attempts (keyOf : α → κ) (failed : α → Prop) : List κ → List α → Prop
  | nil : Attempts keyOf failed [] []
  | once {a keys attempts} (h : Attempts keyOf failed keys attempts) :
      Attempts keyOf failed (keyOf a :: keys) (a :: attempts)
  | twice {a b keys attempts} (h : Attempts keyOf failed keys attempts) (hfailed : failed a)
      (hsame : keyOf b = keyOf a) :
      Attempts keyOf failed (keyOf a :: keys) (a :: b :: attempts)

namespace Attempts

variable {keys keys' : List κ} {attempts attempts' : List α}

theorem append (h : Attempts keyOf failed keys attempts)
    (h' : Attempts keyOf failed keys' attempts') :
    Attempts keyOf failed (keys ++ keys') (attempts ++ attempts') := by
  induction h with
  | nil => exact h'
  | once _ ih => exact .once ih
  | twice _ hfailed hsame ih => exact .twice ih hfailed hsame

theorem length_le (h : Attempts keyOf failed keys attempts) :
    attempts.length ≤ 2 * keys.length := by
  induction h with
  | nil => exact Nat.le_refl _
  | once _ ih =>
    simp only [List.length_cons]
    omega
  | twice _ _ _ ih =>
    simp only [List.length_cons]
    omega

theorem keyOf_mem (h : Attempts keyOf failed keys attempts) : ∀ a ∈ attempts, keyOf a ∈ keys := by
  induction h with
  | nil => simp
  | once _ ih =>
    intro a ha
    rcases List.mem_cons.1 ha with rfl | ha
    · exact List.mem_cons_self
    · exact List.mem_cons_of_mem _ (ih a ha)
  | twice _ _ hsame ih =>
    intro a ha
    rcases List.mem_cons.1 ha with rfl | ha
    · exact List.mem_cons_self
    rcases List.mem_cons.1 ha with rfl | ha
    · exact hsame ▸ List.mem_cons_self
    · exact List.mem_cons_of_mem _ (ih a ha)

theorem mem_keyOf (h : Attempts keyOf failed keys attempts) :
    ∀ key ∈ keys, ∃ a ∈ attempts, keyOf a = key := by
  induction h with
  | nil => simp
  | once _ ih =>
    intro key hkey
    rcases List.mem_cons.1 hkey with rfl | hkey
    · exact ⟨_, List.mem_cons_self, rfl⟩
    · obtain ⟨a, ha, rfl⟩ := ih key hkey
      exact ⟨a, List.mem_cons_of_mem _ ha, rfl⟩
  | twice _ _ _ ih =>
    intro key hkey
    rcases List.mem_cons.1 hkey with rfl | hkey
    · exact ⟨_, List.mem_cons_self, rfl⟩
    · obtain ⟨a, ha, rfl⟩ := ih key hkey
      exact ⟨a, List.mem_cons_of_mem _ (List.mem_cons_of_mem _ ha), rfl⟩

/-- Two attempts at the same thing. -/
theorem again (h : Attempts keyOf failed keys attempts) (hnodup : keys.Nodup) {before : List α}
    {a : α} {between : List α} {b : α} {after : List α}
    (hsplit : attempts = before ++ a :: (between ++ b :: after)) (hsame : keyOf a = keyOf b) :
    between = [] ∧ failed a := by
  induction h generalizing before with
  | nil => simp at hsplit
  | @once x keys attempts h ih =>
    obtain ⟨hnew, hnodup⟩ := List.nodup_cons.1 hnodup
    cases before with
    | nil =>
      obtain ⟨rfl, rfl⟩ := List.cons.inj hsplit
      have hmem := h.keyOf_mem b (by simp)
      exact absurd (hsame ▸ hmem) hnew
    | cons y before => exact ih hnodup (List.cons.inj hsplit).2
  | @twice x y keys attempts h hfailed hxy ih =>
    obtain ⟨hnew, hnodup⟩ := List.nodup_cons.1 hnodup
    cases before with
    | nil =>
      obtain ⟨rfl, hrest⟩ := List.cons.inj hsplit
      cases between with
      | nil => exact ⟨rfl, hfailed⟩
      | cons z between =>
        obtain ⟨rfl, rfl⟩ := List.cons.inj hrest
        have hmem := h.keyOf_mem b (by simp)
        exact absurd (hsame ▸ hmem) hnew
    | cons z before =>
      obtain ⟨rfl, hrest⟩ := List.cons.inj hsplit
      cases before with
      | nil =>
        obtain ⟨rfl, rfl⟩ := List.cons.inj hrest
        have hmem := h.keyOf_mem b (by simp)
        rw [← hsame, hxy] at hmem
        exact absurd hmem hnew
      | cons w before => exact ih hnodup (List.cons.inj hrest).2

/-- At most two for each thing that is attempted, however often it is listed. -/
theorem length_le_of_mem (h : Attempts keyOf failed keys attempts) (hnodup : keys.Nodup)
    {things : List κ} (hthings : ∀ a ∈ attempts, keyOf a ∈ things) :
    attempts.length ≤ 2 * things.length := by
  have hsubset : keys ⊆ things := by
    intro key hkey
    obtain ⟨a, ha, rfl⟩ := h.mem_keyOf key hkey
    exact hthings a ha
  have hlength := (hnodup.subperm hsubset).length_le
  have := h.length_le
  omega

end Attempts

end Kinetick
