import Mathlib.Data.List.Infix

/-!
# Replacements in a text

A text is replaced from left to right, where an occurrence begins once the one before it has ended. A
text cut into parts has its parts replaced where no occurrence runs over the end of one.
-/

namespace Kinetick

variable {α ι : Type*} [DecidableEq α]

/-- The replacement of a text, of which `skip` characters belong to an occurrence. -/
def replaceFrom (old new : List α) : (skip : ℕ) → List α → List α
  | _, [] => []
  | 0, c :: cs =>
    if old <+: c :: cs then new ++ replaceFrom old new (old.length - 1) cs
    else c :: replaceFrom old new 0 cs
  | skip + 1, _ :: cs => replaceFrom old new skip cs

/-- `text.replaceAll(old, new)` -/
def replaceText (old new : List α) (text : List α) : List α := replaceFrom old new 0 text

variable {old new : List α}

theorem replaceFrom_length (xs cs : List α) :
    replaceFrom old new xs.length (xs ++ cs) = replaceText old new cs := by
  induction xs with
  | nil => rfl
  | cons x xs ih => exact ih

theorem replaceText_occurrence (hold : old ≠ []) (cs : List α) :
    replaceText old new (old ++ cs) = new ++ replaceText old new cs := by
  obtain ⟨c, tail, rfl⟩ := List.exists_cons_of_ne_nil hold
  have hoccurs : c :: tail <+: c :: (tail ++ cs) := ⟨cs, rfl⟩
  change replaceFrom (c :: tail) new 0 (c :: (tail ++ cs)) = _
  rw [replaceFrom, if_pos hoccurs]
  exact congrArg (new ++ ·) (replaceFrom_length tail cs)

/-- No occurrence begins in the text, followed by the rest. -/
def NoneBegins (old xs cs : List α) : Prop := ∀ x tail, x :: tail <:+ xs → ¬ old <+: x :: (tail ++ cs)

theorem replaceText_none {xs cs : List α} (h : NoneBegins old xs cs) :
    replaceText old new (xs ++ cs) = xs ++ replaceText old new cs := by
  induction xs with
  | nil => rfl
  | cons x xs ih =>
    have hnot := h x xs (List.suffix_refl _)
    change replaceFrom old new 0 (x :: (xs ++ cs)) = _
    rw [replaceFrom, if_neg hnot]
    exact congrArg (x :: ·) (ih fun y tail hy => h y tail (hy.trans (List.suffix_cons x xs)))

/-- Where every part is the old text, or has none of it begin in it, the parts are replaced. -/
theorem replaceText_flatMap (hold : old ≠ []) {f g : ι → List α} {parts : List ι}
    (h : ∀ p ps, p :: ps <:+ parts →
      f p = old ∧ g p = new ∨ g p = f p ∧ NoneBegins old (f p) (ps.flatMap f)) :
    replaceText old new (parts.flatMap f) = parts.flatMap g := by
  induction parts with
  | nil => rfl
  | cons p ps ih =>
    have hrest := ih fun q qs hq => h q qs (hq.trans (List.suffix_cons p ps))
    rw [List.flatMap_cons, List.flatMap_cons]
    rcases h p ps (List.suffix_refl _) with ⟨hf, hg⟩ | ⟨hg, hnone⟩
    · rw [hf, replaceText_occurrence hold, hrest, hg]
    · rw [replaceText_none hnone, hrest, hg]

theorem noneBegins_of_head {c : α} {tail xs cs : List α} (h : c ∉ xs) :
    NoneBegins (c :: tail) xs cs := by
  intro x rest hx hoccurs
  obtain ⟨after, hafter⟩ := hoccurs
  rw [List.cons_append, List.cons.injEq] at hafter
  exact h (hafter.1 ▸ hx.subset List.mem_cons_self)

end Kinetick
