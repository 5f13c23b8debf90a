import Mathlib.Data.List.Basic

/-!
# Reading a stream in pieces

A framing says what stands at the beginning of some symbols: an item and how many of them it takes,
nothing readable, or too few to say. What it says of an item or of nothing readable does not change
when more symbols come, so a stream cut anywhere is read as the whole.
-/

namespace Kinetick

/-- What stands at the beginning of some symbols. -/
inductive Reading (α : Type)
  | more
  | bad
  | item (value : α) (size : ℕ)

structure Framing (β α : Type) where
  next : List β → Reading α
  progress : ∀ {symbols value size}, next symbols = .item value size →
    0 < size ∧ size ≤ symbols.length
  item_append : ∀ {symbols value size} more, next symbols = .item value size →
    next (symbols ++ more) = .item value size
  bad_append : ∀ {symbols} more, next symbols = .bad → next (symbols ++ more) = .bad

namespace Framing

variable {β α : Type} (framing : Framing β α)

/-- The symbols are the items, one where the one before it ended, and then the rest. -/
inductive Cut : List β → List α → List β → Prop
  | nil (rest : List β) : Cut rest [] rest
  | cons {symbols : List β} {value : α} {size : ℕ} {values : List α} {rest : List β} :
    framing.next symbols = .item value size → Cut (symbols.drop size) values rest →
    Cut symbols (value :: values) rest

/-- No item stands at the beginning. -/
def Ended (symbols : List β) : Prop := ∀ value size, framing.next symbols ≠ .item value size

variable {framing} {symbols rest rest' : List β} {values values' : List α}

theorem ended_of_more (h : framing.next symbols = .more) : framing.Ended symbols := by
  intro value size heq
  rw [h] at heq
  cases heq

theorem ended_of_bad (h : framing.next symbols = .bad) : framing.Ended symbols := by
  intro value size heq
  rw [h] at heq
  cases heq

/-- Every stream is cut as far as it goes. -/
theorem exists_cut (framing : Framing β α) (symbols : List β) :
    ∃ values rest, framing.Cut symbols values rest ∧ framing.Ended rest := by
  by_cases hended : framing.Ended symbols
  · exact ⟨[], symbols, .nil symbols, hended⟩
  · unfold Ended at hended
    push Not at hended
    obtain ⟨value, size, hitem⟩ := hended
    have hsize := framing.progress hitem
    obtain ⟨values, rest, hcut, hrest⟩ := exists_cut framing (symbols.drop size)
    exact ⟨value :: values, rest, .cons hitem hcut, hrest⟩
termination_by symbols.length
decreasing_by
  rw [List.length_drop]
  omega

/-- And in one way only. -/
theorem Cut.unique (h : framing.Cut symbols values rest) (hrest : framing.Ended rest)
    (h' : framing.Cut symbols values' rest') (hrest' : framing.Ended rest') :
    values = values' ∧ rest = rest' := by
  induction h generalizing values' with
  | nil =>
    cases h' with
    | nil => exact ⟨rfl, rfl⟩
    | cons hitem _ => exact absurd hitem (hrest _ _)
  | cons hitem _ ih =>
    cases h' with
    | nil => exact absurd hitem (hrest' _ _)
    | cons hitem' hcut' =>
      rw [hitem] at hitem'
      cases hitem'
      obtain ⟨rfl, rfl⟩ := ih hrest hcut'
      exact ⟨rfl, rfl⟩

/-- More symbols are more of the rest. -/
theorem Cut.append (h : framing.Cut symbols values rest) (more : List β) :
    framing.Cut (symbols ++ more) values (rest ++ more) := by
  induction h with
  | nil rest => exact .nil _
  | cons hitem _ ih =>
    refine .cons (framing.item_append more hitem) ?_
    rw [List.drop_append_of_le_length (framing.progress hitem).2]
    exact ih

theorem Cut.trans (h : framing.Cut symbols values rest) (h' : framing.Cut rest values' rest') :
    framing.Cut symbols (values ++ values') rest' := by
  induction h with
  | nil => exact h'
  | cons hitem _ ih => exact .cons hitem (ih h')

/-- What is read of the first symbols is what is read first of all of them, and nothing unreadable
stands in the way. -/
theorem Cut.of_append {symbols more : List β} (h : framing.Cut (symbols ++ more) values rest)
    (hrest : framing.next rest = .more) :
    ∃ values₁ values₂ rest₁, values = values₁ ++ values₂ ∧ framing.Cut symbols values₁ rest₁ ∧
      framing.next rest₁ = .more ∧ framing.Cut (rest₁ ++ more) values₂ rest := by
  obtain ⟨values₁, rest₁, hcut₁, hended₁⟩ := exists_cut framing symbols
  obtain ⟨values₂, rest₂, hcut₂, hended₂⟩ := exists_cut framing (rest₁ ++ more)
  obtain ⟨rfl, rfl⟩ := h.unique (ended_of_more hrest) ((hcut₁.append more).trans hcut₂) hended₂
  refine ⟨values₁, values₂, rest₁, rfl, hcut₁, ?_, hcut₂⟩
  rcases hnext : framing.next rest₁ with _ | _ | ⟨value, size⟩
  · rfl
  · have hbad := framing.bad_append more hnext
    obtain ⟨-, rfl⟩ := hcut₂.unique hended₂ (.nil _) (ended_of_bad hbad)
    rw [hbad] at hrest
    cases hrest
  · exact absurd hnext (hended₁ value size)

end Framing

end Kinetick
