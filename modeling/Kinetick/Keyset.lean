import Mathlib.Data.List.Basic
import Mathlib.Data.List.Forall2

/-!
# Paging by the last item shown

A page shows some items, says whether there are more, and where there are carries a cursor from which
the next call goes on. Pages enumerate a list where each shows the next of it, and says that there are
more exactly when there are. They do so where each fetch from the cursor of an item is a window on what
comes after the item in the list.
-/

namespace Kinetick

namespace Keyset

structure Page (β γ : Type*) where
  items : List β
  hasMore : Bool
  nextCursor : Option γ

variable {α β γ κ ε : Type*} {shows : α → β → Prop}

/-- The page shows the first of the list, and what `continues` says goes for the rest of it. -/
def Part (shows : α → β → Prop) (continues : List α → γ → Prop) (list : List α) (page : Page β γ) :
    Prop :=
  ∃ shown rest, list = shown ++ rest ∧ List.Forall₂ shows shown page.items ∧
    (page.hasMore = true ↔ rest ≠ []) ∧
      (rest ≠ [] → shown ≠ [] ∧ ∃ cursor, page.nextCursor = some cursor ∧ continues rest cursor)

/-- The page and those that the calls fetch after it, each from the cursor of the one before it, show
the list, each item of it once and in order, until nothing remains. -/
def Enumerates (fetch : κ → γ → Except ε (Page β γ)) (shows : α → β → Prop) :
    List κ → List α → Page β γ → Prop
  | [] => Part shows fun _ _ => True
  | k :: ks => Part shows fun rest cursor =>
      ∃ page, fetch k cursor = .ok page ∧ Enumerates fetch shows ks rest page

/-- The page shows at most `limit` items of the list, and its cursor is that of the last of them. -/
structure IsWindow (shows : α → β → Prop) (cursorOf : α → γ) (limit : ℕ) (list : List α)
    (page : Page β γ) : Prop where
  items : List.Forall₂ shows (list.take limit) page.items
  hasMore : page.hasMore = decide (limit < list.length)
  nextCursor : limit < list.length → page.nextCursor = (list.take limit).getLast?.map cursorOf

theorem part_of_window {cursorOf : α → γ} {limit : ℕ} {list : List α} {page : Page β γ}
    {continues : List α → γ → Prop} (hlimit : 0 < limit)
    (h : IsWindow shows cursorOf limit list page)
    (hcontinues : ∀ before x rest, rest ≠ [] → list = before ++ x :: rest →
      continues rest (cursorOf x)) : Part shows continues list page := by
  refine ⟨list.take limit, list.drop limit, (List.take_append_drop _ _).symm, h.items, ?_, ?_⟩
  · rw [h.hasMore, decide_eq_true_eq, ne_eq, List.drop_eq_nil_iff]
    omega
  · intro hrest
    have hlt : limit < list.length := by
      rw [ne_eq, List.drop_eq_nil_iff] at hrest
      omega
    have hshown : list.take limit ≠ [] := by
      rw [ne_eq, List.take_eq_nil_iff]
      rintro (h0 | h0)
      · omega
      · rw [h0] at hlt
        simp at hlt
    have hlast := List.dropLast_append_getLast hshown
    refine ⟨hshown, cursorOf ((list.take limit).getLast hshown), ?_, ?_⟩
    · rw [h.nextCursor hlt, List.getLast?_eq_getLast_of_ne_nil hshown]
      rfl
    · refine hcontinues (list.take limit).dropLast _ _ hrest ?_
      conv_lhs => rw [← List.take_append_drop limit list, ← hlast]
      rw [List.append_assoc]
      rfl

/-- Where every fetch is a window on what comes after the item of its cursor, the pages enumerate. -/
theorem enumerates_of_windows {fetch : κ → γ → Except ε (Page β γ)} {cursorOf : α → γ}
    {good : κ → Prop} {L : List α}
    (hfetch : ∀ k, good k → ∀ before x rest, L = before ++ x :: rest →
      ∃ page n, fetch k (cursorOf x) = .ok page ∧ 0 < n ∧ IsWindow shows cursorOf n rest page)
    {ks : List κ} (hks : ∀ k ∈ ks, good k) {before list : List α} (hL : L = before ++ list)
    {n : ℕ} (hn : 0 < n) {page : Page β γ} (hpage : IsWindow shows cursorOf n list page) :
    Enumerates fetch shows ks list page := by
  induction ks generalizing before list n page with
  | nil => exact part_of_window hn hpage fun _ _ _ _ _ => trivial
  | cons k ks ih =>
    refine part_of_window hn hpage fun before' x rest _ hlist => ?_
    have hL' : L = (before ++ before' ++ [x]) ++ rest := by
      rw [hL, hlist]
      simp
    obtain ⟨page', n', hfetched, hn', hwindow⟩ :=
      hfetch k (hks k List.mem_cons_self) (before ++ before') x rest (by
        rw [hL']
        simp)
    exact ⟨page', hfetched,
      ih (fun k' hk' => hks k' (List.mem_cons_of_mem _ hk')) hL' hn' hwindow⟩

/-- A page of at most one item shows the first of the list. -/
theorem Part.single {continues : List α → γ → Prop} {x : α} {rest : List α} {page : Page β γ}
    (h : Part shows continues (x :: rest) page) (hlength : page.items.length ≤ 1) :
    ∃ item, page.items = [item] ∧ shows x item ∧ (rest ≠ [] → page.hasMore = true ∧
      ∃ cursor, page.nextCursor = some cursor ∧ continues rest cursor) := by
  obtain ⟨shown, rest', hlist, hshown, hmore, hcontinues⟩ := h
  have hne : shown ≠ [] := by
    by_cases hrest' : rest' = []
    · rintro rfl
      rw [hrest'] at hlist
      cases hlist
    · exact (hcontinues hrest').1
  have hone : shown.length = 1 := by
    have := hshown.length_eq
    have := List.length_pos_iff.2 hne
    omega
  obtain ⟨z, rfl⟩ := List.length_eq_one_iff.1 hone
  obtain ⟨rfl, rfl⟩ : x = z ∧ rest = rest' := by simpa using hlist
  generalize hitems : page.items = items at hshown
  cases hshown with
  | cons hx htail =>
    cases htail
    exact ⟨_, rfl, hx, fun hrest => ⟨hmore.2 hrest, (hcontinues hrest).2⟩⟩

/-- Where pages of one item enumerate the list, the fetch from each item's cursor shows the next. -/
theorem Enumerates.next_item {fetch : κ → γ → Except ε (Page β γ)} {cursorOf : α → γ} {k : κ}
    (hsingle : ∀ w page, fetch k (cursorOf w) = .ok page → page.items.length ≤ 1)
    (hcursor : ∀ w page x item, fetch k (cursorOf w) = .ok page → page.items = [item] →
      shows x item → page.hasMore = true → page.nextCursor = some (cursorOf x))
    {before rest : List α} {x y : α} {page : Page β γ} (hlength : page.items.length ≤ 1)
    (hnext : ∀ x item, page.items = [item] → shows x item → page.hasMore = true →
      page.nextCursor = some (cursorOf x))
    (h : Enumerates fetch shows (List.replicate (before.length + 1) k) (before ++ x :: y :: rest)
      page) :
    ∃ page' item, fetch k (cursorOf x) = .ok page' ∧ page'.items = [item] ∧ shows y item := by
  induction before generalizing page with
  | nil =>
    obtain ⟨item, hitems, hx, hcontinues⟩ := Part.single h hlength
    obtain ⟨hmore, cursor, hcur, page', hfetched, hpart⟩ := hcontinues (by simp)
    rw [hnext x item hitems hx hmore] at hcur
    cases hcur
    obtain ⟨item', hitems', hy, -⟩ := Part.single hpart (hsingle _ _ hfetched)
    exact ⟨page', item', hfetched, hitems', hy⟩
  | cons w before ih =>
    obtain ⟨item, hitems, hw, hcontinues⟩ := Part.single h hlength
    obtain ⟨hmore, cursor, hcur, page', hfetched, hrest⟩ := hcontinues (by simp)
    rw [hnext w item hitems hw hmore] at hcur
    cases hcur
    exact ih (hsingle _ _ hfetched) (fun x item => hcursor _ _ x item hfetched) hrest

end Keyset

end Kinetick
