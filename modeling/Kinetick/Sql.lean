import Mathlib.Data.Int.Notation
import Mathlib.Data.List.Sort
import Mathlib.Data.String.Basic

/-!
# Rows in the order of a query

The values of columns, the order that `ORDER BY` puts rows in, with NULL before every value, and the
condition that a row comes after a tuple, which a NULL never meets. Where no column is NULL the two
agree.
-/

namespace Kinetick

namespace Sql

inductive SqlValue
  | null
  | integer (n : ℤ)
  | text (s : String)
  deriving DecidableEq

namespace SqlValue

/-- The order of `ORDER BY`. -/
def before : SqlValue → SqlValue → Bool
  | null, null => false
  | null, _ => true
  | integer a, integer b => a < b
  | integer _, text _ => true
  | text a, text b => a < b
  | _, _ => false

/-- `a < b` -/
def lt (a b : SqlValue) : Bool := a ≠ null && a.before b

/-- `a = b` -/
def eq (a b : SqlValue) : Bool := a ≠ null && a = b

theorem before_irrefl (a : SqlValue) : a.before a = false := by
  cases a <;> simp [before]

theorem before_trans {a b c : SqlValue} (hab : a.before b = true) (hbc : b.before c = true) :
    a.before c = true := by
  cases a <;> cases b <;> cases c <;>
    simp only [before, decide_eq_true_eq, reduceCtorEq] at hab hbc ⊢
  · omega
  · exact lt_trans hab hbc

theorem before_total {a b : SqlValue} (h : a ≠ b) : a.before b = true ∨ b.before a = true := by
  cases a <;> cases b <;>
    simp only [before, decide_eq_true_eq, ne_eq, reduceCtorEq, or_true, true_or, not_true_eq_false,
      integer.injEq, text.injEq] at h ⊢
  · omega
  · exact lt_or_gt_of_ne h

theorem lt_of_ne_null {a : SqlValue} (h : a ≠ null) (b : SqlValue) : a.lt b = a.before b := by
  simp [lt, h]

theorem eq_of_ne_null {a : SqlValue} (h : a ≠ null) (b : SqlValue) : a.eq b = decide (a = b) := by
  simp [eq, h]

@[simp] theorem null_lt (b : SqlValue) : null.lt b = false := rfl

@[simp] theorem null_eq (b : SqlValue) : null.eq b = false := rfl

end SqlValue

/-- The first row comes before the second, where the columns are to descend or not. -/
def comesBefore : (descending : List Bool) → (row row' : List SqlValue) → Bool
  | d :: descending, x :: row, y :: row' =>
    (if d then y.before x else x.before y) || (x = y && comesBefore descending row row')
  | _, _, _ => false

/-- The columns are after the values, where the columns are to descend or not. -/
def tupleAfter (columns values : List SqlValue) (descending : List Bool) : Bool :=
  let terms := columns.zip (values.zip descending)
  terms.zipIdx.any fun (term, i) =>
    (terms.take i).all (fun term => term.1.eq term.2.1) &&
      (if term.2.2 then term.1.lt term.2.1 else term.2.1.lt term.1)

/-- `ORDER BY` -/
def orderBy {α : Type*} (descending : List Bool) (key : α → List SqlValue) (rows : List α) :
    List α :=
  rows.insertionSort fun x y => comesBefore descending (key y) (key x) = false

section ComesBefore

variable {descending : List Bool} {xs ys zs : List SqlValue}

theorem comesBefore_irrefl (descending : List Bool) (xs : List SqlValue) :
    comesBefore descending xs xs = false := by
  induction descending generalizing xs with
  | nil => rfl
  | cons d ds ih =>
    cases xs with
    | nil => rfl
    | cons x xs => simp [comesBefore, SqlValue.before_irrefl, ih]

theorem comesBefore_trans (h : comesBefore descending xs ys = true)
    (h' : comesBefore descending ys zs = true) : comesBefore descending xs zs = true := by
  induction descending generalizing xs ys zs with
  | nil => cases h
  | cons d ds ih =>
    cases xs with
    | nil => cases h
    | cons x xs =>
      cases ys with
      | nil => cases h
      | cons y ys =>
        cases zs with
        | nil => cases h'
        | cons z zs =>
          simp only [comesBefore, Bool.or_eq_true, Bool.and_eq_true, decide_eq_true_eq] at h h' ⊢
          rcases h with h | ⟨rfl, h⟩ <;> rcases h' with h' | ⟨rfl, h'⟩
          · left
            split_ifs at h h' ⊢
            · exact SqlValue.before_trans h' h
            · exact SqlValue.before_trans h h'
          · exact .inl h
          · exact .inl h'
          · exact .inr ⟨rfl, ih h h'⟩

theorem comesBefore_asymm (h : comesBefore descending xs ys = true) :
    comesBefore descending ys xs = false := by
  by_contra hcon
  have := comesBefore_trans h (Bool.eq_true_of_not_eq_false hcon)
  rw [comesBefore_irrefl] at this
  cases this

theorem comesBefore_total (hxs : xs.length = descending.length)
    (hys : ys.length = descending.length) (hne : xs ≠ ys) :
    comesBefore descending xs ys = true ∨ comesBefore descending ys xs = true := by
  induction descending generalizing xs ys with
  | nil =>
    rw [List.length_nil, List.length_eq_zero_iff] at hxs hys
    exact absurd (hxs.trans hys.symm) hne
  | cons d ds ih =>
    obtain ⟨x, xs, rfl⟩ := List.exists_cons_of_length_eq_add_one hxs
    obtain ⟨y, ys, rfl⟩ := List.exists_cons_of_length_eq_add_one hys
    simp only [comesBefore, Bool.or_eq_true, Bool.and_eq_true, decide_eq_true_eq]
    by_cases hxy : x = y
    · subst hxy
      have hrest : xs ≠ ys := fun h => hne (by rw [h])
      exact (ih (by simpa using hxs) (by simpa using hys) hrest).imp (fun h => .inr ⟨rfl, h⟩)
        fun h => .inr ⟨rfl, h⟩
    · rcases SqlValue.before_total hxy with h | h <;> cases d <;> simp [h]

theorem tupleAfter_cons (column value : SqlValue) (d : Bool) (columns values : List SqlValue)
    (descending : List Bool) :
    tupleAfter (column :: columns) (value :: values) (d :: descending) =
      ((if d then column.lt value else value.lt column) ||
        (column.eq value && tupleAfter columns values descending)) := by
  unfold tupleAfter
  simp only [List.zip_cons_cons, List.zipIdx_cons, List.zipIdx_succ, List.any_cons, List.any_map,
    List.take_zero, List.all_nil, Bool.true_and, Nat.zero_add]
  simp only [Function.comp_def, List.take_succ_cons, List.all_cons]
  congr 1
  generalize column.eq value = same
  cases same
  · simp only [Bool.false_and, List.any_eq_false]
    exact fun _ _ => Bool.false_ne_true
  · simp only [Bool.true_and]

/-- Where no column is NULL, the condition is the order's. -/
theorem tupleAfter_eq (hxs : .null ∉ xs) (hys : .null ∉ ys) :
    tupleAfter ys xs descending = comesBefore descending xs ys := by
  induction descending generalizing xs ys with
  | nil => simp [tupleAfter, comesBefore]
  | cons d ds ih =>
    cases xs with
    | nil => simp [tupleAfter, comesBefore]
    | cons x xs =>
      cases ys with
      | nil => simp [tupleAfter, comesBefore]
      | cons y ys =>
        rw [List.mem_cons, not_or] at hxs hys
        rw [tupleAfter_cons, comesBefore, ih hxs.2 hys.2,
          SqlValue.lt_of_ne_null (Ne.symm hxs.1), SqlValue.lt_of_ne_null (Ne.symm hys.1),
          SqlValue.eq_of_ne_null (Ne.symm hys.1)]
        simp [eq_comm]

end ComesBefore

section OrderBy

variable {α : Type*} {descending : List Bool} {key : α → List SqlValue} {rows : List α}

theorem orderBy_perm (descending : List Bool) (key : α → List SqlValue) (rows : List α) :
    (orderBy descending key rows).Perm rows := List.perm_insertionSort _ _

@[simp] theorem mem_orderBy {x : α} : x ∈ orderBy descending key rows ↔ x ∈ rows :=
  (orderBy_perm descending key rows).mem_iff

/-- Rows of different keys are put in the order of their keys. -/
theorem orderBy_pairwise (hlength : ∀ x, (key x).length = descending.length)
    (hnodup : (rows.map key).Nodup) :
    (orderBy descending key rows).Pairwise
      fun x y => comesBefore descending (key x) (key y) = true := by
  have htotal : Std.Total fun x y => comesBefore descending (key y) (key x) = false :=
    ⟨fun x y => by
      cases h : comesBefore descending (key y) (key x) with
      | false => exact .inl rfl
      | true => exact .inr (comesBefore_asymm h)⟩
  have htrans : IsTrans α fun x y => comesBefore descending (key y) (key x) = false := by
    refine ⟨fun x y z hxy hyz => ?_⟩
    by_contra hzx
    have hzx := Bool.eq_true_of_not_eq_false hzx
    by_cases hkey : key x = key y
    · rw [hkey, hyz] at hzx
      cases hzx
    · rcases comesBefore_total (hlength x) (hlength y) hkey with h | h
      · rw [comesBefore_trans hzx h] at hyz
        cases hyz
      · rw [hxy] at h
        cases h
  have hsorted := List.pairwise_insertionSort
    (fun x y => comesBefore descending (key y) (key x) = false) rows
  have hkeys : (orderBy descending key rows).Pairwise fun x y => key x ≠ key y := by
    have := ((orderBy_perm descending key rows).map key).nodup_iff.2 hnodup
    exact List.pairwise_map.1 this
  refine hsorted.imp₂ ?_ hkeys
  intro x y hnot hne
  rcases comesBefore_total (hlength x) (hlength y) hne with h | h
  · exact h
  · rw [hnot] at h
    cases h

/-- There is one list of the rows in the order. -/
theorem orderBy_eq_of_perm (hlength : ∀ x, (key x).length = descending.length)
    (hnodup : (rows.map key).Nodup) {sorted : List α} (hperm : sorted.Perm rows)
    (hsorted : sorted.Pairwise fun x y => comesBefore descending (key x) (key y) = true) :
    orderBy descending key rows = sorted := by
  have hasymm : ∀ x y, x ∈ orderBy descending key rows → y ∈ sorted →
      comesBefore descending (key x) (key y) = true →
      comesBefore descending (key y) (key x) = true → x = y := by
    intro x y _ _ hxy hyx
    rw [comesBefore_asymm hxy] at hyx
    cases hyx
  exact List.Perm.eq_of_pairwise hasymm (orderBy_pairwise hlength hnodup) hsorted
    ((orderBy_perm _ _ _).trans hperm.symm)

theorem filter_orderBy (hlength : ∀ x, (key x).length = descending.length)
    (hnodup : (rows.map key).Nodup) (p : α → Bool) :
    orderBy descending key (rows.filter p) = (orderBy descending key rows).filter p :=
  orderBy_eq_of_perm hlength (hnodup.sublist (List.filter_sublist.map key))
    ((orderBy_perm descending key rows).filter p) ((orderBy_pairwise hlength hnodup).filter p)

end OrderBy

end Sql

end Kinetick
