import Mathlib.Data.List.Nodup
import Mathlib.Data.List.Basic

/-!
# Tables under uniqueness constraints

A table is its rows in insertion order under a constraint that survives deletion, so a table
whose unique indexes are violated cannot be built. Inserting a row that would violate them
fails, and so does a rewrite that would; a rewrite of columns no index reads always goes through.
-/

namespace Kinetick

variable {ρ : Type*}

/-- A decidable condition on the rows of a table that dropping rows keeps. -/
structure Constraint (ρ : Type*) where
  Holds : List ρ → Prop
  decHolds : DecidablePred Holds
  nil : Holds []
  sublist : ∀ {l l' : List ρ}, l'.Sublist l → Holds l → Holds l'

namespace Constraint

instance (C : Constraint ρ) : DecidablePred C.Holds := C.decHolds

/-- A unique index on `key`. Rows where it is null are free of it. -/
def unique {κ : Type*} [DecidableEq κ] (key : ρ → Option κ) : Constraint ρ where
  Holds l := (l.filterMap key).Nodup
  decHolds _ := inferInstance
  nil := List.nodup_nil
  sublist h hl := hl.sublist (h.filterMap key)

/-- Both constraints. -/
def and (C D : Constraint ρ) : Constraint ρ where
  Holds l := C.Holds l ∧ D.Holds l
  decHolds _ := inferInstance
  nil := ⟨C.nil, D.nil⟩
  sublist h hl := ⟨C.sublist h hl.1, D.sublist h hl.2⟩

/-- Rewriting any rows by `f` keeps the constraint. -/
def Fixes (C : Constraint ρ) (f : ρ → ρ) : Prop :=
  ∀ (l : List ρ) (p : ρ → Bool), C.Holds l → C.Holds (l.map fun r => if p r then f r else r)

theorem unique_fixes {κ : Type*} [DecidableEq κ] {key : ρ → Option κ} {f : ρ → ρ}
    (h : ∀ r, key (f r) = key r) : (unique key).Fixes f := by
  intro l p hl
  have hcomp : key ∘ (fun r => if p r then f r else r) = key := by
    funext r
    simp only [Function.comp_apply]
    split_ifs
    · exact h r
    · rfl
  simpa only [unique, List.filterMap_map, hcomp] using hl

theorem and_fixes {C D : Constraint ρ} {f : ρ → ρ} (hC : C.Fixes f) (hD : D.Fixes f) :
    (C.and D).Fixes f :=
  fun l p hl => ⟨hC l p hl.1, hD l p hl.2⟩

/-- One more row keeps a unique index exactly when no row holds its key. -/
theorem unique_append {κ : Type*} [DecidableEq κ] {key : ρ → Option κ} {l : List ρ} {r : ρ} :
    (unique key).Holds (l ++ [r]) ↔
      (unique key).Holds l ∧ ∀ k, key r = some k → ∀ x ∈ l, key x ≠ some k := by
  simp only [unique, List.filterMap_append, List.nodup_append]
  rcases hk : key r with _ | k
  · simp [hk]
  · simp only [List.filterMap_cons, hk, List.filterMap_nil, List.nodup_cons, List.not_mem_nil,
      not_false_eq_true, List.nodup_nil, and_self, true_and, List.mem_singleton, forall_eq,
      Option.some.injEq, forall_eq', List.mem_filterMap, and_congr_right_iff]
    intro _
    constructor
    · intro h x hx hkx
      exact h k ⟨x, hx, hkx⟩ rfl
    · rintro h a ⟨x, hx, hkx⟩ rfl
      exact h x hx hkx

/-- Under a unique index two rows with the same key are the same row. -/
theorem unique_inj {κ : Type*} [DecidableEq κ] {key : ρ → Option κ} {l : List ρ}
    (h : (unique key).Holds l) {a b : ρ} (ha : a ∈ l) (hb : b ∈ l) {k : κ}
    (hka : key a = some k) (hkb : key b = some k) : a = b := by
  induction l with
  | nil => simp at ha
  | cons x l ih =>
    have hl : (unique key).Holds l := (unique key).sublist (List.sublist_cons_self x l) h
    have hx : ∀ y ∈ l, key x = some k → key y ≠ some k := by
      intro y hy hkx hky
      simp only [unique, List.filterMap_cons, hkx, List.nodup_cons, List.mem_filterMap] at h
      exact h.1 ⟨y, hy, hky⟩
    rcases List.mem_cons.1 ha with hax | hal <;> rcases List.mem_cons.1 hb with hbx | hbl
    · exact hax.trans hbx.symm
    · exact absurd hkb (hx b hbl (hax ▸ hka))
    · exact absurd hka (hx a hal (hbx ▸ hkb))
    · exact ih hl hal hbl

end Constraint

/-- A query at most one row answers commutes with a deletion. -/
theorem find?_filter_of_unique {l : List ρ} {q : ρ → Bool} (p : ρ → Bool)
    (h : ∀ a ∈ l, ∀ b ∈ l, q a → q b → a = b) :
    (l.filter p).find? q = (l.find? q).filter p := by
  induction l with
  | nil => rfl
  | cons x l ih =>
    have ih := ih fun a ha b hb => h a (.tail _ ha) b (.tail _ hb)
    rcases hqx : q x with _ | _
    · rw [List.find?_cons_of_neg (by simp [hqx]), List.filter_cons]
      split_ifs
      · rw [List.find?_cons_of_neg (by simp [hqx]), ih]
      · exact ih
    · rw [List.find?_cons_of_pos hqx, List.filter_cons]
      split_ifs with hpx
      · rw [List.find?_cons_of_pos hqx, Option.filter_some_pos hpx]
      · rw [Option.filter_some_neg (by simpa using hpx), List.find?_eq_none]
        intro y hy hqy
        rw [List.mem_filter] at hy
        have hyx : x = y := h x (.head _) y (.tail _ hy.1) hqx hqy
        exact hpx (hyx ▸ hy.2)

/-- Under a unique index one row answers to a query of one key that some row answers to. -/
theorem Constraint.countP_unique {κ : Type*} [DecidableEq κ] {key : ρ → Option κ} {l : List ρ}
    (h : (unique key).Holds l) {a : ρ} (ha : a ∈ l) {p : ρ → Bool} (hpa : p a) {k : κ}
    (hp : ∀ b ∈ l, p b → key b = some k) : l.countP p = 1 := by
  induction l with
  | nil => simp at ha
  | cons x l ih =>
    have hl : (unique key).Holds l := (unique key).sublist (List.sublist_cons_self x l) h
    rcases hpx : p x with _ | _
    · rw [List.countP_cons_of_neg (by simp [hpx])]
      rcases List.mem_cons.1 ha with rfl | ha
      · exact absurd hpa (by simp [hpx])
      · exact ih hl ha fun b hb => hp b (.tail _ hb)
    · have hkx := hp x (.head _) hpx
      rw [List.countP_cons_of_pos hpx, Nat.add_eq_right, List.countP_eq_zero]
      intro b hb hpb
      simp only [unique, List.filterMap_cons, hkx, List.nodup_cons, List.mem_filterMap] at h
      exact h.1 ⟨b, hb, hp b (.tail _ hb) hpb⟩

/-- Under a unique index a query of one key finds at most the row it is answered by. -/
theorem Constraint.filter_unique {κ : Type*} [DecidableEq κ] {key : ρ → Option κ} {l : List ρ}
    (h : (unique key).Holds l) {a : ρ} (ha : a ∈ l) {p : ρ → Bool} (hpa : p a) {k : κ}
    (hp : ∀ b ∈ l, p b → key b = some k) : l.filter p = [a] := by
  have hlen := Constraint.countP_unique h ha hpa hp
  rw [List.countP_eq_length_filter] at hlen
  obtain ⟨b, hb⟩ := List.length_eq_one_iff.1 hlen
  have hmem : a ∈ l.filter p := List.mem_filter.2 ⟨ha, hpa⟩
  rw [hb, List.mem_singleton] at hmem
  rw [hb, hmem]

/-- Rows in insertion order, with the table's constraint. -/
structure Table (C : Constraint ρ) where
  rows : List ρ
  holds : C.Holds rows

namespace Table

variable {C : Constraint ρ} (T : Table C)

@[ext] theorem ext {T U : Table C} (h : T.rows = U.rows) : T = U := by
  cases T
  cases U
  simpa using h

/-- The table with no rows. -/
def empty (C : Constraint ρ) : Table C := ⟨[], C.nil⟩

instance : Inhabited (Table C) := ⟨empty C⟩

/-- `DELETE … WHERE p`. -/
def delete (p : ρ → Bool) : Table C :=
  ⟨T.rows.filter fun r => !p r, C.sublist List.filter_sublist T.holds⟩

/-- `UPDATE … SET f WHERE p`, of columns no index reads. -/
def update (p : ρ → Bool) (f : ρ → ρ) (hf : C.Fixes f) : Table C :=
  ⟨T.rows.map fun r => if p r then f r else r, hf _ p T.holds⟩

/-- `UPDATE … SET f WHERE p`, failing where an index would be violated. -/
def rewrite (p : ρ → Bool) (f : ρ → ρ) : Option (Table C) :=
  if h : C.Holds (T.rows.map fun r => if p r then f r else r) then some ⟨_, h⟩ else none

/-- `INSERT`, failing where an index would be violated. -/
def insert (r : ρ) : Option (Table C) :=
  if h : C.Holds (T.rows ++ [r]) then some ⟨_, h⟩ else none

@[simp] theorem rows_empty : (empty C).rows = [] := rfl

@[simp] theorem rows_delete (p : ρ → Bool) : (T.delete p).rows = T.rows.filter fun r => !p r :=
  rfl

@[simp] theorem rows_update (p : ρ → Bool) (f : ρ → ρ) (hf : C.Fixes f) :
    (T.update p f hf).rows = T.rows.map fun r => if p r then f r else r := rfl

variable {T}

theorem insert_eq_some {r : ρ} {U : Table C} (h : T.insert r = some U) :
    U.rows = T.rows ++ [r] := by
  unfold insert at h
  split_ifs at h
  cases h
  rfl

theorem insert_of_holds {r : ρ} (h : C.Holds (T.rows ++ [r])) :
    ∃ U, T.insert r = some U ∧ U.rows = T.rows ++ [r] := by
  refine ⟨⟨_, h⟩, ?_, rfl⟩
  unfold insert
  rw [dif_pos h]

theorem rewrite_eq_some {p : ρ → Bool} {f : ρ → ρ} {U : Table C} (h : T.rewrite p f = some U) :
    U.rows = T.rows.map fun r => if p r then f r else r := by
  unfold rewrite at h
  split_ifs at h
  cases h
  rfl

end Table

end Kinetick
