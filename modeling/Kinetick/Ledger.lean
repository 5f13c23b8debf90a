import Mathlib.Data.Finset.Basic
import Mathlib.Tactic.SplitIfs

/-!
# Ledgers of opened and closed keys

A ledger replayed over a set of keys opens and closes them in order. It is exact over the set when
it opens only what is closed and closes only what is open; then each key is closed as often as it
is opened, but once less while it is open.
-/

namespace Kinetick

inductive LedgerEntry (κ : Type*)
  | opened (key : κ)
  | closed (key : κ)
deriving DecidableEq

namespace Ledger

variable {κ : Type*} [DecidableEq κ]

/-- The keys that are open after the entries. -/
def replay : List (LedgerEntry κ) → Finset κ → Finset κ
  | [], keys => keys
  | .opened key :: entries, keys => replay entries (insert key keys)
  | .closed key :: entries, keys => replay entries (keys.erase key)

/-- The entries open what is closed and close what is open. -/
def Exact : List (LedgerEntry κ) → Finset κ → Prop
  | [], _ => True
  | .opened key :: entries, keys => key ∉ keys ∧ Exact entries (insert key keys)
  | .closed key :: entries, keys => key ∈ keys ∧ Exact entries (keys.erase key)

theorem replay_append (es fs : List (LedgerEntry κ)) (keys : Finset κ) :
    replay (es ++ fs) keys = replay fs (replay es keys) := by
  induction es generalizing keys with
  | nil => rfl
  | cons e es ih => cases e <;> exact ih _

theorem exact_append (es fs : List (LedgerEntry κ)) (keys : Finset κ) :
    Exact (es ++ fs) keys ↔ Exact es keys ∧ Exact fs (replay es keys) := by
  induction es generalizing keys with
  | nil => simp [Exact, replay]
  | cons e es ih => cases e <;> simp [Exact, replay, ih, and_assoc]

/-- Once for an open key. -/
def standing (keys : Finset κ) (key : κ) : ℕ := if key ∈ keys then 1 else 0

theorem standing_of_mem {keys : Finset κ} {key : κ} (h : key ∈ keys) : standing keys key = 1 :=
  if_pos h

theorem standing_of_notMem {keys : Finset κ} {key : κ} (h : key ∉ keys) : standing keys key = 0 :=
  if_neg h

theorem standing_congr {keys keys' : Finset κ} {key : κ} (h : key ∈ keys ↔ key ∈ keys') :
    standing keys key = standing keys' key := by
  by_cases hkey : key ∈ keys
  · rw [standing_of_mem hkey, standing_of_mem (h.1 hkey)]
  · rw [standing_of_notMem hkey, standing_of_notMem (mt h.2 hkey)]

/-- An exact ledger closes each key as often as it opens it, but for what was and is open. -/
theorem Exact.count {es : List (LedgerEntry κ)} {keys : Finset κ} (h : Exact es keys) (key : κ) :
    es.count (.opened key) + standing keys key =
      es.count (.closed key) + standing (replay es keys) key := by
  induction es generalizing keys with
  | nil => simp [replay]
  | cons e es ih =>
    cases e with
    | opened k =>
      have hk := ih h.2
      by_cases hkey : k = key
      · subst hkey
        rw [standing_of_mem (Finset.mem_insert_self k keys)] at hk
        simp only [List.count_cons, standing_of_notMem h.1, replay, BEq.rfl, if_true, beq_iff_eq,
          reduceCtorEq, if_false]
        omega
      · rw [standing_congr (by simp [Ne.symm hkey] : key ∈ insert k keys ↔ key ∈ keys)] at hk
        simpa [List.count_cons, hkey, replay] using hk
    | closed k =>
      have hk := ih h.2
      by_cases hkey : k = key
      · subst hkey
        rw [standing_of_notMem (Finset.notMem_erase k keys)] at hk
        simp only [List.count_cons, standing_of_mem h.1, replay, BEq.rfl, if_true, beq_iff_eq,
          reduceCtorEq, if_false]
        omega
      · rw [standing_congr (by simp [Ne.symm hkey] : key ∈ keys.erase k ↔ key ∈ keys)] at hk
        simpa [List.count_cons, hkey, replay] using hk

end Ledger

end Kinetick
