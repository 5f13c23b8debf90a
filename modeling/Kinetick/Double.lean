import Mathlib.Data.Nat.Log
import Mathlib.Data.Int.Order.Basic

/-!
# Sums of doubles that are integers

A double holds every integer up to 2^53 and beyond that the nearest one with 53 significant bits,
the even one of two. A sum of integers is exact as long as it stays within 2^53.
-/

namespace Kinetick

/-- A double that is an integer or infinite. -/
inductive Double
  | finite (value : ℤ)
  | infinity
  | negInfinity
  deriving DecidableEq

namespace Double

/-- 2^53 -/
def maxExact : ℕ := 9007199254740992

/-- The nearest multiple of `2 ^ k`, and of two the even one. -/
def roundTo (k n : ℕ) : ℕ :=
  let quotient := n >>> k
  let rest := n - quotient <<< k
  if 2 * rest < 1 <<< k ∨ 2 * rest = 1 <<< k ∧ quotient % 2 = 0 then quotient <<< k
  else (quotient + 1) <<< k

/-- The nearest integer with 53 significant bits. -/
def roundNat (n : ℕ) : ℕ := if n ≤ maxExact then n else roundTo (Nat.log2 n - 52) n

/-- The double nearest to an integer. -/
def ofInt (n : ℤ) : Double :=
  let size := roundNat n.natAbs
  if 1 <<< 1024 ≤ size then if n < 0 then negInfinity else infinity
  else finite (if n < 0 then -(size : ℤ) else size)

/-- `a + n` for a finite `n` -/
def add (n : ℤ) : Double → Double
  | finite a => ofInt (a + n)
  | infinity => infinity
  | negInfinity => negInfinity

/-- `a > n` for a finite `n` -/
def exceeds (n : ℕ) : Double → Bool
  | finite a => (n : ℤ) < a
  | infinity => true
  | negInfinity => false

theorem ofInt_of_le {n : ℤ} (h : n.natAbs ≤ maxExact) : ofInt n = finite n := by
  have hsize : ¬ 1 <<< 1024 ≤ maxExact := by decide
  have hround : roundNat n.natAbs = n.natAbs := if_pos h
  simp only [ofInt, hround]
  rw [if_neg (by omega)]
  congr 1
  split_ifs <;> omega

theorem add_of_le {a n : ℤ} (h : (a + n).natAbs ≤ maxExact) :
    (finite a).add n = finite (a + n) := ofInt_of_le h

end Double

end Kinetick
