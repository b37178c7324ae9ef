import Mathlib.Data.Int.Log
import Mathlib.Data.NNRat.Floor

/-!
Non-negative fractions rounded to a number of binary digits: to the nearest such number, and to the
even one of two. Exponents are unbounded.
-/

namespace Floats

/-- The nearest whole number, or the even one of two. -/
def nearest (q : ℚ≥0) : Nat :=
  let n := ⌊q + 1 / (2 : Nat)⌋₊
  if q + 1 / (2 : Nat) = n ∧ n % 2 = 1 then n - 1 else n

/-- What the last of the digits stands for. -/
def ulp (digits : Nat) (q : ℚ≥0) : ℚ≥0 := (2 : Nat) ^ (Int.log 2 q + 1 - digits)

def round (digits : Nat) (q : ℚ≥0) : ℚ≥0 := nearest (q / ulp digits q) * ulp digits q

variable {n digits : Nat} {q : ℚ≥0}

theorem le_nearest (le : (n : ℚ≥0) ≤ q) : n ≤ nearest q := by
  have floor : n ≤ ⌊q + 1 / (2 : Nat)⌋₊ := Nat.le_floor (le.trans le_self_add)
  unfold nearest
  dsimp only
  split
  · rename_i tie
    -- the number is half a unit away, so the whole one below it is lower
    have : (n : ℚ≥0) < (⌊q + 1 / (2 : Nat)⌋₊ : ℚ≥0) := by
      rw [← tie.1]
      exact lt_of_le_of_lt le (lt_add_of_pos_right q (by norm_num))
    have := Nat.cast_lt.mp this
    omega
  · exact floor

/-- Whole numbers with no more digits are kept, so what is not below one is not rounded below it. -/
theorem le_round (some : 0 < digits) (few : n ≤ 2 ^ digits) (le : (n : ℚ≥0) ≤ q) :
    (n : ℚ≥0) ≤ round digits q := by
  rcases Nat.eq_zero_or_pos n with rfl | positive
  · simp
  have log : ((2 : Nat) : ℚ≥0) ^ Int.log 2 q ≤ q :=
    Int.zpow_log_le_self (by decide) (lt_of_lt_of_le (Nat.cast_pos.mpr positive) le)
  have unit : 0 < ulp digits q := zpow_pos (by norm_num) _
  by_cases small : Int.log 2 q + 1 ≤ digits
  · -- the unit divides one
    obtain ⟨k, exponent⟩ := Int.eq_ofNat_of_zero_le (show 0 ≤ digits - (Int.log 2 q + 1) by omega)
    have whole : (n : ℚ≥0) / ulp digits q = (n * 2 ^ k : Nat) := by
      rw [ulp, show Int.log 2 q + 1 - digits = -(k : Int) by omega, zpow_neg, div_inv_eq_mul,
        zpow_natCast]
      push_cast
      rfl
    have scaled : ((n * 2 ^ k : Nat) : ℚ≥0) ≤ q / ulp digits q := by
      rw [← whole]
      exact div_le_div_of_nonneg_right le unit.le
    rw [round, ← div_le_iff₀ unit, whole]
    exact Nat.cast_le.mpr (le_nearest scaled)
  · -- the number has its first digit above all those of `n`
    obtain ⟨d, rfl⟩ : ∃ d, digits = d + 1 := ⟨digits - 1, by omega⟩
    have first : ((2 ^ d : Nat) : ℚ≥0) * ulp (d + 1) q = 2 ^ Int.log 2 q := by
      rw [ulp, Nat.cast_pow, Nat.cast_ofNat, ← zpow_natCast, ← zpow_add₀ two_ne_zero]
      congr 1
      omega
    have scaled : ((2 ^ d : Nat) : ℚ≥0) ≤ q / ulp (d + 1) q := by
      rw [le_div_iff₀ unit, first]
      exact log
    calc (n : ℚ≥0) ≤ (2 : ℚ≥0) ^ ((d + 1 : Nat) : Int) := by
          rw [zpow_natCast]
          exact_mod_cast few
      _ ≤ 2 ^ Int.log 2 q := zpow_le_zpow_right₀ one_le_two (by omega)
      _ = ((2 ^ d : Nat) : ℚ≥0) * ulp (d + 1) q := first.symm
      _ ≤ round (d + 1) q :=
          mul_le_mul_of_nonneg_right (Nat.cast_le.mpr (le_nearest scaled)) unit.le

end Floats
