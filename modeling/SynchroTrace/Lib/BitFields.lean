import Mathlib.Algebra.Group.Nat.Defs
import Mathlib.Data.Nat.Bitwise

namespace BitFields
open BitVec

variable {w : Nat} (a : BitVec w)

theorem toNat_and_low (k : Nat) :
    (a &&& ~~~(BitVec.allOnes w <<< k)).toNat = a.toNat % 2 ^ k := by
  apply Nat.eq_of_testBit_eq
  intro i
  rw [Nat.testBit_mod_two_pow, testBit_toNat, testBit_toNat, getLsbD_and,
    getLsbD_not, getLsbD_shiftLeft, getLsbD_allOnes]
  by_cases inside : i < w
  · have below : i - k < w := by omega
    by_cases low : i < k <;> simp [inside, low, below]
  · simp [inside, getLsbD_of_ge a i (by omega)]

theorem toNat_and_high (k : Nat) :
    (a &&& BitVec.allOnes w <<< k).toNat = a.toNat / 2 ^ k * 2 ^ k := by
  apply Nat.eq_of_testBit_eq
  intro i
  rw [Nat.testBit_mul_two_pow, Nat.testBit_div_two_pow, testBit_toNat, testBit_toNat,
    getLsbD_and, getLsbD_shiftLeft, getLsbD_allOnes]
  by_cases high : k ≤ i
  · have back : i - k + k = i := by omega
    by_cases inside : i < w
    · have below : i - k < w := by omega
      simp [inside, high, below, back]
    · simp [inside, back, getLsbD_of_ge a i (by omega)]
  · simp [high]

theorem toNat_shiftRight (k : Nat) : (a >>> k).toNat = a.toNat / 2 ^ k := by
  rw [toNat_ushiftRight, Nat.shiftRight_eq_div_pow]

theorem and_field (x width low : Nat) :
    x &&& (2 ^ width - 1) * 2 ^ low = x / 2 ^ low % 2 ^ width * 2 ^ low := by
  apply Nat.eq_of_testBit_eq
  intro i
  rw [Nat.testBit_and, Nat.testBit_mul_two_pow, Nat.testBit_mul_two_pow,
    Nat.testBit_two_pow_sub_one, Nat.testBit_mod_two_pow, Nat.testBit_div_two_pow]
  by_cases high : low ≤ i
  · have back : i - low + low = i := by omega
    rw [back]
    cases x.testBit i <;> simp [high]
  · simp [high]

theorem eq_of_fields {a b m k : Nat} (low : a % m = b % m) (field : a / m % k = b / m % k)
    (high : a / m / k = b / m / k) : a = b := by
  have above : a / m = b / m := by
    rw [← Nat.div_add_mod (a / m) k, ← Nat.div_add_mod (b / m) k, field, high]
  rw [← Nat.div_add_mod a m, ← Nat.div_add_mod b m, low, above]

theorem toNat_or_field (a above : BitVec w) {low width : Nat} (inside : low + width ≤ w)
    (upper : above.toNat = a.toNat / 2 ^ (low + width) * 2 ^ (low + width)) :
    (above ||| BitVec.ofNat w (a.toNat / 2 ^ low % 2 ^ width) <<< low).toNat =
      a.toNat / 2 ^ low * 2 ^ low := by
  have field : a.toNat / 2 ^ low % 2 ^ width < 2 ^ width := Nat.mod_lt _ (Nat.two_pow_pos width)
  have shifted : a.toNat / 2 ^ low % 2 ^ width * 2 ^ low < 2 ^ (low + width) := by
    rw [Nat.pow_add, Nat.mul_comm]
    exact Nat.mul_lt_mul_of_pos_left field (Nat.two_pow_pos low)
  have whole : 2 ^ (low + width) ≤ 2 ^ w := Nat.pow_le_pow_right (by decide) inside
  have part : 2 ^ width ≤ 2 ^ w := Nat.pow_le_pow_right (by decide) (by omega)
  rw [toNat_or, toNat_shiftLeft, BitVec.toNat_ofNat,
    Nat.mod_eq_of_lt (field.trans_le part), Nat.shiftLeft_eq, Nat.mod_eq_of_lt (shifted.trans_le whole),
    upper, Nat.mul_comm _ (2 ^ (low + width)), ← Nat.two_pow_add_eq_or_of_lt shifted]
  have quotient := Nat.div_add_mod (a.toNat / 2 ^ low) (2 ^ width)
  rw [Nat.div_div_eq_div_mul, ← Nat.pow_add] at quotient
  calc 2 ^ (low + width) * (a.toNat / 2 ^ (low + width)) + a.toNat / 2 ^ low % 2 ^ width * 2 ^ low
      = (2 ^ width * (a.toNat / 2 ^ (low + width)) + a.toNat / 2 ^ low % 2 ^ width) * 2 ^ low := by
        rw [Nat.add_mul, Nat.pow_add, Nat.mul_comm (2 ^ low) (2 ^ width), Nat.mul_assoc,
          Nat.mul_assoc, Nat.mul_comm (2 ^ low)]
    _ = a.toNat / 2 ^ low * 2 ^ low := by rw [quotient]

def closeGap (x low width : Nat) : Nat := x / 2 ^ low / 2 ^ width * 2 ^ low + x % 2 ^ low

variable {x low width n : Nat}

theorem closeGap_mod : closeGap x low width % 2 ^ low = x % 2 ^ low := by
  rw [closeGap, Nat.mul_add_mod_self_right, Nat.mod_mod]

theorem closeGap_div : closeGap x low width / 2 ^ low = x / 2 ^ low / 2 ^ width := by
  rw [closeGap, Nat.mul_comm, Nat.mul_add_div (Nat.two_pow_pos low),
    Nat.div_eq_of_lt (Nat.mod_lt x (Nat.two_pow_pos low)), Nat.add_zero]

theorem closeGap_lt (below : x < 2 ^ n) (inside : low + width ≤ n) :
    closeGap x low width < 2 ^ (n - width) := by
  have high : closeGap x low width / 2 ^ low < 2 ^ (n - width - low) := by
    rw [closeGap_div, Nat.div_div_eq_div_mul, ← Nat.pow_add]
    refine Nat.div_lt_of_lt_mul ?_
    rwa [← Nat.pow_add, show low + width + (n - width - low) = n by omega]
  have whole := (Nat.div_lt_iff_lt_mul (Nat.two_pow_pos low)).mp high
  rwa [← Nat.pow_add, show n - width - low + low = n - width by omega] at whole

theorem closeGap_dvd {b : Nat} (above : b ≤ low) (aligned : 2 ^ b ∣ x) :
    2 ^ b ∣ closeGap x low width := by
  have divides : 2 ^ b ∣ 2 ^ low := Nat.pow_dvd_pow 2 above
  refine Nat.dvd_add (Nat.dvd_mul_left_of_dvd divides _) ?_
  exact (Nat.dvd_mod_iff divides).mpr aligned

theorem eq_of_closeGap {y : Nat} (field : x / 2 ^ low % 2 ^ width = y / 2 ^ low % 2 ^ width)
    (rest : closeGap x low width = closeGap y low width) : x = y := by
  refine eq_of_fields ?_ field ?_
  · rw [← @closeGap_mod x low width, rest, closeGap_mod]
  · rw [← closeGap_div, rest, closeGap_div]

end BitFields
