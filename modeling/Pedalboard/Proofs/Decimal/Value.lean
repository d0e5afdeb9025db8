import Mathlib
import Pedalboard.Decimal.Shortest
import Pedalboard.Proofs.Binary.Rounding

/-!
# The values of decimals

**Values** (`Decimal.value`). A decimal stands for a rational number. `Format.nearestDecimal`
rounds the value of a decimal, as long as that lies in the range where no shortcut is taken.
-/

namespace Pedalboard

/-! ## Digits -/

theorem digitCount_pos (n : Nat) : 0 < digitCount n := Nat.length_toDigits_pos

theorem lt_pow_digitCount (n : Nat) : n < 10 ^ digitCount n :=
  (Nat.length_toDigits_le_iff (by decide) (digitCount_pos n)).1 le_rfl

theorem pow_le_of_digitCount {n : Nat} (hn : n ≠ 0) : 10 ^ (digitCount n - 1) ≤ n := by
  by_contra hlt
  by_cases hone : digitCount n = 1
  · rw [hone, Nat.sub_self, Nat.pow_zero] at hlt
    omega
  · have hpos := digitCount_pos n
    have hle := (Nat.length_toDigits_le_iff (by decide) (by omega)).2 (not_le.1 hlt)
    rw [← digitCount] at hle
    omega

namespace Decimal

/-- The number that a decimal stands for. -/
def value (d : Decimal) : ℚ := d.coefficient * 10 ^ d.exponent

theorem value_pos {d : Decimal} (h : d.coefficient ≠ 0) : 0 < d.value := by
  have : (0 : ℚ) < d.coefficient := by exact_mod_cast Nat.pos_of_ne_zero h
  exact mul_pos this (zpow_pos (by norm_num) _)

theorem ten_zpow (k : Int) : (10 : ℚ) ^ k = 10 ^ k.toNat / 10 ^ (-k).toNat := by
  rcases Int.le_total 0 k with hk | hk
  · rw [Int.toNat_of_nonpos (by omega : -k ≤ 0), pow_zero, div_one, ← zpow_natCast,
      Int.toNat_of_nonneg hk]
  · rw [Int.toNat_of_nonpos hk, pow_zero, ← zpow_natCast, Int.toNat_of_nonneg (by omega), one_div,
      ← zpow_neg, neg_neg]

theorem numerator_div_denominator (d : Decimal) (times : Nat) :
    (d.numerator times : ℚ) / d.denominator = d.value * times := by
  rw [numerator, denominator, value, ten_zpow]
  push_cast
  ring

theorem denominator_pos (d : Decimal) : 0 < d.denominator := Nat.pow_pos (by decide)

theorem value_lt (d : Decimal) : d.value < 10 ^ (digitCount d.coefficient + d.exponent) := by
  rw [value, zpow_add₀ (by norm_num), zpow_natCast]
  refine mul_lt_mul_of_pos_right ?_ (zpow_pos (by norm_num) _)
  exact_mod_cast lt_pow_digitCount d.coefficient

theorem le_value {d : Decimal} (h : d.coefficient ≠ 0) :
    (10 : ℚ) ^ (digitCount d.coefficient + d.exponent - 1) ≤ d.value := by
  have hpos := digitCount_pos d.coefficient
  rw [value, show (digitCount d.coefficient + d.exponent - 1 : Int) =
    ((digitCount d.coefficient - 1 : Nat) : Int) + d.exponent by omega, zpow_add₀ (by norm_num),
    zpow_natCast]
  refine mul_le_mul_of_nonneg_right ?_ (zpow_pos (by norm_num) _).le
  exact_mod_cast pow_le_of_digitCount h

end Decimal

namespace Format

variable {f : Format}

/-- **Reading a decimal rounds its value**, within the range of the format. -/
theorem nearestDecimal_eq {d : Decimal} (hlow : 10 ^ (-f.scale : Int) ≤ d.value)
    (hhigh : d.value < 10 ^ f.scale) :
    f.nearestDecimal d = f.nearest (d.numerator (2 ^ f.scale)) d.denominator := by
  have hne : d.coefficient ≠ 0 := fun h => by
    rw [Decimal.value, h, Nat.cast_zero, zero_mul] at hlow
    exact absurd hlow (not_le.2 (zpow_pos (by norm_num) _))
  have hmore : ¬ (digitCount d.coefficient + d.exponent < -(f.scale : Int)) := fun h =>
    absurd (hlow.trans_lt d.value_lt) (not_lt.2 (zpow_le_zpow_right₀ (by norm_num) h.le))
  have hless : ¬ ((f.scale : Int) < digitCount d.coefficient + d.exponent) := fun h => by
    rw [← zpow_natCast] at hhigh
    refine absurd ((Decimal.le_value hne).trans_lt hhigh) (not_lt.2 ?_)
    exact zpow_le_zpow_right₀ (by norm_num) (by omega)
  rw [nearestDecimal, if_neg (by tauto), if_neg hless]

end Format

end Pedalboard
