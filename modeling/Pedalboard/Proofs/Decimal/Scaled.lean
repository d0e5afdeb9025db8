import Mathlib
import Pedalboard.Proofs.Decimal.Midpoints
import Pedalboard.Proofs.Decimal.Shortest

/-!
# The double that is read for a decimal

`Decimal.quick?` rounds a coefficient and a power of ten, and then their product or quotient.

**Roundings apart** (`Near`). Numbers that differ by no more than some roundings to doubles of moderate
size. Roundings add up along a calculation.

**One operation** (`Decimal.scaled_near`). The double is at most three roundings from the decimal. It is
exact where coefficient and power of ten are (`Decimal.scaled_of_exact`).
-/

namespace Pedalboard

/-! ## Roundings apart -/

/-- One rounding changes a number by no more than this factor, up or down. -/
def roundingFactor : ℚ := 1 + 1 / 2 ^ 53 + 1 / 2 ^ 105

theorem one_le_roundingFactor : 1 ≤ roundingFactor := by norm_num [roundingFactor]

theorem roundingFactor_pow_pos (i : Nat) : 0 < roundingFactor ^ i :=
  pow_pos (one_pos.trans_le one_le_roundingFactor) i

/-- At most `i` roundings apart. -/
structure Near (i : Nat) (x y : ℚ) : Prop where
  le : x ≤ roundingFactor ^ i * y
  ge : y ≤ roundingFactor ^ i * x

namespace Near

variable {i j : Nat} {x y z u v : ℚ}

theorem of_abs_sub_le (h : |x - y| * 2 ^ 53 ≤ y) : Near 1 x y := by
  have hy : 0 ≤ y := (by positivity : (0 : ℚ) ≤ |x - y| * 2 ^ 53).trans h
  obtain ⟨hlow, hhigh⟩ := abs_le.1 ((le_div_iff₀ (by norm_num)).2 h)
  rw [neg_le_sub_iff_le_add] at hlow
  constructor <;> norm_num [roundingFactor] <;> linarith

theorem symm (h : Near i x y) : Near i y x := ⟨h.ge, h.le⟩

theorem pos (h : Near i x y) (hx : 0 < x) : 0 < y :=
  pos_of_mul_pos_right (hx.trans_le h.le) (roundingFactor_pow_pos i).le

theorem trans (h : Near i x y) (h' : Near j y z) : Near (i + j) x z := by
  have hi := (roundingFactor_pow_pos i).le
  have hj := (roundingFactor_pow_pos j).le
  constructor
  · calc x ≤ roundingFactor ^ i * y := h.le
      _ ≤ roundingFactor ^ i * (roundingFactor ^ j * z) := mul_le_mul_of_nonneg_left h'.le hi
      _ = roundingFactor ^ (i + j) * z := by ring
  · calc z ≤ roundingFactor ^ j * y := h'.ge
      _ ≤ roundingFactor ^ j * (roundingFactor ^ i * x) := mul_le_mul_of_nonneg_left h.ge hj
      _ = roundingFactor ^ (i + j) * x := by ring

theorem mono (h : Near i x y) (hij : i ≤ j) (hx : 0 < x) : Near j x y := by
  have hpow : roundingFactor ^ i ≤ roundingFactor ^ j := pow_le_pow_right₀ one_le_roundingFactor hij
  exact ⟨h.le.trans (mul_le_mul_of_nonneg_right hpow (h.pos hx).le),
    h.ge.trans (mul_le_mul_of_nonneg_right hpow hx.le)⟩

theorem mul (h : Near i x y) (h' : Near j u v) (hx : 0 < x) (hu : 0 < u) :
    Near (i + j) (x * u) (y * v) := by
  have hy := h.pos hx
  have hv := h'.pos hu
  have hi := (roundingFactor_pow_pos i).le
  constructor
  · calc x * u ≤ (roundingFactor ^ i * y) * (roundingFactor ^ j * v) :=
          mul_le_mul h.le h'.le hu.le (mul_nonneg hi hy.le)
      _ = roundingFactor ^ (i + j) * (y * v) := by ring
  · calc y * v ≤ (roundingFactor ^ i * x) * (roundingFactor ^ j * u) :=
          mul_le_mul h.ge h'.ge hv.le (mul_nonneg hi hx.le)
      _ = roundingFactor ^ (i + j) * (x * u) := by ring

theorem inv (h : Near i x y) (hx : 0 < x) : Near i x⁻¹ y⁻¹ := by
  have hy := h.pos hx
  constructor
  · rw [← div_eq_mul_inv, le_div_iff₀ hy, inv_mul_le_iff₀ hx, mul_comm]
    exact h.ge
  · rw [← div_eq_mul_inv, le_div_iff₀ hx, inv_mul_le_iff₀ hy, mul_comm]
    exact h.le

/-- The error is small beside either number. -/
theorem abs_sub_le (h : Near i x y) (hx : 0 < x) : |x - y| ≤ (roundingFactor ^ i - 1) * x := by
  have hone : 1 ≤ roundingFactor ^ i := one_le_pow₀ one_le_roundingFactor
  rw [abs_sub_le_iff]
  constructor
  · rcases le_total x y with hle | hle
    · exact (sub_nonpos.2 hle).trans (mul_nonneg (sub_nonneg.2 hone) hx.le)
    · have hmul := mul_le_mul_of_nonneg_left hle (sub_nonneg.2 hone)
      linarith [h.le]
  · linarith [h.ge]

end Near

/-! ## Doubles -/

namespace Format

theorem value_eq_iff {f : Format} {m : Nat} {v : ℚ} :
    f.value m = v ↔ (f.steps m : ℚ) = v * 2 ^ f.scale := by
  rw [value, div_eq_iff (by positivity)]

theorem lt_infinity_of_steps_le {m : Nat} (h : double.steps m ≤ 2 ^ (250 + double.scale)) :
    m < double.infinity := by
  have hinf : 2 ^ (250 + double.scale) < double.steps double.infinity := by decide +kernel
  exact double.steps_strictMono.lt_iff_lt.1 (h.trans_lt hinf)

/-- A quotient that is not small is one rounding from the double that is nearest to it. -/
theorem near_nearest {n d : Nat} {v : ℚ} (hd : 0 < d) (hfinite : double.nearest n d < double.infinity)
    (hv : (n : ℚ) / d = v * 2 ^ double.scale) (hlow : 1 / 2 ^ 250 ≤ v) :
    Near 1 v (double.value (double.nearest n d)) := by
  have hunit : (0 : ℚ) < 2 ^ double.scale := by positivity
  have hnormal : (2 : ℚ) ^ double.fractionBits ≤ (n : ℚ) / d := by
    have hpow : (2 : ℚ) ^ double.fractionBits * 2 ^ 250 ≤ 2 ^ double.scale := by
      rw [← pow_add]
      exact pow_le_pow_right₀ one_le_two (by decide)
    rw [hv]
    calc (2 : ℚ) ^ double.fractionBits ≤ 2 ^ double.scale / 2 ^ 250 := by
          rwa [le_div_iff₀ (by positivity)]
      _ = 1 / 2 ^ 250 * 2 ^ double.scale := by ring
      _ ≤ v * 2 ^ double.scale := mul_le_mul_of_nonneg_right hlow hunit.le
  have herror := abs_sub_steps_le_div hd hfinite hnormal
  rw [hv, (value_eq_iff (f := double)).1 rfl, ← sub_mul, abs_mul, abs_of_pos hunit,
    mul_div_right_comm, ← pow_succ'] at herror
  exact .of_abs_sub_le ((le_div_iff₀ (by positivity)).1 (le_of_mul_le_mul_right herror hunit))

theorem nearest_double_finite {n d : Nat} {v : ℚ} (hd : 0 < d)
    (hv : (n : ℚ) / d = v * 2 ^ double.scale) (hhigh : v ≤ 2 ^ 250) :
    double.nearest n d < double.infinity := by
  obtain ⟨m, hm⟩ := double.exists_steps_eq (a := 1) (by decide) (250 + double.scale)
  rw [Nat.one_mul] at hm
  refine nearest_lt_infinity hd (lt_infinity_of_steps_le hm.le) ?_
  rw [hv, hm]
  push_cast
  rw [pow_add]
  exact mul_le_mul_of_nonneg_right hhigh (by positivity)

end Format

namespace Binary

variable {f : Format}

/-- The absolute value of a number. -/
def value (x : Binary f) : ℚ := f.value x.magnitude

theorem steps_eq_value_mul (x : Binary f) : (x.steps : ℚ) = x.value * 2 ^ f.scale :=
  (div_mul_cancel₀ _ (by positivity)).symm

theorem not_isNaN_of_isFinite {x : Binary f} (h : x.isFinite) : x.isNaN = false := by
  simp only [isFinite, isNaN, decide_eq_true_eq, decide_eq_false_iff_not] at *
  omega

theorem not_isInfinite_of_isFinite {x : Binary f} (h : x.isFinite) : x.isInfinite = false := by
  simp only [isFinite, isInfinite, decide_eq_true_eq, beq_eq_false_iff_ne] at *
  omega

theorem isZero_eq_false_iff {x : Binary f} : x.isZero = false ↔ 0 < x.value := by
  rw [isZero, beq_eq_false_iff_ne]
  constructor
  · exact fun h => Format.value_pos (Nat.pos_of_ne_zero h)
  · intro h hzero
    rw [value, hzero, Format.value, Format.steps] at h
    simp at h

theorem div_eq {x y : Binary f} (hx : x.isFinite) (hy : y.isFinite) (hy' : y.isZero = false) :
    x / y = ofRatio (x.negative != y.negative) (x.steps * 2 ^ f.scale) y.steps := by
  change div x y = _
  rw [div, not_isNaN_of_isFinite hx, not_isNaN_of_isFinite hy, not_isInfinite_of_isFinite hx,
    not_isInfinite_of_isFinite hy, hy']
  rfl

theorem mul_eq {x y : Binary f} (hx : x.isFinite) (hy : y.isFinite) :
    x * y = ofRatio (x.negative != y.negative) (x.steps * y.steps) (2 ^ f.scale) := by
  change mul x y = _
  rw [mul, not_isNaN_of_isFinite hx, not_isNaN_of_isFinite hy, not_isInfinite_of_isFinite hx,
    not_isInfinite_of_isFinite hy]
  rfl

theorem ofNat_ratio (c : Nat) : ((c * 2 ^ f.scale : Nat) : ℚ) / (1 : Nat) = c * 2 ^ f.scale := by
  push_cast
  rw [div_one]

/-- A natural of 64 bits is one rounding from a double. -/
theorem ofNat_near {c : Nat} (hne : c ≠ 0) (h : c < naturalBound) :
    (ofNat c : Double).isFinite ∧ Near 1 c (ofNat c : Double).value := by
  have hone : (1 : ℚ) ≤ c := by exact_mod_cast Nat.one_le_iff_ne_zero.2 hne
  have hbound : (c : ℚ) ≤ naturalBound := by exact_mod_cast h.le
  have hfinite := Format.nearest_double_finite (v := c) Nat.one_pos (ofNat_ratio c)
    (hbound.trans (by norm_num [naturalBound]))
  have hnear := Format.near_nearest (v := c) Nat.one_pos hfinite (ofNat_ratio c)
    (le_trans (by norm_num) hone)
  exact ⟨decide_eq_true hfinite, hnear⟩

/-- A natural of at most 53 binary digits, with zeros behind them, is a double. -/
theorem value_ofNat {a r : Nat} (ha : a < 2 ^ 53) (h : a * 2 ^ r < naturalBound) :
    (ofNat (a * 2 ^ r) : Double).isFinite ∧ (ofNat (a * 2 ^ r) : Double).value = (a * 2 ^ r : Nat) := by
  obtain ⟨m, hm⟩ := Format.double.exists_steps_eq ha (r + Format.double.scale)
  have hsteps : Format.double.steps m = a * 2 ^ r * 2 ^ Format.double.scale := by
    rw [hm, pow_add, Nat.mul_assoc]
  have hroom : naturalBound * 2 ^ Format.double.scale < Format.double.steps Format.double.infinity := by
    decide +kernel
  have hfinite : m < Format.double.infinity := by
    refine Format.double.steps_strictMono.lt_iff_lt.1 (lt_of_le_of_lt ?_ hroom)
    rw [hsteps]
    exact Nat.mul_le_mul_right _ h.le
  have hmag : (ofNat (a * 2 ^ r) : Double).magnitude = m := by
    refine Format.nearest_of_eq_steps Nat.one_pos hfinite.le ?_
    rw [ofNat_ratio, hsteps]
    push_cast
    rfl
  constructor
  · rw [isFinite, hmag]
    exact decide_eq_true hfinite
  · rw [value, hmag, Format.value_eq_iff, hsteps]
    push_cast
    rfl

/-- The powers of ten that are read are one rounding from doubles, and the small ones are doubles. -/
theorem tenPower_near {k : Nat} (hk : k < 64) : (tenPower k).isFinite ∧
    Near 1 (10 ^ k) (tenPower k).value ∧ (k ≤ 22 → (tenPower k).value = 10 ^ k) := by
  have hall : ((List.range 64).all fun k =>
      let s := (tenPower k).steps
      let t := 10 ^ k * 2 ^ Format.double.scale
      (tenPower k).isFinite && (s - t) * 2 ^ 53 ≤ s && (t - s) * 2 ^ 53 ≤ s &&
        (22 < k || s == t)) = true := by
    decide +kernel
  simp only [List.all_eq_true, List.mem_range, Bool.and_eq_true, Bool.or_eq_true,
    decide_eq_true_eq, beq_iff_eq] at hall
  obtain ⟨⟨⟨hfinite, hup⟩, hdown⟩, hexact⟩ := hall k hk
  have hunit : (0 : ℚ) < 2 ^ Format.double.scale := by positivity
  have hsteps := (tenPower k).steps_eq_value_mul
  have hten : ((10 ^ k * 2 ^ Format.double.scale : Nat) : ℚ) = 10 ^ k * 2 ^ Format.double.scale := by
    push_cast
    rfl
  refine ⟨hfinite, .of_abs_sub_le ?_, fun hk => ?_⟩
  · generalize (tenPower k).steps = s at *
    generalize 10 ^ k * 2 ^ Format.double.scale = t at *
    have hclose : |(t : ℚ) - s| * 2 ^ 53 ≤ s := by
      rcases Nat.le_total s t with hle | hle
      · rw [← Nat.cast_sub hle, Nat.abs_cast]
        exact_mod_cast hdown
      · rw [abs_sub_comm, ← Nat.cast_sub hle, Nat.abs_cast]
        exact_mod_cast hup
    rw [hsteps, hten, ← sub_mul, abs_mul, abs_of_pos hunit, mul_right_comm] at hclose
    exact le_of_mul_le_mul_right hclose hunit
  · have h := hexact.resolve_left (by omega)
    rw [h, hten] at hsteps
    exact (mul_right_cancel₀ hunit.ne' hsteps).symm

theorem tenPower_value_pos {k : Nat} (hk : k < 64) : 0 < (tenPower k).value :=
  (tenPower_near hk).2.1.pos (by positivity)

end Binary

/-! ## One operation -/

namespace Decimal

variable {d : Decimal}

theorem ten_zpow_eq (k : Int) :
    (10 : ℚ) ^ k = if k < 0 then 1 / 10 ^ k.natAbs else 10 ^ k.natAbs := by
  rw [ten_zpow]
  split
  · rw [Int.toNat_of_nonpos (by omega), pow_zero, show (-k).toNat = k.natAbs by omega]
  · rw [Int.toNat_of_nonpos (show -k ≤ 0 by omega), pow_zero, div_one,
      show k.toNat = k.natAbs by omega]

/-- The product or quotient that is rounded, with coefficient and power of ten already rounded. -/
def operand (d : Decimal) : ℚ :=
  let c := (Binary.ofNat d.coefficient : Double).value
  let p := (Binary.tenPower d.exponent.natAbs).value
  if d.exponent < 0 then c / p else c * p

/-- A decimal that can be read in one operation. -/
structure Readable (d : Decimal) : Prop where
  ne_zero : d.coefficient ≠ 0
  lt : d.coefficient < naturalBound
  exponent : d.exponent.natAbs < 64
  low : 1 / 2 ^ 200 ≤ d.value
  high : d.value ≤ 2 ^ 200

namespace Readable

/-- Reading does one operation and rounds. -/
theorem scaled_eq (h : d.Readable) : ∃ n m : Nat, 0 < m ∧ d.scaled = .ofRatio false n m ∧
    (n : ℚ) / m = d.operand * 2 ^ Format.double.scale := by
  obtain ⟨hten, -, -⟩ := Binary.tenPower_near h.exponent
  obtain ⟨hcoefficient, -⟩ := Binary.ofNat_near h.ne_zero h.lt
  have hunit : (0 : ℚ) < 2 ^ Format.double.scale := by positivity
  have hpos := Binary.tenPower_value_pos h.exponent
  rw [scaled, operand]
  split
  · have hpower : (-d.exponent).toNat = d.exponent.natAbs := by omega
    rw [hpower]
    have hsteps : 0 < (Binary.tenPower d.exponent.natAbs).steps := by
      have h := (Binary.tenPower d.exponent.natAbs).steps_eq_value_mul
      exact_mod_cast h ▸ mul_pos hpos hunit
    refine ⟨_, _, hsteps, Binary.div_eq hcoefficient hten (Binary.isZero_eq_false_iff.2 hpos), ?_⟩
    push_cast
    rw [Binary.steps_eq_value_mul, Binary.steps_eq_value_mul]
    field_simp
  · have hpower : d.exponent.toNat = d.exponent.natAbs := by omega
    rw [hpower]
    refine ⟨_, _, Nat.two_pow_pos _, Binary.mul_eq hcoefficient hten, ?_⟩
    push_cast
    rw [Binary.steps_eq_value_mul, Binary.steps_eq_value_mul]
    field_simp

theorem value_pos (h : d.Readable) : 0 < d.value := Decimal.value_pos h.ne_zero

theorem operand_near (h : d.Readable) : Near 2 d.value d.operand := by
  obtain ⟨-, hten, -⟩ := Binary.tenPower_near h.exponent
  obtain ⟨-, hcoefficient⟩ := Binary.ofNat_near h.ne_zero h.lt
  have hc : (0 : ℚ) < d.coefficient := by exact_mod_cast Nat.pos_of_ne_zero h.ne_zero
  have hp : (0 : ℚ) < 10 ^ d.exponent.natAbs := by positivity
  rw [value, operand, ten_zpow_eq]
  split
  · rw [one_div, div_eq_mul_inv]
    exact hcoefficient.mul (hten.inv hp) hc (inv_pos.2 hp)
  · exact hcoefficient.mul hten hc hp

/-- **The double that is read** is close to the decimal. -/
theorem scaled_near (h : d.Readable) :
    d.scaled.isFinite ∧ d.scaled.negative = false ∧ Near 3 d.value d.scaled.value := by
  obtain ⟨n, m, hm, hscaled, hratio⟩ := h.scaled_eq
  have hnear := h.operand_near
  have htwo : roundingFactor ^ 2 ≤ 2 := by norm_num [roundingFactor]
  have hlow : 1 / 2 ^ 250 ≤ d.operand := by
    have hle := hnear.le.trans (mul_le_mul_of_nonneg_right htwo (hnear.pos h.value_pos).le)
    have hvalue := h.low
    norm_num at *
    linarith
  have hhigh : d.operand ≤ 2 ^ 250 := by
    have hle := hnear.ge.trans (mul_le_mul_of_nonneg_right htwo h.value_pos.le)
    have hvalue := h.high
    norm_num at *
    linarith
  have hfinite := Format.nearest_double_finite hm hratio hhigh
  have hmag : d.scaled.magnitude = Format.double.nearest n m := by rw [hscaled]; rfl
  refine ⟨?_, by rw [hscaled]; rfl, ?_⟩
  · rw [Binary.isFinite, hmag]
    exact decide_eq_true hfinite
  · rw [Binary.value, hmag]
    exact hnear.trans (Format.near_nearest hm hfinite hratio hlow)

/-- **The double that is read is the decimal** where all parts of it are doubles. -/
theorem scaled_of_exact (h : d.Readable)
    (hc : (Binary.ofNat d.coefficient : Double).value = d.coefficient) (hk : d.exponent.natAbs ≤ 22)
    {m : Nat} (hm : m < Format.double.infinity) (hvalue : d.value = Format.double.value m) :
    d.scaled.magnitude = m := by
  obtain ⟨n, l, hl, hscaled, hratio⟩ := h.scaled_eq
  obtain ⟨-, -, hexact⟩ := Binary.tenPower_near h.exponent
  have hoperand : d.operand = d.value := by
    rw [operand, value, ten_zpow_eq, hexact hk, hc]
    split
    · rw [mul_one_div]
    · rfl
  rw [hscaled]
  refine Format.nearest_of_eq_steps hl hm.le ?_
  rw [hratio, hoperand, hvalue]
  exact div_mul_cancel₀ _ (by positivity)

theorem quick?_eq (h : d.Readable) : d.quick? = some d.scaled := by
  have hzero : (Binary.ofNat d.coefficient : Double).isZero = false := by
    rw [Binary.isZero_eq_false_iff]
    refine (Binary.ofNat_near h.ne_zero h.lt).2.pos ?_
    exact_mod_cast Nat.pos_of_ne_zero h.ne_zero
  have hexponent := h.exponent
  have hdiv : ∀ x : Double, x.divideByTenPower (-d.exponent).toNat =
      x / .tenPower (-d.exponent).toNat := fun x => by
    rw [Binary.divideByTenPower, if_pos (by simp only [maxTenPower]; omega)]
  have hsmall : ¬ (maxTenPower : Int) < d.exponent := by
    simp only [maxTenPower]
    omega
  rw [quick?, hdiv, hzero, if_neg Bool.false_ne_true, if_neg hsmall]
  exact if_pos h.scaled_near.1

end Readable

end Decimal

end Pedalboard
