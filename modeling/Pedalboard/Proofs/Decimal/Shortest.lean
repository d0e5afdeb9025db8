import Mathlib
import Pedalboard.Proofs.Decimal.Value

/-!
# The shortest decimal exists

**Theorem (`Format.exists_shortest`).** The search for the shortest decimal of a finite positive
magnitude succeeds: what it finds reads back as the magnitude, and is a neighbour of it on its
grid.

The search ends on a grid that is finer than the gaps between magnitudes. The neighbour above
reads back there, since it lies below the next midpoint.
-/

namespace Pedalboard

/-! ## Dropping zeros -/

theorem Decimal.strip_spec (fuel : Nat) {d : Decimal} (h : d.coefficient ≠ 0) :
    (strip fuel d).coefficient ≠ 0 ∧ (strip fuel d).coefficient ≤ d.coefficient ∧
      (strip fuel d).value = d.value := by
  induction fuel generalizing d with
  | zero => exact ⟨h, le_rfl, rfl⟩
  | succ fuel ih =>
    rw [strip]
    split
    · rename_i hzero
      obtain ⟨hne, hle, hvalue⟩ := @ih ⟨d.coefficient / 10, d.exponent + 1⟩ (by simp; omega)
      refine ⟨hne, hle.trans (Nat.div_le_self _ _), hvalue.trans ?_⟩
      have hmul : ((d.coefficient / 10 : Nat) : ℚ) * 10 = d.coefficient := by
        exact_mod_cast Nat.div_mul_cancel (Nat.dvd_of_mod_eq_zero hzero.2)
      rw [value, value, zpow_add₀ (by norm_num), zpow_one, ← hmul]
      ring
    · exact ⟨h, le_rfl, rfl⟩

/-! ## The first digit -/

theorem le_leadingZeros {n d fuel start j : Nat} (hstart : start ≤ j) (hj : j < start + fuel)
    (h : d ≤ n * 10 ^ j) : d ≤ n * 10 ^ leadingZeros n d fuel start := by
  induction fuel generalizing start with
  | zero => omega
  | succ fuel ih =>
    rw [leadingZeros]
    split
    · assumption
    · rename_i hnot
      have hne : start ≠ j := by
        rintro rfl
        exact hnot h
      exact ih (by omega) (by omega)

theorem le_leadingZeros_self (n d fuel start : Nat) : start ≤ leadingZeros n d fuel start := by
  induction fuel generalizing start with
  | zero => exact le_rfl
  | succ fuel ih =>
    rw [leadingZeros]
    split
    · exact le_rfl
    · exact (Nat.le_succ start).trans (ih (start + 1))

theorem lt_of_lt_leadingZeros {n d fuel start i : Nat} (hstart : start ≤ i)
    (hi : i < leadingZeros n d fuel start) : n * 10 ^ i < d := by
  induction fuel generalizing start with
  | zero => exact absurd hi (not_lt.2 hstart)
  | succ fuel ih =>
    rw [leadingZeros] at hi
    split at hi
    · omega
    · rename_i hnot
      rcases hstart.eq_or_lt with rfl | hlt
      · exact not_le.1 hnot
      · exact ih hlt hi

namespace Format

variable {f : Format} {tie : Tie} {m : Nat}

theorem scale_pos (f : Format) : 0 < f.scale := by
  have := f.fractionBits_pos
  rw [scale]
  omega

/-- The value of a magnitude. -/
def value (f : Format) (m : Nat) : ℚ := f.steps m / 2 ^ f.scale

theorem pow_leadingExponent_le {s : Nat} (hs : 0 < s) :
    (10 : ℚ) ^ f.leadingExponent s ≤ s / 2 ^ f.scale := by
  rw [leadingExponent]
  split
  · rename_i hle
    have hdiv : s / 2 ^ f.scale ≠ 0 := (Nat.div_pos hle (Nat.two_pow_pos _)).ne'
    have hpos := digitCount_pos (s / 2 ^ f.scale)
    rw [show (digitCount (s / 2 ^ f.scale) - 1 : Int) =
      ((digitCount (s / 2 ^ f.scale) - 1 : Nat) : Int) by omega, zpow_natCast,
      le_div_iff₀ (by positivity)]
    exact_mod_cast (Nat.le_div_iff_mul_le (Nat.two_pow_pos _)).1 (pow_le_of_digitCount hdiv)
  · have hle : 2 ^ f.scale ≤ s * 10 ^ leadingZeros s (2 ^ f.scale) f.scale 1 := by
      refine le_leadingZeros (j := f.scale) f.scale_pos (by omega) ?_
      exact (Nat.pow_le_pow_left (by decide) _).trans (Nat.le_mul_of_pos_left _ hs)
    rw [zpow_neg, zpow_natCast, inv_eq_one_div, div_le_div_iff₀ (by positivity) (by positivity),
      one_mul]
    exact_mod_cast hle

theorem lt_pow_leadingExponent (f : Format) (s : Nat) :
    (s : ℚ) / 2 ^ f.scale < 10 ^ (f.leadingExponent s + 1) := by
  rw [leadingExponent]
  split
  · have hlt := (Nat.div_lt_iff_lt_mul (Nat.two_pow_pos _)).1 (lt_pow_digitCount (s / 2 ^ f.scale))
    rw [sub_add_cancel, zpow_natCast, div_lt_iff₀ (by positivity)]
    exact_mod_cast hlt
  · rename_i hlt
    obtain ⟨j, hj⟩ := Nat.exists_eq_add_of_le (le_leadingZeros_self s (2 ^ f.scale) f.scale 1)
    have hbefore : s * 10 ^ j < 2 ^ f.scale := by
      rcases Nat.eq_zero_or_pos j with rfl | hpos
      · omega
      · exact lt_of_lt_leadingZeros hpos
          (show j < leadingZeros s (2 ^ f.scale) f.scale 1 by omega)
    rw [hj, show (-((1 + j : Nat) : Int) + 1) = -(j : Int) by push_cast; ring, zpow_neg,
      zpow_natCast, inv_eq_one_div, div_lt_div_iff₀ (by positivity) (by positivity), one_mul]
    exact_mod_cast hbefore

/-! ## One grid -/

/-- A decimal that reads back as `m`, beside it on its grid. -/
structure Neighbour (f : Format) (m : Nat) (d : Decimal) : Prop where
  coefficient_ne_zero : d.coefficient ≠ 0
  reads : f.nearestDecimal d = m
  near : |d.value - f.value m| ≤ 10 ^ d.exponent

/-- The value of a magnitude in units of a grid. -/
theorem value_div_ten_zpow (f : Format) (m : Nat) (k : Int) :
    ((f.steps m * 10 ^ (-k).toNat : Nat) : ℚ) / (2 ^ f.scale * 10 ^ k.toNat : Nat) =
      f.value m / 10 ^ k := by
  rw [value, Decimal.ten_zpow]
  push_cast
  field_simp

theorem floor_bounds (f : Format) (m : Nat) (k : Int) :
    let c := f.steps m * 10 ^ (-k).toNat / (2 ^ f.scale * 10 ^ k.toNat)
    (Decimal.mk c k).value ≤ f.value m ∧ f.value m < (Decimal.mk (c + 1) k).value ∧
      (Decimal.mk (c + 1) k).value ≤ f.value m + 10 ^ k := by
  intro c
  have hten : (0 : ℚ) < 10 ^ k := zpow_pos (by norm_num) k
  have hd : 0 < 2 ^ f.scale * 10 ^ k.toNat := by positivity
  have hfloor := Nat.floor_div_eq_div (K := ℚ) (f.steps m * 10 ^ (-k).toNat)
    (2 ^ f.scale * 10 ^ k.toNat)
  rw [value_div_ten_zpow] at hfloor
  have hle : (c : ℚ) ≤ f.value m / 10 ^ k := by
    rw [show c = _ from hfloor.symm]
    exact Nat.floor_le (div_nonneg (div_nonneg (Nat.cast_nonneg _) (by positivity)) hten.le)
  have hlt : f.value m / 10 ^ k < (c + 1 : Nat) := by
    rw [show c = _ from hfloor.symm]
    exact_mod_cast Nat.lt_floor_add_one _
  rw [le_div_iff₀ hten] at hle
  rw [div_lt_iff₀ hten] at hlt
  simp only [Decimal.value]
  refine ⟨hle, hlt, ?_⟩
  push_cast
  linarith

theorem neighbour_of_onGrid? {k : Int} {d : Decimal} (h : f.onGrid? tie m k = some d) :
    f.Neighbour m d ∧ d.exponent = k := by
  obtain ⟨hlow, hhigh, hgap⟩ := f.floor_bounds m k
  simp only [onGrid?] at h
  generalize f.steps m * 10 ^ (-k).toNat / (2 ^ f.scale * 10 ^ k.toNat) = c at *
  have hten : (Decimal.mk (c + 1) k).value = (Decimal.mk c k).value + 10 ^ k := by
    simp only [Decimal.value]
    push_cast
    ring
  have hlowNear : |(Decimal.mk c k).value - f.value m| ≤ 10 ^ k := by
    rw [abs_le]
    constructor <;> linarith
  have hhighNear : |(Decimal.mk (c + 1) k).value - f.value m| ≤ 10 ^ k := by
    rw [abs_le]
    constructor <;> linarith
  have hend : (c ≠ 0 ∧ f.nearestDecimal ⟨c, k⟩ = m ∧ d = ⟨c, k⟩) ∨
      (f.nearestDecimal ⟨c + 1, k⟩ = m ∧ d = ⟨c + 1, k⟩) := by
    split_ifs at h <;> cases tie <;> simp_all
  rcases hend with ⟨hne, hreads, rfl⟩ | ⟨hreads, rfl⟩
  · exact ⟨⟨hne, hreads, hlowNear⟩, rfl⟩
  · exact ⟨⟨Nat.succ_ne_zero c, hreads, hhighNear⟩, rfl⟩

theorem onGrid?_isSome {k : Int} (h : f.nearestDecimal
      ⟨f.steps m * 10 ^ (-k).toNat / (2 ^ f.scale * 10 ^ k.toNat) + 1, k⟩ = m) :
    (f.onGrid? tie m k).isSome := by
  simp only [onGrid?, h]
  split_ifs <;> cases tie <;> simp_all

/-! ## The search -/

theorem neighbour_of_searchGrids {fuel : Nat} {k : Int} {d : Decimal}
    (h : f.searchGrids tie m fuel k = some d) :
    f.Neighbour m d ∧ ∃ j < fuel, d.exponent = k - j := by
  induction fuel generalizing k with
  | zero => cases h
  | succ fuel ih =>
    rw [searchGrids] at h
    cases hgrid : f.onGrid? tie m k with
    | some e =>
      rw [hgrid] at h
      cases h
      obtain ⟨hd, hk⟩ := neighbour_of_onGrid? hgrid
      exact ⟨hd, 0, fuel.succ_pos, by simpa using hk⟩
    | none =>
      rw [hgrid] at h
      obtain ⟨hd, j, hj, hk⟩ := ih h
      exact ⟨hd, j + 1, Nat.succ_lt_succ hj, by push_cast; omega⟩

theorem searchGrids_isSome {fuel j : Nat} {k : Int} (hj : j < fuel)
    (h : (f.onGrid? tie m (k - j)).isSome) : (f.searchGrids tie m fuel k).isSome := by
  induction fuel generalizing j k with
  | zero => omega
  | succ fuel ih =>
    rw [searchGrids]
    cases hgrid : f.onGrid? tie m k with
    | some d => rfl
    | none =>
      cases j with
      | zero =>
        rw [Nat.cast_zero, sub_zero, hgrid] at h
        cases h
      | succ j =>
        refine @ih j (k - 1) (by omega) ?_
        rwa [Nat.cast_succ, add_comm, ← sub_sub] at h

/-- The finest grid is finer than the gaps between magnitudes, and no value comes near the ends of
the range of `nearestDecimal`. -/
structure Covered (f : Format) : Prop where
  fine : 2 ^ (f.fractionBits + 2) ≤ 10 ^ (f.maxDigits - 1)
  within : 2 * f.steps f.infinity ≤ 10 ^ f.scale * 2 ^ f.scale

theorem covered_single : single.Covered := ⟨by decide, by decide +kernel⟩

theorem covered_double : double.Covered := ⟨by decide, by decide +kernel⟩

theorem value_pos (hm : 0 < m) : 0 < f.value m := by
  have : 0 < f.steps m := (Nat.zero_le _).trans_lt (f.steps_strictMono hm)
  rw [value]
  positivity

/-- A decimal from a magnitude up to its double is in range, so that its ratio decides. -/
theorem nearestDecimal_eq_nearest (hf : f.Covered) (hm : 0 < m) (hfinite : m < f.infinity)
    {d : Decimal} (hlow : f.value m ≤ d.value) (hhigh : d.value ≤ 2 * f.value m) :
    f.nearestDecimal d = f.nearest (d.numerator (2 ^ f.scale)) d.denominator := by
  have hscale : (0 : ℚ) < 2 ^ f.scale := by positivity
  have hpos : 1 ≤ f.steps m := Nat.succ_le_of_lt ((Nat.zero_le _).trans_lt (f.steps_strictMono hm))
  refine nearestDecimal_eq (le_trans ?_ hlow) (hhigh.trans_lt ?_)
  · rw [value, zpow_neg, zpow_natCast, inv_eq_one_div]
    refine div_le_div₀ (Nat.cast_nonneg _) (by exact_mod_cast hpos) hscale ?_
    exact pow_le_pow_left₀ (by norm_num) (by norm_num) _
  · have hlt : 2 * f.steps m < 10 ^ f.scale * 2 ^ f.scale :=
      (Nat.mul_lt_mul_of_pos_left (f.steps_strictMono hfinite) two_pos).trans_le hf.within
    rw [value, ← mul_div_assoc, div_lt_iff₀ hscale]
    exact_mod_cast hlt

/-- A number of steps just above those of a magnitude lies below the next midpoint. -/
theorem lt_midpoint_of_close {v : ℚ} (hclose : v * 2 ^ (f.fractionBits + 2) ≤
      f.steps m * (2 ^ (f.fractionBits + 2) + 1)) : v < f.midpoint m := by
  have hlt : (f.steps m : ℚ) + 2 ^ f.shift m ≤ 2 ^ (f.fractionBits + 1) * 2 ^ f.shift m := by
    exact_mod_cast f.steps_add_le_two_pow m
  have hplace : (0 : ℚ) < 2 ^ f.shift m := by positivity
  have htwo : (0 : ℚ) < 2 ^ (f.fractionBits + 1) := by positivity
  rw [midpoint_eq]
  rw [pow_succ] at hclose
  nlinarith

/-- A decimal just above a magnitude reads back as that magnitude. -/
theorem nearestDecimal_of_close (hf : f.Covered) (hm : 0 < m) (hfinite : m < f.infinity)
    {d : Decimal} (hlow : f.value m ≤ d.value)
    (hhigh : d.value * 2 ^ (f.fractionBits + 2) ≤ f.value m * (2 ^ (f.fractionBits + 2) + 1)) :
    f.nearestDecimal d = m := by
  have hscale : (0 : ℚ) < 2 ^ f.scale := by positivity
  have hsteps : f.value m * 2 ^ f.scale = f.steps m := div_mul_cancel₀ _ hscale.ne'
  have hdouble : d.value ≤ 2 * f.value m := by
    nlinarith [value_pos (f := f) hm, one_le_pow₀ one_le_two (a := (2 : ℚ)) (n := f.fractionBits + 2)]
  rw [nearestDecimal_eq_nearest hf hm hfinite hlow hdouble]
  have hratio := d.numerator_div_denominator (2 ^ f.scale)
  push_cast at hratio
  refine le_antisymm ((nearest_le_iff d.denominator_pos).2 (.inr (.inl ?_))) ?_
  · rw [hratio]
    refine lt_midpoint_of_close ?_
    rw [← hsteps, mul_right_comm, mul_right_comm (f.value m)]
    exact mul_le_mul_of_nonneg_right hhigh hscale.le
  · by_contra hlt
    rw [not_le] at hlt
    refine not_below_of_steps_le (f := f) hlt (v := d.value * 2 ^ f.scale) ?_ ?_
    · rw [← hsteps]
      exact mul_le_mul_of_nonneg_right hlow hscale.le
    · rw [← hratio]
      exact ((nearest_le_iff d.denominator_pos).1 le_rfl).resolve_left
        (not_le.2 (hlt.trans hfinite))

/-- The finest grid that is searched is as much finer than a magnitude as `Covered` says. -/
theorem finest_grid_le (hf : f.Covered) (hm : 0 < m) :
    (10 : ℚ) ^ (f.leadingExponent (f.steps m) - (f.maxDigits - 1 : Nat)) *
      2 ^ (f.fractionBits + 2) ≤ f.value m := by
  have hsteps : 0 < f.steps m := (Nat.zero_le _).trans_lt (f.steps_strictMono hm)
  generalize hk : f.leadingExponent (f.steps m) - (f.maxDigits - 1 : Nat) = k
  calc (10 : ℚ) ^ k * 2 ^ (f.fractionBits + 2)
      ≤ 10 ^ k * 10 ^ (f.maxDigits - 1) := by
        refine mul_le_mul_of_nonneg_left ?_ (zpow_pos (by norm_num) _).le
        exact_mod_cast hf.fine
    _ = 10 ^ f.leadingExponent (f.steps m) := by
        rw [← zpow_natCast, ← zpow_add₀ (by norm_num), ← hk, sub_add_cancel]
    _ ≤ f.value m := pow_leadingExponent_le hsteps

/-- A search down to the finest grid finds a decimal, at the latest there. -/
theorem searchGrids_isSome_of_covered (hf : f.Covered) (tie : Tie) (hm : 0 < m)
    (hfinite : m < f.infinity) :
    (f.searchGrids tie m f.maxDigits (f.leadingExponent (f.steps m))).isSome := by
  have hdigits : f.maxDigits - 1 < f.maxDigits := Nat.sub_one_lt (by simp [maxDigits])
  refine searchGrids_isSome hdigits (onGrid?_isSome ?_)
  have hgrid := finest_grid_le hf hm
  generalize f.leadingExponent (f.steps m) - (f.maxDigits - 1 : Nat) = k at hgrid
  obtain ⟨-, hlow, hhigh⟩ := f.floor_bounds m k
  refine nearestDecimal_of_close hf hm hfinite hlow.le ?_
  nlinarith [pow_pos (two_pos : (0 : ℚ) < 2) (f.fractionBits + 2)]

/-- A neighbour on a grid within the digits of a format has no more digits than that. -/
theorem Neighbour.coefficient_le {d : Decimal} {digits : Nat} (h : f.Neighbour m d)
    (hgrid : f.leadingExponent (f.steps m) + 1 ≤ digits + d.exponent) :
    d.coefficient ≤ 10 ^ digits := by
  have hten : (0 : ℚ) < 10 ^ d.exponent := zpow_pos (by norm_num) _
  have hvalue : f.value m < 10 ^ digits * 10 ^ d.exponent := by
    refine (f.lt_pow_leadingExponent (f.steps m)).trans_le ?_
    rw [← zpow_natCast, ← zpow_add₀ (by norm_num)]
    exact zpow_le_zpow_right₀ (by norm_num) hgrid
  have hnear := (abs_le.1 h.near).2
  rw [Decimal.value] at hnear
  have hlt : (d.coefficient : ℚ) < 10 ^ digits + 1 := by
    refine lt_of_mul_lt_mul_right ?_ hten.le
    rw [add_mul, one_mul]
    linarith
  exact Nat.lt_succ_iff.1 (by exact_mod_cast hlt)

/-- **The search for the shortest decimal succeeds.** -/
theorem exists_shortest (hf : f.Covered) (tie : Tie) (hm : 0 < m) (hfinite : m < f.infinity) :
    ∃ d, f.Neighbour m d ∧ d.coefficient ≤ 10 ^ f.maxDigits ∧
      f.shortest tie m = d.strip f.maxDigits := by
  obtain ⟨d, hd⟩ := Option.isSome_iff_exists.1 (searchGrids_isSome_of_covered hf tie hm hfinite)
  obtain ⟨hneighbour, j, hj, hexponent⟩ := neighbour_of_searchGrids hd
  refine ⟨d, hneighbour, hneighbour.coefficient_le (by omega), ?_⟩
  rw [shortest, hd, Option.getD_some]

end Format

end Pedalboard
