import Mathlib
import Pedalboard.Proofs.Decimal.Quick

/-!
# Reading back what was written twice

The double that was read for a single is written as its own shortest decimal and read again.

**The second decimal** (`Format.exists_rewritten`). It is one rounding from the double, and short enough to
be read in one operation. It has the value of the first decimal where that is short and the double is
exact (`Format.shortest_of_exact`): the search looks at coarse grids first, and comes to the grid of the
first decimal before any on which a second one could stand as close to the double.

**Theorem (`Format.Writes.narrow_rewritten`).** So the second double is no more than seven roundings from
the first decimal, and rounds to the single that was written.
-/

namespace Pedalboard

/-! ## Layouts -/

namespace Layout

variable {l : Layout} {d : Decimal}

theorem value_zeros {c : Nat} {k : Int} (hk : 0 ≤ k) :
    Decimal.value ⟨c * 10 ^ (k.toNat + 1), -1⟩ = Decimal.value ⟨c, k⟩ := by
  rw [Decimal.value, Decimal.value, zpow_neg_one, Decimal.ten_zpow, Int.toNat_of_nonpos (by omega : -k ≤ 0)]
  push_cast
  ring

/-- What is read of a decimal that was written has its value. -/
theorem value_written (l : Layout) (d : Decimal) : (l.written d).value = d.value := by
  rw [written]
  split_ifs with hpositional
  · exact value_zeros hpositional.2
  · rfl

/-- The zeros that are written behind a coefficient are bounded by the positional range. -/
theorem coefficient_zeros_lt {n : Nat} (hpositional : l.positional (digitCount d.coefficient + d.exponent - 1))
    (hexponent : 0 ≤ d.exponent) (hrange : ∀ e, l.positional e → e ≤ n) :
    d.coefficient * 10 ^ (d.exponent.toNat + 1) < 10 ^ (n + 2) := by
  have hle := hrange _ hpositional
  refine (Nat.mul_lt_mul_of_pos_right (lt_pow_digitCount _) (Nat.pow_pos (by decide))).trans_le ?_
  rw [← Nat.pow_add]
  exact Nat.pow_le_pow_right (by decide) (by omega)

/-- A decimal of moderate size with few digits is written with few digits and a small exponent. -/
theorem written_parts {e : Decimal} (hne : e.coefficient ≠ 0) (hdigits : e.coefficient ≤ 10 ^ 18)
    (hlow : 10 ^ 18 < e.value * 10 ^ 64) (hhigh : e.value < 10 ^ 64) :
    (Json.doubleLayout.written e).coefficient ≠ 0 ∧
      (Json.doubleLayout.written e).coefficient < naturalBound ∧
      (Json.doubleLayout.written e).exponent.natAbs < 64 := by
  rw [written]
  split_ifs with hpositional
  · have hlt := coefficient_zeros_lt (n := 15) hpositional.1 hpositional.2 (by
      simp [Json.doubleLayout])
    exact ⟨Nat.mul_ne_zero hne (Nat.pow_pos (by decide)).ne', hlt.trans (by decide),
      show (-1 : Int).natAbs < 64 by decide⟩
  · exact ⟨hne, hdigits.trans_lt (by decide),
      Decimal.natAbs_exponent_lt hne hdigits hlow hhigh⟩

end Layout

/-! ## Midpoints in tenths -/

/-- The coefficient of a midpoint in tenths is a double, since five times an odd part is short. -/
theorem Decimal.IsMidpoint.value_ofNat_tenths {c : Nat} (h : IsMidpoint ⟨c, -1⟩) (hlt : c < naturalBound) :
    (Binary.ofNat c : Double).value = c := by
  obtain ⟨n, q, -, hn, heq⟩ := h
  have hnat : c * 2 ^ 150 = 5 * n * 2 ^ (q + 1) := by
    rw [value, zpow_neg_one, eq_div_iff (by positivity)] at heq
    have hten : (c : ℚ) * 2 ^ 150 = 5 * n * 2 ^ (q + 1) := by
      rw [pow_succ _ q]
      simp only at heq
      linarith
    exact_mod_cast hten
  by_cases hq : 149 ≤ q
  · obtain ⟨r, hr⟩ := Nat.exists_eq_add_of_le hq
    have hc : c = 5 * n * 2 ^ r := by
      refine Nat.eq_of_mul_eq_mul_right (Nat.two_pow_pos 150) ?_
      rw [hnat, hr, Nat.mul_assoc (5 * n), ← Nat.pow_add]
      congr 2
      omega
    rw [hc] at hlt ⊢
    exact (Binary.value_ofNat (by omega) hlt).2
  · obtain ⟨r, hr⟩ := Nat.exists_eq_add_of_le (show q + 1 ≤ 150 by omega)
    have hc : c * 2 ^ r = 5 * n := by
      refine Nat.eq_of_mul_eq_mul_right (Nat.two_pow_pos (q + 1)) ?_
      rw [← hnat, hr, Nat.mul_assoc, ← Nat.pow_add, Nat.add_comm r]
    have hle : c ≤ 5 * n := hc ▸ Nat.le_mul_of_pos_right _ (Nat.two_pow_pos r)
    have hvalue := Binary.value_ofNat (r := 0) (show c < 2 ^ 53 by omega) (by simpa using hlt)
    simpa using hvalue.2

/-! ## The second decimal -/

namespace Format

variable {f : Format} {tie : Tie} {m : Nat} {d : Decimal}

/-- The search ends on the first grid on which it can. -/
theorem le_exponent_of_searchGrids {fuel j : Nat} {k : Int} (h : f.searchGrids tie m fuel k = some d)
    (hj : j < fuel) (hgrid : (f.onGrid? tie m (k - j)).isSome) : k - j ≤ d.exponent := by
  induction fuel generalizing j k with
  | zero => omega
  | succ fuel ih =>
    rw [searchGrids] at h
    cases hfirst : f.onGrid? tie m k with
    | some e =>
      rw [hfirst] at h
      cases h
      have hexponent := (neighbour_of_onGrid? hfirst).2
      omega
    | none =>
      rw [hfirst] at h
      cases j with
      | zero =>
        rw [Nat.cast_zero, sub_zero, hfirst] at hgrid
        cases hgrid
      | succ j =>
        have hle := @ih j (k - 1) h (by omega) (by rwa [Nat.cast_succ, add_comm, ← sub_sub] at hgrid)
        push_cast
        omega

/-- A decimal with the value of a magnitude is found on its grid. -/
theorem onGrid?_isSome_of_value_eq (hne : d.coefficient ≠ 0) (hvalue : d.value = f.value m)
    (hreads : f.nearestDecimal d = m) : (f.onGrid? tie m d.exponent).isSome := by
  have hfloor : f.steps m * 10 ^ (-d.exponent).toNat / (2 ^ f.scale * 10 ^ d.exponent.toNat) =
      d.coefficient := by
    rw [← Nat.floor_div_eq_div (K := ℚ), value_div_ten_zpow, ← hvalue, Decimal.value,
      mul_div_cancel_right₀ _ (zpow_pos (by norm_num) _).ne', Nat.floor_natCast]
  have hlow : f.nearestDecimal ⟨d.coefficient, d.exponent⟩ = m := hreads
  simp only [onGrid?, hfloor, hlow]
  split_ifs <;> cases tie <;> simp_all

/-- What is known of the decimal that a double is written as. -/
structure Rewrites (d : Decimal) (m : Nat) : Prop where
  ne_zero : d.coefficient ≠ 0
  digits : d.coefficient ≤ 10 ^ 18
  near : Near 1 d.value (double.value m)

theorem Neighbour.near_value {d : Decimal} (h : double.Neighbour m d) (hm : 0 < m)
    (hfinite : m < double.infinity) (hlow : 1 / 2 ^ 200 ≤ double.value m) :
    Near 1 d.value (double.value m) := by
  have hnearest := nearest_of_nearestDecimal h.reads hm hfinite
  have hone : (10 : ℚ) ^ d.exponent ≤ d.value := by
    refine le_mul_of_one_le_left (zpow_pos (by norm_num) _).le ?_
    exact_mod_cast Nat.one_le_iff_ne_zero.2 h.coefficient_ne_zero
  have hlow' : 1 / 2 ^ 250 ≤ d.value := by
    have hgap := (abs_le.1 h.near).1
    norm_num at *
    linarith
  have hratio := d.numerator_div_denominator (2 ^ double.scale)
  push_cast at hratio
  have hnear := near_nearest d.denominator_pos (hnearest ▸ hfinite) hratio hlow'
  rwa [hnearest] at hnear

theorem rewrites_shortest (tie : Tie) (hm : 0 < m) (hfinite : m < double.infinity)
    (hlow : 1 / 2 ^ 200 ≤ double.value m) : Rewrites (double.shortest tie m) m := by
  obtain ⟨d₀, hneighbour, hdigits, hshortest⟩ := exists_shortest covered_double tie hm hfinite
  obtain ⟨hne, hle, hvalue⟩ := Decimal.strip_spec double.maxDigits hneighbour.coefficient_ne_zero
  rw [hshortest]
  exact ⟨hne, hle.trans hdigits, hvalue ▸ hneighbour.near_value hm hfinite hlow⟩

/-- Decimals that lie so close together on the finer of two grids are the same. -/
theorem value_eq_of_close {d e : Decimal} (hle : d.exponent ≤ e.exponent)
    (hclose : |e.value - d.value| < 10 ^ d.exponent) :
    e.value = d.value ∧ e.coefficient ≤ d.coefficient := by
  obtain ⟨j, hj⟩ := Int.eq_ofNat_of_zero_le (sub_nonneg.2 hle)
  have hgrid : (0 : ℚ) < 10 ^ d.exponent := zpow_pos (by norm_num) _
  have he : e.value = (e.coefficient * 10 ^ j : Nat) * 10 ^ d.exponent := by
    rw [Decimal.value, show e.exponent = j + d.exponent by omega, zpow_add₀ (by norm_num), zpow_natCast]
    push_cast
    ring
  rw [he, Decimal.value, ← sub_mul, abs_mul, abs_of_pos hgrid, mul_lt_iff_lt_one_left hgrid] at hclose
  have hcoefficient : ((e.coefficient * 10 ^ j : Nat) : ℤ) - d.coefficient = 0 :=
    Int.abs_lt_one_iff.1 (by exact_mod_cast hclose)
  have heq : e.coefficient * 10 ^ j = d.coefficient := by exact_mod_cast sub_eq_zero.1 hcoefficient
  refine ⟨by rw [he, heq, Decimal.value], ?_⟩
  rw [← heq]
  exact Nat.le_mul_of_pos_right _ (Nat.pow_pos (by decide))

/-- The search for a double that is a short decimal comes to the grid of the decimal. -/
theorem leadingExponent_bounds (hm : 0 < m) (hne : d.coefficient ≠ 0) (hshort : d.coefficient ≤ 10 ^ 8)
    (hvalue : d.value = f.value m) : d.exponent ≤ f.leadingExponent (f.steps m) ∧
      f.leadingExponent (f.steps m) ≤ d.exponent + 8 := by
  have hgrid : (0 : ℚ) < 10 ^ d.exponent := zpow_pos (by norm_num) _
  have hcpos : (1 : ℚ) ≤ d.coefficient := by exact_mod_cast Nat.one_le_iff_ne_zero.2 hne
  have hcbound : (d.coefficient : ℚ) ≤ 10 ^ 8 := by exact_mod_cast hshort
  constructor
  · have hlt := f.lt_pow_leadingExponent (f.steps m)
    rw [← value, ← hvalue] at hlt
    have hpow : (10 : ℚ) ^ d.exponent < 10 ^ (f.leadingExponent (f.steps m) + 1) :=
      (le_mul_of_one_le_left hgrid.le hcpos).trans_lt hlt
    exact Int.lt_add_one_iff.1 ((zpow_lt_zpow_iff_right₀ (by norm_num)).1 hpow)
  · have hle := pow_leadingExponent_le (f := f) ((Nat.zero_le _).trans_lt (f.steps_strictMono hm))
    rw [← value, ← hvalue] at hle
    have hpow : (10 : ℚ) ^ f.leadingExponent (f.steps m) ≤ 10 ^ (d.exponent + 8) := by
      refine hle.trans ?_
      rw [Decimal.value, zpow_add₀ (by norm_num), mul_comm]
      exact mul_le_mul_of_nonneg_left hcbound hgrid.le
    exact (zpow_le_zpow_iff_right₀ (by norm_num)).1 hpow

/-- The search for such a double ends on the grid of the decimal or before. -/
theorem exists_searchGrids_of_exact (tie : Tie) (hm : 0 < m) (hne : d.coefficient ≠ 0)
    (hshort : d.coefficient ≤ 10 ^ 8) (hvalue : d.value = double.value m)
    (hreads : double.nearestDecimal d = m) :
    ∃ e, double.searchGrids tie m double.maxDigits (double.leadingExponent (double.steps m)) = some e ∧
      d.exponent ≤ e.exponent := by
  obtain ⟨hstart, hend⟩ := leadingExponent_bounds hm hne hshort hvalue
  obtain ⟨j, hj⟩ := Int.eq_ofNat_of_zero_le (sub_nonneg.2 hstart)
  have hfuel : j < double.maxDigits := by
    rw [show double.maxDigits = 18 by decide]
    omega
  have hgrid : double.leadingExponent (double.steps m) - j = d.exponent := by omega
  have hsome : (double.onGrid? tie m (double.leadingExponent (double.steps m) - j)).isSome := by
    rw [hgrid]
    exact onGrid?_isSome_of_value_eq hne hvalue hreads
  obtain ⟨e, he⟩ := Option.isSome_iff_exists.1 (searchGrids_isSome hfuel hsome)
  exact ⟨e, he, hgrid ▸ le_exponent_of_searchGrids he hfuel hsome⟩

/-- A neighbour of a double stands within the grid of a short decimal that is this double. -/
theorem Neighbour.abs_sub_lt {e : Decimal} (h : double.Neighbour m e) (hm : 0 < m)
    (hfinite : m < double.infinity) (hlow : 1 / 2 ^ 200 ≤ double.value m)
    (hshort : d.coefficient ≤ 10 ^ 8) (hvalue : d.value = double.value m) :
    |e.value - d.value| < 10 ^ d.exponent := by
  have hgrid : (0 : ℚ) < 10 ^ d.exponent := zpow_pos (by norm_num) _
  have hcbound : (d.coefficient : ℚ) ≤ 10 ^ 8 := by exact_mod_cast hshort
  have hclose := (h.near_value hm hfinite hlow).symm.abs_sub_le (value_pos hm)
  rw [← hvalue, abs_sub_comm] at hclose
  refine hclose.trans_lt ?_
  rw [Decimal.value, ← mul_assoc, mul_lt_iff_lt_one_left hgrid]
  refine (mul_le_mul_of_nonneg_left hcbound (sub_nonneg.2 (by norm_num [roundingFactor]))).trans_lt ?_
  norm_num [roundingFactor]

/-- **A short decimal that is a double** is what that double is written as. -/
theorem shortest_of_exact (tie : Tie) (hm : 0 < m) (hfinite : m < double.infinity)
    (hlow : 1 / 2 ^ 200 ≤ double.value m) (hne : d.coefficient ≠ 0) (hshort : d.coefficient < coefficientBound)
    (hvalue : d.value = double.value m) :
    (double.shortest tie m).value = d.value ∧
      (double.shortest tie m).coefficient < coefficientBound := by
  have hbound : d.coefficient ≤ 10 ^ 8 := hshort.le.trans (by decide)
  have hreads : double.nearestDecimal d = m := by
    refine nearestDecimal_of_close covered_double hm hfinite hvalue.ge ?_
    rw [hvalue]
    exact mul_le_mul_of_nonneg_left (by norm_num) (value_pos hm).le
  obtain ⟨e, he, hexponent⟩ := exists_searchGrids_of_exact tie hm hne hbound hvalue hreads
  have hneighbour := (neighbour_of_searchGrids he).1
  obtain ⟨heq, hle⟩ :=
    value_eq_of_close hexponent (hneighbour.abs_sub_lt hm hfinite hlow hbound hvalue)
  obtain ⟨-, hstrip, hstripValue⟩ := Decimal.strip_spec double.maxDigits hneighbour.coefficient_ne_zero
  rw [shortest, he, Option.getD_some]
  exact ⟨hstripValue.trans heq, (hstrip.trans hle).trans_lt hshort⟩

namespace Writes

/-- The double that is read for a decimal is not small. -/
theorem scaled_bounds (h : Writes d m) : 0 < d.scaled.magnitude ∧ d.scaled.magnitude < double.infinity ∧
    Near 3 d.value (double.value d.scaled.magnitude) ∧
    1 / 2 ^ 151 ≤ double.value d.scaled.magnitude ∧ double.value d.scaled.magnitude ≤ 2 ^ 129 := by
  obtain ⟨hfinite, -, hnear⟩ := h.readable.scaled_near
  have hpos := hnear.pos h.value_pos
  have hfactor : roundingFactor ^ 3 ≤ 2 := by norm_num [roundingFactor]
  have hle := hnear.le.trans (mul_le_mul_of_nonneg_right hfactor hpos.le)
  have hge := hnear.ge.trans (mul_le_mul_of_nonneg_right hfactor h.value_pos.le)
  have hlow := h.value_ge
  have hhigh := h.value_le
  have hzero := Binary.isZero_eq_false_iff.2 hpos
  rw [Binary.isZero, beq_eq_false_iff_ne] at hzero
  rw [Binary.value] at hle hge hnear
  refine ⟨Nat.pos_of_ne_zero hzero, of_decide_eq_true hfinite, hnear, ?_, ?_⟩
  · norm_num at *
    linarith
  · norm_num at *
    linarith

/-- What the double is written as. -/
theorem rewrites (h : Writes d m) : Rewrites (d.scaled.shortest .even) d.scaled.magnitude := by
  obtain ⟨hpos, hfinite, -, hlow, -⟩ := h.scaled_bounds
  rw [Binary.shortest, Binary.isZero, if_neg (by simpa using hpos.ne')]
  exact rewrites_shortest .even hpos hfinite (le_trans (by norm_num) hlow)

/-- The second decimal is not small and not large. -/
theorem rewrites_bounds (h : Writes d m) : 1 / 2 ^ 152 ≤ (d.scaled.shortest .even).value ∧
    (d.scaled.shortest .even).value ≤ 2 ^ 130 := by
  obtain ⟨hne, -, hnear⟩ := h.rewrites
  obtain ⟨hpos, -, -, hlow, hhigh⟩ := h.scaled_bounds
  have hfactor : roundingFactor ^ 1 ≤ 2 := by norm_num [roundingFactor]
  have hle := hnear.le.trans (mul_le_mul_of_nonneg_right hfactor (Format.value_pos hpos).le)
  have hge := hnear.ge.trans (mul_le_mul_of_nonneg_right hfactor (Decimal.value_pos hne).le)
  constructor
  · norm_num at *
    linarith
  · norm_num at *
    linarith

/-- The second decimal can be read. -/
theorem readable_rewritten (h : Writes d m) : d.rewritten.Readable := by
  obtain ⟨hne, hdigits, -⟩ := h.rewrites
  obtain ⟨hlow, hhigh⟩ := h.rewrites_bounds
  have hvalue := Json.doubleLayout.value_written (d.scaled.shortest .even)
  rw [Decimal.rewritten]
  generalize d.scaled.shortest .even = e at *
  have hmany : 10 ^ 18 < e.value * 10 ^ 64 := by
    norm_num at *
    linarith
  have hfew : e.value < 10 ^ 64 := hhigh.trans_lt (by norm_num)
  obtain ⟨hne', hlt, hexponent⟩ := Layout.written_parts hne hdigits hmany hfew
  refine ⟨hne', hlt, hexponent, ?_, ?_⟩
  · rw [hvalue]
    exact le_trans (by norm_num) hlow
  · rw [hvalue]
    exact hhigh.trans (by norm_num)

/-- Where the decimal is a short midpoint, so is the second one, and it is read as it is. -/
theorem scaled_rewritten_eq (h : Writes d m) (hmid : d.IsMidpoint) (hshort : d.coefficient < coefficientBound) :
    d.rewritten.scaled.value = d.value := by
  obtain ⟨hpos, hfinite, -, hlow, -⟩ := h.scaled_bounds
  have hreadable := h.readable_rewritten
  have hexact : d.value = double.value d.scaled.magnitude :=
    (hmid.scaled_eq_of_short h.readable hshort).symm
  obtain ⟨heq, hlt⟩ := shortest_of_exact .even hpos hfinite (le_trans (by norm_num) hlow) h.ne_zero hshort
    hexact
  have hshortest : d.scaled.shortest .even = double.shortest .even d.scaled.magnitude := by
    rw [Binary.shortest, Binary.isZero, if_neg (by simpa using hpos.ne')]
  have hvalue : d.rewritten.value = d.value := by
    rw [Decimal.rewritten, Layout.value_written, hshortest, heq]
  have hmid' : d.rewritten.IsMidpoint := by rwa [Decimal.IsMidpoint, hvalue]
  have hform : d.rewritten = double.shortest .even d.scaled.magnitude ∨ ∃ c, d.rewritten = ⟨c, -1⟩ := by
    rw [Decimal.rewritten, hshortest, Layout.written]
    split_ifs
    · exact .inr ⟨_, rfl⟩
    · exact .inl rfl
  rw [← hvalue]
  obtain hsame | ⟨c, hc⟩ := hform
  · exact hmid'.scaled_eq_of_short hreadable (hsame ▸ hlt)
  · rw [hc] at hreadable hmid' ⊢
    exact hmid'.scaled_eq hreadable (hmid'.value_ofNat_tenths hreadable.lt)
      (show (-1 : Int).natAbs ≤ 22 by decide)

/-- **Writing the double and reading it again** gives a double that rounds to the single. -/
theorem narrow_rewritten (h : Writes d m) : d.rewritten.scaled.narrow.magnitude = m := by
  obtain ⟨-, -, hfirst, -, -⟩ := h.scaled_bounds
  obtain ⟨hfinite, -, hsecond⟩ := h.readable_rewritten.scaled_near
  rw [Decimal.rewritten, Layout.value_written, ← Decimal.rewritten] at hsecond
  have hnear := (hfirst.trans h.rewrites.near.symm).trans hsecond
  refine h.narrow_of_near hfinite hnear h.scaled_rewritten_eq fun hreads => ?_
  simp only [Decimal.readsNearest, Bool.and_eq_true, beq_iff_eq] at hreads
  exact hreads.2

end Writes

end Format

end Pedalboard
