import Mathlib
import Pedalboard.Proofs.Decimal.Scaled

/-!
# Reading back what was written

A single is written as its shortest decimal, read as a double by `Decimal.quick?`, and rounded to a
single again.

**Theorem (`Format.Writes.narrow_of_near`).** A double that is a few roundings from the decimal rounds
to the single that was written. If not, a midpoint would lie between the decimal and the double. The
decimal is then so much closer to the midpoint than to its single that the grid it stands on is coarse
and its coefficient short, and of those decimals `Pedalboard.Proofs.Decimal.Midpoints` knows that they
are read well, unless the decimal is the midpoint. It is then a double (`Decimal.IsMidpoint.scaled_eq`).
-/

namespace Pedalboard

/-! ## Narrowing -/

theorem Binary.convert_eq {f g : Format} {x : Binary f} (hx : x.isFinite) :
    x.convert g = ofRatio x.negative (x.steps * 2 ^ g.scale) (2 ^ f.scale) := by
  rw [convert, not_isNaN_of_isFinite hx, not_isInfinite_of_isFinite hx]
  rfl

theorem Binary.narrow_magnitude {x : Double} (hx : x.isFinite) : ∃ n m : Nat, 0 < m ∧
    x.narrow.magnitude = Format.single.nearest n m ∧
      (n : ℚ) / m = x.value * 2 ^ Format.single.scale := by
  refine ⟨x.steps * 2 ^ Format.single.scale, 2 ^ Format.double.scale, Nat.two_pow_pos _, ?_, ?_⟩
  · rw [narrow, convert_eq hx]
    rfl
  · push_cast
    rw [steps_eq_value_mul]
    field_simp

/-! ## Midpoints -/

namespace Decimal

/-- A decimal of moderate size with few digits has a small exponent. -/
theorem natAbs_exponent_lt {d : Decimal} {digits k : Nat} (hne : d.coefficient ≠ 0)
    (hdigits : d.coefficient ≤ 10 ^ digits) (hlow : 10 ^ digits < d.value * 10 ^ k)
    (hhigh : d.value < 10 ^ k) : d.exponent.natAbs < k := by
  have hone : (1 : ℚ) ≤ d.coefficient := by exact_mod_cast Nat.one_le_iff_ne_zero.2 hne
  have hgrid : (0 : ℚ) < 10 ^ d.exponent := zpow_pos (by norm_num) _
  have hdigits' : (d.coefficient : ℚ) ≤ 10 ^ digits := by exact_mod_cast hdigits
  rw [value] at hlow hhigh
  by_contra hlarge
  by_cases hpos : 0 ≤ d.exponent
  · have hten : (10 : ℚ) ^ k ≤ 10 ^ d.exponent := by
      rw [← zpow_natCast]
      exact zpow_le_zpow_right₀ (by norm_num) (by omega)
    exact absurd (hten.trans (le_mul_of_one_le_left hgrid.le hone)) (not_le.2 hhigh)
  · have hten : (10 : ℚ) ^ d.exponent * 10 ^ k ≤ 1 := by
      rw [← zpow_natCast, ← zpow_add₀ (by norm_num)]
      exact zpow_le_one_of_nonpos₀ (by norm_num) (by omega)
    rw [mul_assoc] at hlow
    have hle := mul_le_mul hdigits' hten (by positivity) (by positivity)
    linarith

/-- A decimal with the value of a midpoint of singles. -/
def IsMidpoint (d : Decimal) : Prop := ∃ n q : Nat, 0 < n ∧ n < 2 ^ 25 ∧ d.value = n * 2 ^ q / 2 ^ 150

variable {d : Decimal}

/-- A short decimal that is a midpoint has a small exponent. -/
theorem IsMidpoint.exponent_le (h : d.IsMidpoint) (hc : 0 < d.coefficient)
    (hlt : d.coefficient < coefficientBound) : d.exponent.natAbs ≤ 22 := by
  obtain ⟨n, q, hn, hn', heq⟩ := h
  have hcoprime : ∀ r, Nat.Coprime (5 ^ 23) (2 ^ r) := fun r =>
    Nat.Coprime.pow _ _ (by decide)
  have hdvd : ∀ {k : Nat}, 22 < k → 5 ^ 23 ∣ 10 ^ k := fun {k} hk =>
    (Nat.pow_dvd_pow 5 hk).trans (by
      rw [show (10 : Nat) = 5 * 2 from rfl, Nat.mul_pow]
      exact Nat.dvd_mul_right _ _)
  rw [Decimal.value, Decimal.ten_zpow_eq, eq_div_iff (by positivity)] at heq
  by_contra hlarge
  rw [not_le] at hlarge
  split at heq
  · rw [mul_one_div, div_mul_eq_mul_div, div_eq_iff (by positivity)] at heq
    have hnat : d.coefficient * 2 ^ 150 = n * 2 ^ q * 10 ^ d.exponent.natAbs := by exact_mod_cast heq
    have hdiv : 5 ^ 23 ∣ d.coefficient * 2 ^ 150 := by
      rw [hnat]
      exact (hdvd hlarge).mul_left _
    have hle := Nat.le_of_dvd hc ((hcoprime 150).dvd_of_dvd_mul_right hdiv)
    exact absurd (hle.trans_lt hlt) (by decide)
  · have hnat : d.coefficient * 10 ^ d.exponent.natAbs * 2 ^ 150 = n * 2 ^ q := by exact_mod_cast heq
    have hdiv : 5 ^ 23 ∣ n * 2 ^ q := by
      rw [← hnat]
      exact ((hdvd hlarge).mul_left _).mul_right _
    have hle := Nat.le_of_dvd hn ((hcoprime q).dvd_of_dvd_mul_right hdiv)
    exact absurd (hle.trans_lt hn') (by decide)

/-- A midpoint that is read from parts that are doubles is read as it is. -/
theorem IsMidpoint.scaled_eq (h : d.IsMidpoint) (hd : d.Readable)
    (hc : (Binary.ofNat d.coefficient : Double).value = d.coefficient) (hk : d.exponent.natAbs ≤ 22) :
    d.scaled.value = d.value := by
  obtain ⟨n, q, -, hn, heq⟩ := h
  obtain ⟨i, hi⟩ := Format.double.exists_steps_eq (a := n)
    (by rw [show Format.double.fractionBits = 52 from rfl]; omega) (q + (Format.double.scale - 150))
  have hsteps : (Format.double.steps i : ℚ) = d.value * 2 ^ Format.double.scale := by
    rw [hi, heq, show Format.double.scale = 150 + (Format.double.scale - 150) by decide, pow_add]
    push_cast
    rw [pow_add, Nat.add_sub_cancel_left]
    field_simp
  have hifinite : i < Format.double.infinity := by
    refine Format.lt_infinity_of_steps_le ?_
    have hle : (Format.double.steps i : ℚ) ≤ 2 ^ (250 + Format.double.scale) := by
      rw [hsteps, pow_add]
      refine mul_le_mul_of_nonneg_right (hd.high.trans ?_) (by positivity)
      exact pow_le_pow_right₀ one_le_two (by decide)
    exact_mod_cast hle
  have hvalue : d.value = Format.double.value i := (Format.value_eq_iff.2 hsteps).symm
  rw [Binary.value, hd.scaled_of_exact hc hk hifinite hvalue, hvalue]

/-- A short decimal that is a midpoint is read as it is. -/
theorem IsMidpoint.scaled_eq_of_short (h : d.IsMidpoint) (hd : d.Readable)
    (hlt : d.coefficient < coefficientBound) : d.scaled.value = d.value := by
  have hc := Binary.value_ofNat (r := 0) (hlt.trans (by decide)) (by rw [pow_zero, mul_one]; exact hd.lt)
  rw [pow_zero, mul_one] at hc
  exact h.scaled_eq hd hc.2 (h.exponent_le (Nat.pos_of_ne_zero hd.ne_zero) hlt)

end Decimal

namespace Format

variable {f : Format} {m : Nat} {d : Decimal}

theorem nearest_of_nearestDecimal (h : f.nearestDecimal d = m) (hm : 0 < m) (hfinite : m < f.infinity) :
    f.nearest (d.numerator (2 ^ f.scale)) d.denominator = m := by
  rw [nearestDecimal] at h
  split_ifs at h
  · omega
  · omega
  · exact h

theorem value_bounds (h : f.nearest (d.numerator (2 ^ f.scale)) d.denominator = m) (hm : 0 < m)
    (hfinite : m < f.infinity) :
    1 / 2 ≤ d.value * 2 ^ f.scale ∧ d.value * 2 ^ f.scale ≤ f.steps f.infinity := by
  have hratio := d.numerator_div_denominator (2 ^ f.scale)
  push_cast at hratio
  constructor
  · have hnot := mt (nearest_le_iff (f := f) (m := 0) d.denominator_pos).2 (not_le.2 (h ▸ hm))
    rw [not_or, Below, not_or, not_lt, hratio, midpoint_eq] at hnot
    have hzero : f.steps 0 = 0 ∧ f.shift 0 = 0 := by simp [steps, shift]
    simpa [hzero] using hnot.2.1
  · have hbelow := ((nearest_le_iff (f := f) d.denominator_pos).1 h.le).resolve_left (not_le.2 hfinite)
    rw [hratio] at hbelow
    have hmid := (midpoint_lt_steps (f := f) hfinite).le
    exact hbelow.elim (fun hlt => hlt.le.trans hmid) fun heq => heq.1.le.trans hmid

/-! ## Singles -/

theorem steps_single_infinity : single.steps single.infinity = 2 ^ 128 * 2 ^ single.scale := by
  decide +kernel

theorem shift_lt_of_finite (hm : m < single.infinity) : single.shift m < 254 := by
  have hle : m / 2 ^ 23 ≤ 254 := Nat.le_of_lt_succ ((Nat.div_lt_iff_lt_mul (by decide)).2 hm)
  rw [shift, show single.fractionBits = 23 from rfl]
  omega

/-- A midpoint of singles is odd on its grid, and of full length unless that is the finest. -/
theorem exists_odd_midpoint (k : Nat) : ∃ n : Nat, n < 2 ^ 25 ∧ n % 2 = 1 ∧
    (if single.shift k = 0 then 1 else 2 ^ 24) ≤ n ∧
      single.midpoint k / 2 ^ single.scale = n * 2 ^ single.shift k / 2 ^ 150 := by
  obtain ⟨a, hmid, ha, ha'⟩ := single.midpoint_eq_odd k
  rw [show single.fractionBits = 23 from rfl] at ha ha'
  refine ⟨2 * a + 1, by omega, by omega, by split <;> omega, ?_⟩
  rw [hmid, show single.scale = 149 from rfl]
  push_cast
  ring

/-- What is known of a decimal that a single is written as. -/
structure Writes (d : Decimal) (m : Nat) : Prop where
  pos : 0 < m
  finite : m < single.infinity
  ne_zero : d.coefficient ≠ 0
  digits : d.coefficient ≤ 10 ^ 9
  nearest : single.nearest (d.numerator (2 ^ single.scale)) d.denominator = m
  /-- It has the value of a decimal with no smaller coefficient on a grid on which it is next to
  the single. -/
  grid : ∃ d₀ : Decimal, d.coefficient ≤ d₀.coefficient ∧ d.value = d₀.value ∧
    |d₀.value - single.value m| ≤ 10 ^ d₀.exponent

namespace Writes

theorem value_pos (h : Writes d m) : 0 < d.value := Decimal.value_pos h.ne_zero

theorem value_ge (h : Writes d m) : 1 / 2 ^ 150 ≤ d.value := by
  have hlow := (value_bounds h.nearest h.pos h.finite).1
  rw [show single.scale = 149 from rfl] at hlow
  norm_num at *
  linarith

theorem value_le (h : Writes d m) : d.value ≤ 2 ^ 128 := by
  have hhigh := (value_bounds h.nearest h.pos h.finite).2
  rw [steps_single_infinity] at hhigh
  push_cast at hhigh
  exact le_of_mul_le_mul_right hhigh (by positivity)

theorem exponent_small (h : Writes d m) : d.exponent.natAbs < 56 := by
  have hlow := h.value_ge
  have hhigh := h.value_le
  refine Decimal.natAbs_exponent_lt h.ne_zero h.digits ?_ ?_
  · norm_num at *
    linarith
  · norm_num at *
    linarith

/-- The nearest single of the decimal, as `nearestDecimal` finds it. -/
theorem nearestDecimal (h : Writes d m) : single.nearestDecimal d = m := by
  rw [nearestDecimal_eq, h.nearest]
  · refine le_trans ?_ h.value_ge
    rw [show single.scale = 149 from rfl]
    norm_num
  · refine h.value_le.trans_lt ?_
    rw [show single.scale = 149 from rfl]
    norm_num

/-- The decimal can be read. -/
theorem readable (h : Writes d m) : d.Readable where
  ne_zero := h.ne_zero
  lt := h.digits.trans_lt (by decide)
  exponent := h.exponent_small.trans (by decide)
  low := le_trans (by norm_num) h.value_ge
  high := h.value_le.trans (by norm_num)

/-- A decimal that is close to a midpoint has a short coefficient. -/
theorem coefficient_lt (h : Writes d m) {k : Nat}
    (hclose : |d.value - single.midpoint k / 2 ^ single.scale| * 2 ^ 55 ≤ 31 * d.value) :
    d.coefficient < coefficientBound := by
  obtain ⟨d₀, hle, hvalue, hnear⟩ := h.grid
  rw [hvalue] at hclose
  refine lt_of_le_of_lt hle ?_
  have hunit : (0 : ℚ) < 2 ^ single.scale := by positivity
  have hgrid : (0 : ℚ) < 10 ^ d₀.exponent := zpow_pos (by norm_num) _
  have hgap : single.value m ≤ 2 ^ 25 * |single.midpoint k / 2 ^ single.scale - single.value m| := by
    have hsteps := single.steps_le_mul_abs_midpoint_sub m k
    rw [value, div_sub_div_same, abs_div, abs_of_pos hunit, ← mul_div_assoc,
      div_le_div_iff_of_pos_right hunit]
    exact hsteps
  have htri := abs_sub_le (single.midpoint k / 2 ^ single.scale) d₀.value (single.value m)
  rw [abs_sub_comm (single.midpoint k / 2 ^ single.scale) d₀.value] at htri
  have habove := (abs_le.1 hnear).2
  have hsize : d₀.value = d₀.coefficient * 10 ^ d₀.exponent := rfl
  have hbound : (d₀.coefficient : ℚ) * 10 ^ d₀.exponent < (2 ^ 25 + 2) * 10 ^ d₀.exponent := by
    rw [← hsize]
    norm_num at *
    linarith
  exact_mod_cast lt_of_mul_lt_mul_right hbound hgrid.le

/-- A double with the value of the decimal rounds to the single. -/
theorem narrow_of_value_eq (h : Writes d m) {y : Double} (hy : y.isFinite) (hvalue : y.value = d.value) :
    y.narrow.magnitude = m := by
  obtain ⟨n, l, hl, hnarrow, hratio⟩ := Binary.narrow_magnitude hy
  have hratio' := d.numerator_div_denominator (2 ^ single.scale)
  push_cast at hratio'
  rw [hnarrow, ← h.nearest]
  exact nearest_congr hl d.denominator_pos (by rw [hratio, hratio', hvalue])

/-- A double that rounds to another single has a midpoint between itself and the decimal. -/
theorem exists_midpoint_near (h : Writes d m) {y : Double} (hy : y.isFinite)
    (hne : y.narrow.magnitude ≠ m) : ∃ k < single.infinity,
      |d.value - single.midpoint k / 2 ^ single.scale| ≤ |d.value - y.value| := by
  obtain ⟨n, l, hl, hnarrow, hratio⟩ := Binary.narrow_magnitude hy
  have hunit : (0 : ℚ) < 2 ^ single.scale := by positivity
  have hratio' := d.numerator_div_denominator (2 ^ single.scale)
  push_cast at hratio'
  rw [hnarrow] at hne
  obtain ⟨k, hkfinite, hbetween⟩ := exists_midpoint_between (f := single) d.denominator_pos hl
    (h.nearest.trans_ne (Ne.symm hne))
  refine ⟨k, hkfinite, ?_⟩
  rw [hratio', hratio, ← div_le_iff₀ hunit, ← le_div_iff₀ hunit, ← le_div_iff₀ hunit,
    ← div_le_iff₀ hunit] at hbetween
  rw [abs_sub_comm, abs_sub_comm d.value]
  exact Set.abs_sub_left_of_mem_uIcc (Set.mem_uIcc.2 hbetween)

/-- **A double a few roundings from the decimal** rounds to the single, if it is the decimal where that
is a midpoint, and if what was tried out says so of it. -/
theorem narrow_of_near (h : Writes d m) {y : Double} (hy : y.isFinite) (hnear : Near 7 d.value y.value)
    (hexact : d.IsMidpoint → d.coefficient < coefficientBound → y.value = d.value)
    (htried : d.readsNearest = true → y.narrow.magnitude = single.nearestDecimal d) :
    y.narrow.magnitude = m := by
  by_contra hne
  obtain ⟨k, hkfinite, hmid⟩ := h.exists_midpoint_near hy hne
  have hclose : |d.value - single.midpoint k / 2 ^ single.scale| * 2 ^ 55 ≤ 31 * d.value := by
    have hfactor : roundingFactor ^ 7 - 1 ≤ 31 / 2 ^ 55 := by norm_num [roundingFactor]
    have hle := (hmid.trans (hnear.abs_sub_le h.value_pos)).trans
      (mul_le_mul_of_nonneg_right hfactor h.value_pos.le)
    rw [div_mul_eq_mul_div, le_div_iff₀ (by positivity)] at hle
    exact hle
  have hshort := h.coefficient_lt hclose
  obtain ⟨n, hn, hodd, hleast, hvalue⟩ := exists_odd_midpoint k
  have hclose' : |d.value - n * 2 ^ single.shift k / 2 ^ 150| * 2 ^ 50 ≤ d.value := by
    rw [← hvalue]
    have hpos := h.value_pos
    norm_num at hclose ⊢
    linarith
  rcases eq_or_reads_of_close h.ne_zero hshort hn hodd (shift_lt_of_finite hkfinite) hleast hclose'
    with heq | hreads
  · -- the decimal is the midpoint, and is read exactly
    have hmidpoint : d.IsMidpoint := ⟨n, single.shift k, by omega, hn, heq⟩
    exact hne (h.narrow_of_value_eq hy (hexact hmidpoint hshort))
  · exact hne ((htried hreads).trans h.nearestDecimal)

/-- **Reading a single back** as a double and rounding that gives the single. -/
theorem narrow_scaled (h : Writes d m) : d.scaled.narrow.magnitude = m := by
  obtain ⟨hfinite, -, hnear⟩ := h.readable.scaled_near
  refine h.narrow_of_near hfinite (hnear.mono (by decide) h.value_pos) (fun hmid hshort => ?_) fun hreads => ?_
  · exact hmid.scaled_eq_of_short h.readable hshort
  · simp only [Decimal.readsNearest, Bool.and_eq_true, beq_iff_eq] at hreads
    exact hreads.1

end Writes

/-- **The shortest decimal of a single** reads back as the single. -/
theorem writes_shortest (tie : Tie) (hm : 0 < m) (hfinite : m < single.infinity) :
    Writes (single.shortest tie m) m := by
  obtain ⟨d₀, hneighbour, hdigits, hshortest⟩ := exists_shortest covered_single tie hm hfinite
  obtain ⟨hne, hle, hvalue⟩ := Decimal.strip_spec single.maxDigits hneighbour.coefficient_ne_zero
  rw [hshortest]
  refine ⟨hm, hfinite, hne, hle.trans hdigits, ?_, d₀, hle, hvalue, hneighbour.near⟩
  refine Eq.trans (nearest_congr (Decimal.denominator_pos _) (Decimal.denominator_pos _) ?_)
    (nearest_of_nearestDecimal hneighbour.reads hm hfinite)
  rw [Decimal.numerator_div_denominator, Decimal.numerator_div_denominator, hvalue]

end Format

end Pedalboard
