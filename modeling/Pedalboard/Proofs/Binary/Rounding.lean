import Mathlib
import Pedalboard.Binary.Basic

/-!
# Rounding to the nearest magnitude

**Midpoints** (`Format.midpoint`). The value halfway between a magnitude and the next, in steps.

**Theorem (`Format.nearest_le_iff`).** A quotient rounds to `m` or below exactly when it lies
below the midpoint over `m`, or on it with `m` even. So rounding is a matter of thresholds, and the
rest follows from their order: values that are magnitudes round to themselves
(`Format.nearest_of_eq_steps`), the error is at most half the last place
(`Format.abs_sub_steps_le`), and two values that round differently have a midpoint between them
(`Format.exists_midpoint_between`). Naturals of few digits are such values (`Binary.steps_ofNat`).
-/

namespace Pedalboard

namespace Format

variable {f : Format} {m n d : Nat}

/-! ## Steps -/

theorem steps_add {q a : Nat} (ha : a < 2 * 2 ^ f.fractionBits)
    (hq : q = 0 ∨ 2 ^ f.fractionBits ≤ a) :
    f.shift (q * 2 ^ f.fractionBits + a) = q ∧ f.steps (q * 2 ^ f.fractionBits + a) = a * 2 ^ q := by
  have hpos : 0 < 2 ^ f.fractionBits := Nat.two_pow_pos _
  have hshift : f.shift (q * 2 ^ f.fractionBits + a) = q := by
    rw [shift, Nat.add_comm, Nat.add_mul_div_right _ _ hpos]
    have hlt : a / 2 ^ f.fractionBits < 2 := Nat.div_lt_of_lt_mul (by rwa [Nat.mul_comm])
    rcases hq with rfl | hle
    · omega
    · have : 1 ≤ a / 2 ^ f.fractionBits := (Nat.one_le_div_iff hpos).2 hle
      omega
  exact ⟨hshift, by rw [steps, hshift, Nat.add_sub_cancel_left]⟩

/-- Every magnitude is a shift and a significand. -/
theorem exists_eq_add (f : Format) (m : Nat) : ∃ q a, m = q * 2 ^ f.fractionBits + a ∧
    a < 2 * 2 ^ f.fractionBits ∧ (q = 0 ∨ 2 ^ f.fractionBits ≤ a) := by
  have hdiv := Nat.div_add_mod m (2 ^ f.fractionBits)
  have hmod := Nat.mod_lt m (Nat.two_pow_pos f.fractionBits)
  cases hq : m / 2 ^ f.fractionBits with
  | zero =>
    rw [hq] at hdiv
    exact ⟨0, m, by omega, by omega, .inl rfl⟩
  | succ q =>
    rw [hq, Nat.mul_succ, Nat.mul_comm] at hdiv
    exact ⟨q, 2 ^ f.fractionBits + m % 2 ^ f.fractionBits, by omega, by omega, .inr (by omega)⟩

theorem steps_succ (f : Format) (m : Nat) : f.steps (m + 1) = f.steps m + 2 ^ f.shift m := by
  obtain ⟨q, a, rfl, ha, hq⟩ := f.exists_eq_add m
  obtain ⟨hshift, hsteps⟩ := steps_add ha hq
  rw [hshift, hsteps]
  by_cases hnext : a + 1 < 2 * 2 ^ f.fractionBits
  · rw [Nat.add_assoc, (steps_add hnext (hq.imp_right fun h => by omega)).2, Nat.add_mul, one_mul]
  · have heq : q * 2 ^ f.fractionBits + a + 1 = (q + 1) * 2 ^ f.fractionBits + 2 ^ f.fractionBits := by
      rw [Nat.add_mul, one_mul]
      omega
    have ha' : a + 1 = 2 * 2 ^ f.fractionBits := by omega
    rw [heq, (steps_add (by have := Nat.two_pow_pos f.fractionBits; omega) (.inr le_rfl)).2,
      ← Nat.succ_mul, Nat.succ_eq_add_one, ha', Nat.pow_succ]
    ring

theorem steps_strictMono (f : Format) : StrictMono f.steps :=
  strictMono_nat_of_lt_succ fun m => by
    rw [steps_succ]
    exact Nat.lt_add_of_pos_right (Nat.two_pow_pos _)

theorem shift_mono (f : Format) : Monotone f.shift := fun _ _ h =>
  Nat.sub_le_sub_right (Nat.div_le_div_right h) 1

/-- The last place of a normal magnitude is small beside it. -/
theorem two_pow_shift_le_steps (hm : 2 ^ f.fractionBits ≤ m) :
    2 ^ f.fractionBits * 2 ^ f.shift m ≤ f.steps m := by
  obtain ⟨q, a, rfl, ha, hq⟩ := f.exists_eq_add m
  obtain ⟨hshift, hsteps⟩ := steps_add ha hq
  rw [hshift, hsteps]
  refine Nat.mul_le_mul_right _ ?_
  rcases hq with rfl | hle
  · simpa using hm
  · exact hle

/-- The value of a magnitude is less than a power of two of last places. -/
theorem steps_add_le_two_pow (f : Format) (m : Nat) :
    f.steps m + 2 ^ f.shift m ≤ 2 ^ (f.fractionBits + 1) * 2 ^ f.shift m := by
  obtain ⟨q, a, rfl, ha, hq⟩ := f.exists_eq_add m
  obtain ⟨hshift, hsteps⟩ := steps_add ha hq
  rw [hshift, hsteps, Nat.pow_succ', ← Nat.succ_mul]
  exact Nat.mul_le_mul_right _ ha

/-- A short significand, shifted, is the value of a magnitude. -/
theorem exists_steps_eq (f : Format) {a : Nat} (ha : a < 2 * 2 ^ f.fractionBits) (q : Nat) :
    ∃ m, f.steps m = a * 2 ^ q := by
  induction q generalizing a with
  | zero => exact ⟨_, (steps_add ha (.inl rfl)).2⟩
  | succ q ih =>
    by_cases hle : 2 ^ f.fractionBits ≤ a
    · exact ⟨_, (steps_add ha (.inr hle)).2⟩
    · obtain ⟨m, hm⟩ := @ih (a * 2) (by omega)
      exact ⟨m, by rw [hm, Nat.pow_succ]; ring⟩

/-! ## Midpoints -/

/-- The value halfway between a magnitude and the next, in steps. -/
def midpoint (f : Format) (m : Nat) : ℚ := (f.steps m + f.steps (m + 1)) / 2

theorem midpoint_eq (f : Format) (m : Nat) : f.midpoint m = f.steps m + 2 ^ f.shift m / 2 := by
  rw [midpoint, steps_succ]
  push_cast
  ring

theorem steps_lt_midpoint (f : Format) (m : Nat) : (f.steps m : ℚ) < f.midpoint m := by
  rw [midpoint_eq]
  exact lt_add_of_pos_right _ (by positivity)

theorem midpoint_lt_steps {k : Nat} (h : k < m) : f.midpoint k < f.steps m := by
  have hlt : (f.steps k : ℚ) < f.steps (k + 1) := by
    exact_mod_cast f.steps_strictMono (Nat.lt_succ_self k)
  have hle : (f.steps (k + 1) : ℚ) ≤ f.steps m := by
    exact_mod_cast f.steps_strictMono.monotone h
  rw [midpoint]
  linarith

theorem midpoint_mono (f : Format) : StrictMono f.midpoint :=
  strictMono_nat_of_lt_succ fun m =>
    (midpoint_lt_steps (Nat.lt_succ_self m)).trans (f.steps_lt_midpoint (m + 1))

/-- Midpoints have one binary digit more than magnitudes. -/
theorem midpoint_eq_odd (f : Format) (m : Nat) : ∃ a : Nat,
    f.midpoint m = (2 * a + 1) * 2 ^ f.shift m / 2 ∧ a < 2 * 2 ^ f.fractionBits ∧ (f.shift m = 0 ∨ 2 ^ f.fractionBits ≤ a) := by
  obtain ⟨q, a, rfl, ha, hq⟩ := f.exists_eq_add m
  obtain ⟨hshift, hsteps⟩ := steps_add ha hq
  refine ⟨a, ?_, ha, by rwa [hshift]⟩
  rw [midpoint_eq, hshift, hsteps]
  push_cast
  ring

/-- Midpoints keep their distance from magnitudes. -/
theorem steps_le_mul_abs_midpoint_sub (f : Format) (m k : Nat) :
    (f.steps m : ℚ) ≤ 2 ^ (f.fractionBits + 2) * |f.midpoint k - f.steps m| := by
  have hsmall : ∀ i, (f.steps i : ℚ) + 2 ^ f.shift i ≤ 2 ^ (f.fractionBits + 1) * 2 ^ f.shift i :=
    fun i => by exact_mod_cast f.steps_add_le_two_pow i
  have hgap : ∀ i, (2 : ℚ) ^ (f.fractionBits + 1) * 2 ^ f.shift i =
      2 ^ (f.fractionBits + 2) * (2 ^ f.shift i / 2) := fun i => by ring
  have hpow : (0 : ℚ) < 2 ^ (f.fractionBits + 2) := by positivity
  rcases le_or_gt m k with hle | hlt
  · have hmid : (f.steps m : ℚ) + 2 ^ f.shift m / 2 ≤ f.midpoint k := by
      rw [← midpoint_eq]
      exact f.midpoint_mono.monotone hle
    calc (f.steps m : ℚ) ≤ 2 ^ (f.fractionBits + 2) * (2 ^ f.shift m / 2) := by
          rw [← hgap]
          linarith [hsmall m, pow_pos (two_pos : (0 : ℚ) < 2) (f.shift m)]
      _ ≤ _ := mul_le_mul_of_nonneg_left (le_trans (by linarith) (le_abs_self _)) hpow.le
  · obtain ⟨i, rfl⟩ := Nat.exists_eq_succ_of_ne_zero (Nat.ne_zero_of_lt hlt)
    have hsucc : (f.steps (i + 1) : ℚ) = f.steps i + 2 ^ f.shift i := by
      rw [steps_succ]
      push_cast
      rfl
    have hmid : f.midpoint k ≤ f.steps i + 2 ^ f.shift i / 2 := by
      rw [← midpoint_eq]
      exact f.midpoint_mono.monotone (Nat.lt_succ_iff.1 hlt)
    calc (f.steps (i + 1) : ℚ) ≤ 2 ^ (f.fractionBits + 2) * (2 ^ f.shift i / 2) := by
          rw [← hgap, hsucc]
          exact hsmall i
      _ ≤ _ := mul_le_mul_of_nonneg_left (le_trans (by linarith) (neg_le_abs _)) hpow.le

/-- The value rounds to `m` or below, if no magnitude is too large. -/
def Below (f : Format) (v : ℚ) (m : Nat) : Prop := v < f.midpoint m ∨ v = f.midpoint m ∧ m % 2 = 0

theorem below_of_le_steps {v : ℚ} (h : v ≤ f.steps m) : f.Below v m :=
  .inl (h.trans_lt (f.steps_lt_midpoint m))

theorem not_below_of_steps_le {v : ℚ} {k : Nat} (hk : k < m) (h : f.steps m ≤ v) : ¬ f.Below v k :=
  fun hb => by
    have := midpoint_lt_steps (f := f) hk
    rcases hb with hlt | ⟨heq, -⟩ <;> linarith

/-! ## Rounding -/

/-- The magnitude nearest to `n / d` steps, with no regard to infinity. -/
def rounded (f : Format) (n d : Nat) : Nat :=
  let s := (n / d).log2 - f.fractionBits
  s * 2 ^ f.fractionBits + roundHalfEven n (d * 2 ^ s)

theorem nearest_eq_min (f : Format) (n d : Nat) :
    f.nearest n d = min f.infinity (f.rounded n d) := rfl

/-- The magnitude at or below a quotient. -/
theorem exists_floor (f : Format) (n d : Nat) : ∃ q a,
    a < 2 * 2 ^ f.fractionBits ∧ (q = 0 ∨ 2 ^ f.fractionBits ≤ a) ∧
    f.rounded n d = q * 2 ^ f.fractionBits + roundHalfEven n (d * 2 ^ q) ∧ n / (d * 2 ^ q) = a := by
  let s := (n / d).log2 - f.fractionBits
  have hdiv : n / (d * 2 ^ s) = n / d / 2 ^ s := (Nat.div_div_eq_div_mul _ _ _).symm
  refine ⟨s, n / d / 2 ^ s, ?_, ?_, rfl, hdiv⟩
  · rw [Nat.div_lt_iff_lt_mul (Nat.two_pow_pos _), ← Nat.pow_succ', ← Nat.pow_add]
    refine (Nat.lt_log2_self (n := n / d)).trans_le (Nat.pow_le_pow_right (by decide) ?_)
    omega
  · by_cases hs : s = 0
    · exact .inl hs
    · right
      have hne : n / d ≠ 0 := fun h => hs (by simp [s, h])
      rw [Nat.le_div_iff_mul_le (Nat.two_pow_pos _), ← Nat.pow_add]
      refine (Nat.pow_le_pow_right (by decide) ?_).trans (Nat.log2_self_le hne)
      omega

/-- A tie goes down from an even quotient, and up from an odd one. -/
theorem roundHalfEven_bounds (n d : Nat) :
    n / d ≤ roundHalfEven n d ∧ roundHalfEven n d ≤ n / d + 1 ∧
      (roundHalfEven n d = n / d ↔ 2 * (n % d) < d ∨ 2 * (n % d) = d ∧ n / d % 2 = 0) := by
  rw [roundHalfEven]
  split_ifs <;> omega

/-- A quotient is a whole number of last places and a part of the last place. -/
theorem div_eq_add (hd : 0 < d) (q : Nat) :
    (n : ℚ) / d = (n / (d * 2 ^ q) : Nat) * 2 ^ q + (n % (d * 2 ^ q) : Nat) / d := by
  have hdq : (d : ℚ) ≠ 0 := by exact_mod_cast hd.ne'
  have hsum : ((n / (d * 2 ^ q) : Nat) : ℚ) * (d * 2 ^ q) + (n % (d * 2 ^ q) : Nat) = n := by
    exact_mod_cast Nat.div_add_mod' n (d * 2 ^ q)
  rw [← hsum]
  field_simp

/-- **A quotient rounds to one of the two magnitudes around it**, and to the lower one as far as the
midpoint. -/
theorem exists_rounded_bounds (f : Format) (n : Nat) (hd : 0 < d) : ∃ k,
    (f.steps k : ℚ) ≤ n / d ∧ (n / d : ℚ) ≤ f.steps (k + 1) ∧
    k ≤ f.rounded n d ∧ f.rounded n d ≤ k + 1 ∧ (f.rounded n d = k ↔ f.Below (n / d) k) := by
  obtain ⟨q, a, ha, hq, hrounded, hfloor⟩ := f.exists_floor n d
  obtain ⟨hshift, hsteps⟩ := steps_add ha hq
  obtain ⟨hdown, hup, htie⟩ := roundHalfEven_bounds n (d * 2 ^ q)
  have hdq : (0 : ℚ) < d := by exact_mod_cast hd
  have hv := div_eq_add (n := n) hd q
  have hmod := Nat.mod_lt n (Nat.mul_pos hd (Nat.two_pow_pos q))
  rw [hfloor] at hv hdown hup htie
  generalize n % (d * 2 ^ q) = r at hv hmod htie
  have hr : (r : ℚ) / d < 2 ^ q := by
    rw [div_lt_iff₀ hdq, mul_comm]
    exact_mod_cast hmod
  have hr0 : (0 : ℚ) ≤ (r : ℚ) / d := by positivity
  have hhalf : (r : ℚ) / d < 2 ^ q / 2 ↔ 2 * r < d * 2 ^ q := by
    rw [div_lt_div_iff₀ hdq two_pos, mul_comm (r : ℚ) 2, mul_comm _ (d : ℚ)]
    exact_mod_cast Iff.rfl
  have hhalf' : (r : ℚ) / d = 2 ^ q / 2 ↔ 2 * r = d * 2 ^ q := by
    rw [div_eq_div_iff hdq.ne' two_ne_zero, mul_comm (r : ℚ) 2, mul_comm _ (d : ℚ)]
    exact_mod_cast Iff.rfl
  have heven : (q * 2 ^ f.fractionBits + a) % 2 = a % 2 := by
    obtain ⟨b, hb⟩ := Nat.exists_eq_succ_of_ne_zero f.fractionBits_pos.ne'
    rw [hb, Nat.pow_succ, ← Nat.mul_assoc]
    omega
  refine ⟨q * 2 ^ f.fractionBits + a, ?_, ?_, by omega, by omega, ?_⟩
  · rw [hsteps, hv]
    push_cast
    linarith
  · rw [steps_succ, hshift, hsteps, hv]
    push_cast
    linarith
  · rw [hrounded, Nat.add_left_cancel_iff, htie, Below, midpoint_eq, hshift, hsteps, hv, heven]
    push_cast
    rw [add_lt_add_iff_left, add_right_inj, hhalf, hhalf']

theorem rounded_le_iff (hd : 0 < d) : f.rounded n d ≤ m ↔ f.Below (n / d) m := by
  obtain ⟨k, hlow, hhigh, hdown, hup, hk⟩ := f.exists_rounded_bounds n hd
  rcases lt_trichotomy m k with hlt | rfl | hgt
  · exact iff_of_false (by omega) (not_below_of_steps_le hlt hlow)
  · rw [← hk]
    omega
  · refine iff_of_true (by omega) (below_of_le_steps (hhigh.trans ?_))
    exact_mod_cast f.steps_strictMono.monotone hgt

/-- **Rounding goes by thresholds**: the midpoints. -/
theorem nearest_le_iff (hd : 0 < d) :
    f.nearest n d ≤ m ↔ f.infinity ≤ m ∨ f.Below (n / d) m := by
  rw [nearest_eq_min, min_le_iff, rounded_le_iff hd]

/-- Rounding depends on the quotient only. -/
theorem nearest_congr {n' d' : Nat} (hd : 0 < d) (hd' : 0 < d') (h : (n : ℚ) / d = n' / d') :
    f.nearest n d = f.nearest n' d' :=
  eq_of_forall_ge_iff fun m => by rw [nearest_le_iff hd, nearest_le_iff hd', h]

/-- **Values that are magnitudes round to themselves.** -/
theorem nearest_of_eq_steps (hd : 0 < d) (hm : m ≤ f.infinity) (h : (n : ℚ) / d = f.steps m) :
    f.nearest n d = m := by
  refine eq_of_forall_ge_iff fun k => ?_
  rw [nearest_le_iff hd]
  constructor
  · rintro (hk | hk)
    · exact hm.trans hk
    · by_contra hlt
      exact not_below_of_steps_le (not_le.1 hlt) h.ge hk
  · refine fun hk => .inr (below_of_le_steps (h.le.trans ?_))
    exact_mod_cast f.steps_strictMono.monotone hk

theorem nearest_lt_infinity (hd : 0 < d) (hm : m < f.infinity) (h : (n : ℚ) / d ≤ f.steps m) :
    f.nearest n d < f.infinity :=
  ((nearest_le_iff hd).2 (.inr (below_of_le_steps h))).trans_lt hm

/-- **The error of rounding** is at most half the last place. -/
theorem abs_sub_steps_le (hd : 0 < d) (hfinite : f.nearest n d < f.infinity) :
    |(n : ℚ) / d - f.steps (f.nearest n d)| ≤ 2 ^ f.shift (f.nearest n d) / 2 := by
  have hle : f.Below (n / d) (f.nearest n d) :=
    ((nearest_le_iff hd).1 le_rfl).resolve_left (not_le.2 hfinite)
  have hbelow : ∀ k < f.nearest n d, ¬ f.Below (n / d) k := fun k hk hb =>
    absurd ((nearest_le_iff hd).2 (.inr hb)) (not_le.2 hk)
  generalize f.nearest n d = m at *
  have hup : (n : ℚ) / d ≤ f.midpoint m := hle.elim le_of_lt fun h => h.1.le
  rw [midpoint_eq] at hup
  have hlow : (f.steps m : ℚ) - 2 ^ f.shift m / 2 ≤ n / d := by
    cases m with
    | zero =>
      have : (0 : ℚ) ≤ (n : ℚ) / d := by positivity
      have hzero : f.steps 0 = 0 := by simp [steps]
      rw [hzero]
      have : (0 : ℚ) < 2 ^ f.shift 0 := by positivity
      push_cast
      linarith
    | succ k =>
      have hk := hbelow k (Nat.lt_succ_self k)
      rw [Below, not_or, not_lt, midpoint_eq] at hk
      have hshift : (2 : ℚ) ^ f.shift k ≤ 2 ^ f.shift (k + 1) :=
        pow_le_pow_right₀ one_le_two (f.shift_mono (Nat.le_succ k))
      have hsucc : (f.steps (k + 1) : ℚ) = f.steps k + 2 ^ f.shift k := by
        rw [steps_succ]
        push_cast
        rfl
      linarith [hk.1]
  rw [abs_le]
  constructor <;> linarith

/-- The error of rounding beside a result that is normal. -/
theorem abs_sub_steps_le_div (hd : 0 < d) (hfinite : f.nearest n d < f.infinity)
    (hnormal : 2 ^ f.fractionBits ≤ (n : ℚ) / d) :
    |(n : ℚ) / d - f.steps (f.nearest n d)| ≤
      f.steps (f.nearest n d) / (2 * 2 ^ f.fractionBits) := by
  have hsteps : f.steps (2 ^ f.fractionBits) = 2 ^ f.fractionBits := by
    simpa using (@steps_add f 0 (2 ^ f.fractionBits) (by have := Nat.two_pow_pos f.fractionBits; omega)
      (.inl rfl)).2
  have hle : 2 ^ f.fractionBits ≤ f.nearest n d := by
    by_contra hlt
    have hbelow := (nearest_le_iff hd).1 (le_refl (f.nearest n d))
    refine not_below_of_steps_le (not_le.1 hlt) ?_ (hbelow.resolve_left (not_le.2 hfinite))
    rw [hsteps]
    exact_mod_cast hnormal
  refine (abs_sub_steps_le hd hfinite).trans ?_
  have hshift : (2 : ℚ) ^ f.fractionBits * 2 ^ f.shift (f.nearest n d) ≤
      f.steps (f.nearest n d) := by
    exact_mod_cast two_pow_shift_le_steps hle
  rw [div_le_div_iff₀ two_pos (by positivity)]
  linarith

/-- **Two values that round differently** have a midpoint of finite magnitudes between them. -/
theorem exists_midpoint_between {n' d' : Nat} (hd : 0 < d) (hd' : 0 < d')
    (h : f.nearest n d ≠ f.nearest n' d') : ∃ k < f.infinity,
      (n : ℚ) / d ≤ f.midpoint k ∧ f.midpoint k ≤ n' / d' ∨
      (n' : ℚ) / d' ≤ f.midpoint k ∧ f.midpoint k ≤ n / d := by
  wlog hlt : f.nearest n d < f.nearest n' d' generalizing n d n' d'
  · obtain ⟨k, hk, hbetween⟩ := this hd' hd h.symm (lt_of_le_of_ne (not_lt.1 hlt) h.symm)
    exact ⟨k, hk, hbetween.symm⟩
  have hfinite : f.nearest n d < f.infinity :=
    hlt.trans_le ((nearest_eq_min f n' d').trans_le (min_le_left _ _))
  refine ⟨f.nearest n d, hfinite, .inl ⟨?_, ?_⟩⟩
  · exact (((nearest_le_iff hd).1 le_rfl).resolve_left (not_le.2 hfinite)).elim le_of_lt fun h => h.1.le
  · have hnot := mt (nearest_le_iff (f := f) (n := n') (m := f.nearest n d) hd').2 (not_le.2 hlt)
    rw [not_or, Below, not_or, not_lt] at hnot
    exact hnot.2.1

end Format

/-! ## Naturals -/

namespace Binary

variable {f : Format} {m n : Nat}

/-- **A natural of few digits is a number**, unless it is too large. -/
theorem steps_ofNat (hn : n < 2 * 2 ^ f.fractionBits) (hle : n * 2 ^ f.scale ≤ f.steps f.infinity) :
    (ofNat n : Binary f).steps = n * 2 ^ f.scale := by
  obtain ⟨m, hm⟩ := f.exists_steps_eq hn f.scale
  have hmle : m ≤ f.infinity := f.steps_strictMono.le_iff_le.1 (hm ▸ hle)
  have hmag : (ofNat n : Binary f).magnitude = m := by
    refine Format.nearest_of_eq_steps Nat.one_pos hmle ?_
    rw [hm]
    push_cast
    rw [div_one]
  rw [steps, hmag, hm]

/-- Naturals of at most 24 binary digits are different singles. -/
theorem ofNat_single_inj (hm : m < 2 ^ 24) (hn : n < 2 ^ 24) (h : (ofNat m : Single) = ofNat n) :
    m = n := by
  have hroom : 2 ^ 24 * 2 ^ Format.single.scale ≤ Format.single.steps Format.single.infinity := by
    decide +kernel
  have hsteps : ∀ k < 2 ^ 24, (ofNat k : Single).steps = k * 2 ^ Format.single.scale := fun k hk =>
    steps_ofNat hk ((Nat.mul_le_mul_right _ hk.le).trans hroom)
  have heq := congrArg steps h
  rw [hsteps m hm, hsteps n hn] at heq
  exact Nat.eq_of_mul_eq_mul_right (Nat.two_pow_pos _) heq

theorem ofInt_natCast (n : Nat) : (ofInt n : Binary f) = ofNat n := by
  rw [ofInt, decide_eq_false (by omega), Int.natAbs_natCast, ofNat]

end Binary

end Pedalboard
