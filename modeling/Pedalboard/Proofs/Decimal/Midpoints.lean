import Mathlib
import Pedalboard.Json.Printer
import Pedalboard.Proofs.Decimal.Numeral
import Pedalboard.Proofs.Decimal.Value

/-!
# Short decimals close to a midpoint

Reading a decimal as a double and rounding that to a single can go wrong only where a midpoint of
singles lies very close to the decimal. Midpoints are `n * 2 ^ j` with an odd `n < 2 ^ 25`, and the
decimals that are written are `c * 10 ^ k` with `c` about as large.

**Brackets** (`Bracket`). Two fractions next to a ratio `a / b`, one on each side, of determinant
one. All pairs of naturals are integer combinations of the two, so a small pair `c`, `n` with
`c * a` close to `n * b` is a multiple of one of them (`Bracket.Valid.multiple`). `Bracket.refine`
finds them as the Euclidean algorithm does.

**Theorem (`eq_or_reads_of_close`).** A short decimal within `2 ^ -50` of a midpoint, beside its
size, is that midpoint or one of about thirty that are tried out here. These are read back as
their nearest single, also if the double that was read first is written and read once more.
-/

namespace Pedalboard

/-! ## Brackets -/

/-- Two fractions `q / p ≤ a / b ≤ q' / p'` with the distances `l = p * a - q * b` and
`l' = q' * b - p' * a`. -/
structure Bracket where
  p : Nat
  q : Nat
  l : Nat
  p' : Nat
  q' : Nat
  l' : Nat

namespace Bracket

structure Valid (s : Bracket) (a b : Nat) : Prop where
  lower : s.p * a = s.q * b + s.l
  upper : s.q' * b = s.p' * a + s.l'
  det : s.p * s.q' = s.p' * s.q + 1

def start (a b : Nat) : Bracket := ⟨1, 0, a, 0, 1, b⟩

/-- No pair below the bounds is a sum of both fractions, or one of them is exact. -/
def isFine (s : Bracket) (maxP maxQ : Nat) : Bool :=
  maxP ≤ s.p + s.p' || maxQ ≤ s.q + s.q' || s.l == 0 || s.l' == 0

/-- The most steps, at most `t`, after which `x + t * dx` is still below `bound`. -/
def steps (t x dx bound : Nat) : Nat := if dx = 0 then t else min t ((bound - x - 1) / dx)

/-- Moves the farther end towards the ratio until the bracket is fine. -/
def refine (maxP maxQ : Nat) : Nat → Bracket → Bracket
  | 0, s => s
  | fuel + 1, s =>
    if s.isFine maxP maxQ then s
    else if s.l' ≤ s.l then
      let t := steps (steps (s.l / s.l') s.p s.p' maxP) s.q s.q' maxQ
      refine maxP maxQ fuel
        { s with p := s.p + t * s.p', q := s.q + t * s.q', l := s.l - t * s.l' }
    else
      let t := steps (steps (s.l' / s.l) s.p' s.p maxP) s.q' s.q maxQ
      refine maxP maxQ fuel
        { s with p' := s.p' + t * s.p, q' := s.q' + t * s.q, l' := s.l' - t * s.l }

theorem steps_le (t x dx bound : Nat) : steps t x dx bound ≤ t := by
  rw [steps]
  split
  · exact le_rfl
  · exact Nat.min_le_left _ _

/-- As many steps as fit both bounds do not carry an end past the ratio. -/
theorem steps_mul_le (l l' x dx maxX y dy maxY : Nat) :
    steps (steps (l / l') x dx maxX) y dy maxY * l' ≤ l :=
  (Nat.mul_le_mul_right _ ((steps_le _ _ _ _).trans (steps_le _ _ _ _))).trans
    (Nat.div_mul_le_self _ _)

variable {a b c n maxP maxQ : Nat} {s : Bracket}

theorem valid_start (a b : Nat) : (start a b).Valid a b := ⟨by simp [start], by simp [start], rfl⟩

theorem Valid.refine (h : s.Valid a b) (fuel : Nat) : (s.refine maxP maxQ fuel).Valid a b := by
  induction fuel generalizing s with
  | zero => exact h
  | succ fuel ih =>
    rw [Bracket.refine]
    split
    · exact h
    · split
      · refine ih ?_
        have hle := steps_mul_le s.l s.l' s.p s.p' maxP s.q s.q' maxQ
        generalize steps (steps (s.l / s.l') s.p s.p' maxP) s.q s.q' maxQ = t at hle
        obtain ⟨d, hd⟩ := Nat.exists_eq_add_of_le hle
        refine ⟨?_, h.upper, ?_⟩
        · simp only [hd, Nat.add_sub_cancel_left]
          linear_combination h.lower - t * h.upper + hd
        · simp only
          linear_combination h.det
      · refine ih ?_
        have hle := steps_mul_le s.l' s.l s.p' s.p maxP s.q' s.q maxQ
        generalize steps (steps (s.l' / s.l) s.p' s.p maxP) s.q' s.q maxQ = t at hle
        obtain ⟨d, hd⟩ := Nat.exists_eq_add_of_le hle
        refine ⟨h.lower, ?_, ?_⟩
        · simp only [hd, Nat.add_sub_cancel_left]
          linear_combination h.upper - t * h.lower + hd
        · simp only
          linear_combination h.det

/-- Every pair combines the two ends, and its distance from the ratio combines theirs. -/
theorem Valid.exists_combination (h : s.Valid a b) (c n : Nat) : ∃ x y : ℤ,
    (c : ℤ) = x * s.p + y * s.p' ∧ (n : ℤ) = x * s.q + y * s.q' ∧
      (c * a - n * b : ℤ) = x * s.l - y * s.l' := by
  have hlower : (s.p * a : ℤ) = s.q * b + s.l := by exact_mod_cast h.lower
  have hupper : (s.q' * b : ℤ) = s.p' * a + s.l' := by exact_mod_cast h.upper
  have hdet : (s.p * s.q' : ℤ) = s.p' * s.q + 1 := by exact_mod_cast h.det
  obtain ⟨x, hx⟩ : ∃ x : ℤ, x = c * s.q' - n * s.p' := ⟨_, rfl⟩
  obtain ⟨y, hy⟩ : ∃ y : ℤ, y = n * s.p - c * s.q := ⟨_, rfl⟩
  have hc : (c : ℤ) = x * s.p + y * s.p' := by
    rw [hx, hy]
    linear_combination -c * hdet
  have hn : (n : ℤ) = x * s.q + y * s.q' := by
    rw [hx, hy]
    linear_combination -n * hdet
  refine ⟨x, y, hc, hn, ?_⟩
  rw [hc, hn]
  linear_combination x * hlower - y * hupper

theorem le_mul_natCast {z : ℤ} (hz : 0 < z) (k : Nat) : (k : ℤ) ≤ z * k :=
  le_mul_of_one_le_left (Int.natCast_nonneg k) hz

theorem mul_natCast_le {z : ℤ} (hz : z < 0) (k : Nat) : z * k ≤ -k := by
  linarith [le_mul_natCast (neg_pos.2 hz) k]

/-- A combination that is positive and close to the ratio takes nothing away from either end. -/
theorem nonneg_of_close {p p' l l' : Nat} {x y : ℤ} (hpos : 0 < x * p + y * p')
    (hclose : |x * l - y * l'| < l + l') : 0 ≤ x ∧ 0 ≤ y := by
  have hnonpos : ∀ {z : ℤ} (k : Nat), z ≤ 0 → z * k ≤ 0 := fun k hz =>
    mul_nonpos_of_nonpos_of_nonneg hz (Int.natCast_nonneg k)
  obtain ⟨hlow, hhigh⟩ := abs_lt.1 hclose
  constructor
  · by_contra! hx
    rcases le_or_gt y 0 with hy | hy
    · linarith [hnonpos p hx.le, hnonpos p' hy]
    · linarith [mul_natCast_le hx l, le_mul_natCast hy l']
  · by_contra! hy
    rcases le_or_gt x 0 with hx | hx
    · linarith [hnonpos p hx, hnonpos p' hy.le]
    · linarith [le_mul_natCast hx l, mul_natCast_le hy l']

/-- A sum of both ends of a fine bracket is too large, or too far off. -/
theorem not_isFine_of_sum {x y : ℤ} (hx : 0 < x) (hy : 0 < y) (hc : x * s.p + y * s.p' < maxP)
    (hn : x * s.q + y * s.q' < maxQ) (hclose : |x * s.l - y * s.l'| < s.l + s.l') :
    ¬s.isFine maxP maxQ := by
  obtain ⟨hlow, hhigh⟩ := abs_lt.1 hclose
  simp only [isFine, Bool.or_eq_true, decide_eq_true_eq, beq_iff_eq]
  rintro (((hfine | hfine) | hfine) | hfine)
  · zify at hfine
    linarith [le_mul_natCast hx s.p, le_mul_natCast hy s.p']
  · zify at hfine
    linarith [le_mul_natCast hx s.q, le_mul_natCast hy s.q']
  · rw [hfine, Nat.cast_zero, mul_zero] at hlow
    linarith [le_mul_natCast hy s.l']
  · rw [hfine, Nat.cast_zero, mul_zero] at hhigh
    linarith [le_mul_natCast hx s.l]

/-- **A small pair close to the ratio is a multiple of one end** of a fine bracket. -/
theorem Valid.multiple (h : s.Valid a b) (hfine : s.isFine maxP maxQ) (hc : 0 < c) (hcp : c < maxP)
    (hnq : n < maxQ) (hclose : |(c * a - n * b : ℤ)| < s.l + s.l') :
    ∃ x : Nat, c = x * s.p ∧ n = x * s.q ∨ c = x * s.p' ∧ n = x * s.q' := by
  obtain ⟨x, y, hcxy, hnxy, hdiff⟩ := h.exists_combination c n
  rw [hdiff] at hclose
  zify at hc hcp hnq
  rw [hcxy] at hc hcp
  rw [hnxy] at hnq
  obtain ⟨hx, hy⟩ := nonneg_of_close hc hclose
  obtain ⟨x, rfl⟩ := Int.eq_ofNat_of_zero_le hx
  obtain ⟨y, rfl⟩ := Int.eq_ofNat_of_zero_le hy
  rcases hx.eq_or_lt with hx | hx
  · rw [← hx, zero_mul, zero_add] at hcxy hnxy
    exact ⟨y, .inr ⟨by exact_mod_cast hcxy, by exact_mod_cast hnxy⟩⟩
  · rcases hy.eq_or_lt with hy | hy
    · rw [← hy, zero_mul, add_zero] at hcxy hnxy
      exact ⟨x, .inl ⟨by exact_mod_cast hcxy, by exact_mod_cast hnxy⟩⟩
    · exact absurd hfine (not_isFine_of_sum hx hy hcp hnq hclose)

end Bracket

/-! ## Trying out the close ones -/

/-- A decimal as it is read when one multiplication or division is enough. -/
def Decimal.scaled (d : Decimal) : Double :=
  if d.exponent < 0 then .ofNat d.coefficient / .tenPower (-d.exponent).toNat
  else .ofNat d.coefficient * .tenPower d.exponent.toNat

/-- The decimal that is read if the double is written and read once more. -/
def Decimal.rewritten (d : Decimal) : Decimal := Json.doubleLayout.written (d.scaled.shortest .even)

/-- Reading as a double first makes no difference, and neither does reading a second time. -/
def Decimal.readsNearest (d : Decimal) : Bool :=
  d.scaled.narrow.magnitude == Format.single.nearestDecimal d &&
    d.rewritten.scaled.narrow.magnitude == Format.single.nearestDecimal d

/-- The bound for coefficients close to a midpoint. -/
def coefficientBound : Nat := 2 ^ 25 + 2

/-- All decimals with an exponent from `k` on whose value is a multiple of `p * 10 ^ k` and not
small are read as their nearest single, if the same multiple of `q` can belong to a midpoint. -/
def multiplesRead (k : Int) (least p q : Nat) : Bool :=
  (List.range (coefficientBound / p + 1)).all fun x =>
    10 * (x * p) < coefficientBound || x * q < least || 2 ^ 25 ≤ x * q || x * q % 2 == 0 ||
      (List.range 8).all fun i =>
        (x * p) % 10 ^ i != 0 || Decimal.readsNearest ⟨x * p / 10 ^ i, k + i⟩

/-- The decimals `c * 10 ^ k` close to a midpoint are read as their nearest single, or are that
midpoint. The quotient of both is `c * a / (n * b)`, and `n` is at least `least`. -/
def closeReads (k : Int) (least a b : Nat) : Bool :=
  let s := (Bracket.start a b).refine coefficientBound (2 ^ 25) 30
  let endReads (p q l : Nat) : Bool := l == 0 || p * a < 2 ^ 50 * l || multiplesRead k least p q
  2 * coefficientBound * a < least * b || 11 * 2 ^ 25 * b < coefficientBound * a ||
    s.isFine coefficientBound (2 ^ 25) && coefficientBound * a < 2 ^ 50 * (s.l + s.l') &&
      endReads s.p s.q s.l && endReads s.p' s.q' s.l'

/-- Decimals `c * 10 ^ (u - 53)` and midpoints `n * 2 ^ (q - 150)`. -/
def rowReads (u q : Nat) : Bool :=
  closeReads (u - 53) (if q = 0 then 1 else 2 ^ 24) (10 ^ u * 2 ^ 150) (2 ^ q * 10 ^ 53)

theorem rowReads_low : ((List.range 43).all fun u => (List.range 254).all fun q => rowReads u q) = true := by
  decide +kernel

theorem rowReads_high :
    ((List.range 43).all fun u => (List.range 254).all fun q => rowReads (43 + u) q) = true := by
  decide +kernel

theorem rowReads_eq_true {u q : Nat} (hu : u < 86) (hq : q < 254) : rowReads u q = true := by
  have hlow := rowReads_low
  have hhigh := rowReads_high
  simp only [List.all_eq_true, List.mem_range] at hlow hhigh
  by_cases hhalf : u < 43
  · exact hlow u hhalf q hq
  · have hrow := hhigh (u - 43) (by omega) q hq
    rwa [Nat.add_sub_cancel' (not_lt.1 hhalf)] at hrow

/-! ## What follows for decimals -/

/-- Zeros can be appended to a coefficient until it is about as large as the bound. -/
theorem exists_scaled_up {c : Nat} (hc : 0 < c) (hlt : c < coefficientBound) :
    ∃ i < 8, c * 10 ^ i < coefficientBound ∧ coefficientBound ≤ 10 * (c * 10 ^ i) := by
  have hdiv : (coefficientBound - 1) / c ≠ 0 := (Nat.div_pos (by omega) hc).ne'
  have hle : c * 10 ^ Nat.log 10 ((coefficientBound - 1) / c) ≤ coefficientBound - 1 := by
    rw [Nat.mul_comm]
    exact (Nat.le_div_iff_mul_le hc).1 (Nat.pow_log_le_self 10 hdiv)
  have hgt := Nat.lt_pow_succ_log_self (b := 10) (by decide) ((coefficientBound - 1) / c)
  rw [Nat.div_lt_iff_lt_mul hc, Nat.pow_succ] at hgt
  refine ⟨Nat.log 10 ((coefficientBound - 1) / c), ?_, by omega, ?_⟩
  · by_contra hge
    have hpow : 10 ^ 8 ≤ 10 ^ Nat.log 10 ((coefficientBound - 1) / c) :=
      Nat.pow_le_pow_right (by decide) (not_lt.1 hge)
    have hmul := (Nat.le_mul_of_pos_left _ hc).trans hle
    exact absurd (hpow.trans hmul) (by decide)
  · rw [show 10 * (c * 10 ^ Nat.log 10 ((coefficientBound - 1) / c)) =
      10 ^ Nat.log 10 ((coefficientBound - 1) / c) * 10 * c by ring]
    omega

theorem reads_of_multiplesRead {k : Int} {least p q x c i : Nat} (h : multiplesRead k least p q = true)
    (hp : 0 < p) (hx : c * 10 ^ i = x * p) (hlt : c * 10 ^ i < coefficientBound)
    (hle : coefficientBound ≤ 10 * (c * 10 ^ i)) (hleast : least ≤ x * q) (hmost : x * q < 2 ^ 25)
    (hodd : x * q % 2 = 1) (hi : i < 8) : Decimal.readsNearest ⟨c, k + i⟩ = true := by
  simp only [multiplesRead, List.all_eq_true, List.mem_range, Bool.or_eq_true, bne_iff_ne,
    decide_eq_true_eq, beq_iff_eq] at h
  have hxp : x < coefficientBound / p + 1 :=
    Nat.lt_succ_iff.2 ((Nat.le_div_iff_mul_le hp).2 (hx ▸ hlt.le))
  rcases h x hxp with (((h | h) | h) | h) | h
  · rw [← hx] at h
    omega
  · omega
  · omega
  · omega
  · have hpow : 0 < 10 ^ i := Nat.pow_pos (by decide)
    rcases h i hi with h | h
    · rw [← hx] at h
      exact absurd (Nat.mul_mod_left _ _) h
    · rwa [← hx, Nat.mul_div_cancel _ hpow] at h

/-- A decimal and a midpoint whose pair is a multiple of one end of a bracket. -/
theorem eq_or_reads_of_end {k : Int} {least a b c i n p q l x : Nat}
    (hend : (l = 0 ∨ p * a < 2 ^ 50 * l) ∨ multiplesRead k least p q = true)
    (hdist : |(p * a - q * b : ℤ)| = l) (hc : 0 < c) (hx : c * 10 ^ i = x * p) (hxq : n = x * q)
    (hlt : c * 10 ^ i < coefficientBound) (hle : coefficientBound ≤ 10 * (c * 10 ^ i)) (hi : i < 8)
    (hn : n < 2 ^ 25) (hodd : n % 2 = 1) (hn' : least ≤ n)
    (hclose : |((c * 10 ^ i : Nat) * a - n * b : ℤ)| * 2 ^ 50 ≤ (c * 10 ^ i : Nat) * a) :
    c * 10 ^ i * a = n * b ∨ Decimal.readsNearest ⟨c, k + i⟩ = true := by
  have hpos : 0 < x * p := hx ▸ Nat.mul_pos hc (Nat.pow_pos (by decide))
  have hdiff : |((c * 10 ^ i : Nat) * a - n * b : ℤ)| = x * l := by
    rw [← hdist, ← Nat.abs_cast x, ← abs_mul, hx, hxq]
    push_cast
    ring_nf
  rcases hend with (hl | hl) | hl
  · left
    rw [hl, Nat.cast_zero, mul_zero, abs_eq_zero, sub_eq_zero] at hdiff
    exact_mod_cast hdiff
  · rw [hdiff, hx] at hclose
    have hfar := Nat.mul_lt_mul_of_pos_left hl (Nat.pos_of_mul_pos_right hpos)
    zify at hfar
    push_cast at hclose
    linarith
  · subst hxq
    exact .inr (reads_of_multiplesRead hl (Nat.pos_of_mul_pos_left hpos) hx hlt hle hn' hn hodd hi)

/-- What is tried out says something about one decimal and one midpoint. -/
theorem eq_or_reads_of_closeReads {k : Int} {least a b c i n : Nat}
    (h : closeReads k least a b = true) (hc : 0 < c)
    (hlt : c * 10 ^ i < coefficientBound) (hle : coefficientBound ≤ 10 * (c * 10 ^ i)) (hi : i < 8)
    (hn : n < 2 ^ 25) (hodd : n % 2 = 1) (hn' : least ≤ n)
    (hclose : |((c * 10 ^ i : Nat) * a - n * b : ℤ)| * 2 ^ 50 ≤ (c * 10 ^ i : Nat) * a) :
    c * 10 ^ i * a = n * b ∨ Decimal.readsNearest ⟨c, k + i⟩ = true := by
  have hcpos : 0 < c * 10 ^ i := Nat.mul_pos hc (Nat.pow_pos (by decide))
  have hvalid : ((Bracket.start a b).refine coefficientBound (2 ^ 25) 30).Valid a b :=
    (Bracket.valid_start a b).refine 30
  simp only [closeReads, Bool.or_eq_true, Bool.and_eq_true, decide_eq_true_eq, beq_iff_eq] at h
  generalize (Bracket.start a b).refine coefficientBound (2 ^ 25) 30 = s at h hvalid
  obtain ⟨hbelow, habove⟩ : -((c * 10 ^ i : Nat) * a : ℤ) ≤
      ((c * 10 ^ i : Nat) * a - n * b) * 2 ^ 50 ∧
      ((c * 10 ^ i : Nat) * a - n * b) * 2 ^ 50 ≤ ((c * 10 ^ i : Nat) * a : ℤ) :=
    abs_le.1 (by rwa [abs_mul, abs_pow, abs_two])
  have hup : ((c * 10 ^ i : Nat) * a : ℤ) ≤ coefficientBound * a := by
    exact_mod_cast Nat.mul_le_mul_right a hlt.le
  have hdown : (coefficientBound * a : ℤ) ≤ 10 * (c * 10 ^ i : Nat) * a := by
    exact_mod_cast Nat.mul_le_mul_right a hle
  have hleast : (least * b : ℤ) ≤ n * b := by exact_mod_cast Nat.mul_le_mul_right b hn'
  have hmost : (n * b : ℤ) ≤ 2 ^ 25 * b := by exact_mod_cast Nat.mul_le_mul_right b hn.le
  rcases h with (h | h) | ⟨⟨⟨hfine, hends⟩, hlower⟩, hupper⟩
  · zify at h
    linarith
  · zify at h
    linarith
  · have hsmall : |((c * 10 ^ i : Nat) * a - n * b : ℤ)| < s.l + s.l' := by
      zify at hends
      linarith
    obtain ⟨x, ⟨hx, hxq⟩ | ⟨hx, hxq⟩⟩ := hvalid.multiple hfine hcpos hlt hn hsmall
    · refine eq_or_reads_of_end hlower ?_ hc hx hxq hlt hle hi hn hodd hn' hclose
      rw [← Nat.abs_cast s.l]
      congr 1
      have := hvalid.lower
      zify at this
      linarith
    · refine eq_or_reads_of_end hupper ?_ hc hx hxq hlt hle hi hn hodd hn' hclose
      rw [← Nat.abs_cast s.l', ← abs_neg]
      congr 1
      have := hvalid.upper
      zify at this
      linarith

/-- A decimal with a coefficient about as large as the bound, close to a midpoint, has an exponent
in the range that was tried out. -/
theorem exponent_bounds {v : ℚ} {c n q : Nat} {k : Int} (hvalue : v = c * 10 ^ k)
    (hup : c < coefficientBound) (hdown : coefficientBound ≤ 10 * c) (hn : n < 2 ^ 25) (hpos : 0 < n)
    (hq : q < 254) (hclose : v ≤ 2 * (n * 2 ^ q / 2 ^ 150))
    (hclose' : (n * 2 ^ q / 2 ^ 150 : ℚ) ≤ 2 * v) : -53 ≤ k ∧ k < 33 := by
  have hcup : (c : ℚ) ≤ coefficientBound := by exact_mod_cast hup.le
  have hcdown : (coefficientBound / 10 : ℚ) ≤ c := by
    rw [div_le_iff₀ (by norm_num), mul_comm]
    exact_mod_cast hdown
  constructor
  · by_contra hlt
    have hten : (10 : ℚ) ^ k ≤ 10 ^ (-54 : ℤ) := zpow_le_zpow_right₀ (by norm_num) (by omega)
    have hone : (1 : ℚ) ≤ n * 2 ^ q := by exact_mod_cast Nat.mul_pos hpos (Nat.two_pow_pos q)
    have hle : v ≤ coefficientBound * 10 ^ (-54 : ℤ) := by
      rw [hvalue]
      exact mul_le_mul hcup hten (zpow_pos (by norm_num) _).le (Nat.cast_nonneg _)
    have hge : (1 : ℚ) / 2 ^ 150 ≤ 2 * (coefficientBound * 10 ^ (-54 : ℤ)) :=
      (div_le_div_of_nonneg_right hone (by positivity)).trans (hclose'.trans (by linarith))
    norm_num [coefficientBound] at hge
  · by_contra hge
    have hten : (10 : ℚ) ^ (33 : ℤ) ≤ 10 ^ k := zpow_le_zpow_right₀ (by norm_num) (by omega)
    have hnq : (n * 2 ^ q : ℚ) ≤ 2 ^ 25 * 2 ^ 253 :=
      mul_le_mul (by exact_mod_cast hn.le) (pow_le_pow_right₀ one_le_two (by omega)) (by positivity)
        (by positivity)
    have hle : (coefficientBound / 10 : ℚ) * 10 ^ (33 : ℤ) ≤ v := by
      rw [hvalue]
      exact mul_le_mul hcdown hten (by positivity) (by positivity)
    have hbound : (coefficientBound / 10 : ℚ) * 10 ^ (33 : ℤ) ≤ 2 * (2 ^ 25 * 2 ^ 253 / 2 ^ 150) :=
      (hle.trans hclose).trans
        (mul_le_mul_of_nonneg_left (div_le_div_of_nonneg_right hnq (by positivity)) two_pos.le)
    norm_num [coefficientBound] at hbound

/-- A decimal in units of `10 ^ -53 * 2 ^ -150`. -/
theorem value_mul_unit {v : ℚ} {c u : Nat} {k : Int} (hvalue : v = c * 10 ^ k) (hk : k = u - 53) :
    v * (10 ^ 53 * 2 ^ 150) = c * (10 ^ u * 2 ^ 150 : Nat) := by
  rw [hvalue, hk, zpow_sub₀ (by norm_num), zpow_natCast]
  push_cast
  field_simp
  norm_cast

/-- A midpoint in units of `10 ^ -53 * 2 ^ -150`. -/
theorem midpoint_mul_unit (n q : Nat) :
    (n * 2 ^ q / 2 ^ 150 : ℚ) * (10 ^ 53 * 2 ^ 150) = n * (2 ^ q * 10 ^ 53 : Nat) := by
  push_cast
  field_simp
  norm_num

section CommonUnit

/-! Whole multiples of a common unit compare as whole numbers. -/

variable {v m unit : ℚ} {c n a b : Nat}

theorem close_of_mul_unit (hunit : 0 < unit) (hv : v * unit = c * a) (hm : m * unit = n * b)
    (hclose : |v - m| * 2 ^ 50 ≤ v) : |(c * a - n * b : ℤ)| * 2 ^ 50 ≤ c * a := by
  have h := mul_le_mul_of_nonneg_right hclose hunit.le
  rw [mul_right_comm, ← abs_of_pos hunit, ← abs_mul, abs_of_pos hunit, sub_mul, hv, hm] at h
  exact_mod_cast h

theorem eq_of_mul_unit (hunit : 0 < unit) (hv : v * unit = c * a) (hm : m * unit = n * b)
    (h : c * a = n * b) : v = m := by
  refine mul_right_cancel₀ hunit.ne' ?_
  rw [hv, hm]
  exact_mod_cast h

end CommonUnit

/-- **A short decimal close to a midpoint** is that midpoint, or reading it as a double first, once or
twice, makes no difference. -/
theorem eq_or_reads_of_close {d : Decimal} {n q : Nat} (hc : d.coefficient ≠ 0)
    (hlt : d.coefficient < coefficientBound) (hn : n < 2 ^ 25) (hodd : n % 2 = 1) (hq : q < 254)
    (hn' : (if q = 0 then 1 else 2 ^ 24) ≤ n)
    (hclose : |d.value - n * 2 ^ q / 2 ^ 150| * 2 ^ 50 ≤ d.value) :
    d.value = n * 2 ^ q / 2 ^ 150 ∨ d.readsNearest = true := by
  obtain ⟨i, hi, hup, hdown⟩ := exists_scaled_up (Nat.pos_of_ne_zero hc) hlt
  have hvalue : d.value = (d.coefficient * 10 ^ i : Nat) * 10 ^ (d.exponent - i) := by
    rw [Decimal.value, zpow_sub₀ (by norm_num), zpow_natCast]
    push_cast
    field_simp
  have hpos : 0 < d.value := Decimal.value_pos hc
  obtain ⟨hlow, hhigh⟩ : -53 ≤ d.exponent - i ∧ d.exponent - i < 33 := by
    obtain ⟨hnear, hnear'⟩ := abs_le.1 ((le_div_iff₀ (by norm_num)).2 hclose)
    have hnpos : 0 < n := lt_of_lt_of_le (by split <;> decide) hn'
    exact exponent_bounds hvalue hup hdown hn hnpos hq (by linarith) (by linarith)
  obtain ⟨u, hu⟩ := Int.eq_ofNat_of_zero_le (show 0 ≤ d.exponent - i + 53 by omega)
  have hrow := rowReads_eq_true (u := u) (by omega) hq
  rw [rowReads] at hrow
  have hvalue' := value_mul_unit hvalue (show d.exponent - i = u - 53 by omega)
  have hmid' := midpoint_mul_unit n q
  have hunit : (0 : ℚ) < 10 ^ 53 * 2 ^ 150 := by positivity
  rcases eq_or_reads_of_closeReads hrow (Nat.pos_of_ne_zero hc) hup hdown hi hn hodd hn'
    (close_of_mul_unit hunit hvalue' hmid' hclose) with h | h
  · exact .inl (eq_of_mul_unit hunit hvalue' hmid' h)
  · right
    rwa [show (u : Int) - 53 + i = d.exponent by omega] at h

end Pedalboard
