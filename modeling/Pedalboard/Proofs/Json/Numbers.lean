import Mathlib
import Pedalboard.Json.Parser
import Pedalboard.Json.Printer
import Pedalboard.Proofs.Decimal.Numeral
import Pedalboard.Proofs.Decimal.Rewritten

/-!
# Numbers that are written and read

What the numeral that is written for a number stands for (`ReadsAs`).

**Theorem (`readsAs_twice`).** A finite single is read as a double that rounds to the single, and if this
double is written, it is read as a double that does, too. An integer of 64 bits is read as itself
(`readsAs_integer`).
-/

namespace Pedalboard.Json

/-- The text of a number is a numeral, and it is read as the second number. -/
def ReadsAs (n m : Number) : Prop :=
  ∃ (l : Layout) (a : Numeral), a.Proper ∧ numberText n = l.numeralText a ∧ numberOf? a = some m

/-! ## Integers -/

theorem readsAs_integer {n : Int} (hlow : -(integerBound : Int) ≤ n) (hhigh : n < naturalBound) :
    ReadsAs (.integer n) (.integer n) := by
  have hvalue : digitsValue (Nat.toDigits 10 n.natAbs) = n.natAbs := Nat.ofDigitChars_ten_toDigits
  refine ⟨doubleLayout, ⟨n < 0, Nat.toDigits 10 n.natAbs, none, none⟩,
    ⟨Numeral.isRun_toDigits n.natAbs, ?_, by simp⟩, ?_, ?_⟩
  · by_cases hzero : n.natAbs = 0
    · exact .inl (by rw [hzero, Nat.toDigits_zero])
    · exact .inr (head?_toDigits_ne_zero hzero)
  · simp [numberText, integerText, Layout.numeralText, Layout.fractionText, Layout.exponentPart]
  · simp only [numberOf?, hvalue, Numeral.isInteger, Option.isNone_none, Bool.and_self, true_and,
      decide_eq_false_iff_not, decide_eq_true_eq, not_lt]
    split_ifs with hpos hneg
    · rw [Int.natAbs_of_nonneg hpos.1]
    · rw [show -(n.natAbs : Int) = n by omega]
    · omega

/-! ## Singles -/

theorem narrow_withSign {y : Double} (hy : y.isFinite) (negative : Bool) :
    ({ y with negative } : Double).narrow = { y.narrow with negative } := by
  have hy' : ({ y with negative } : Double).isFinite := hy
  rw [Binary.narrow, Binary.narrow, Binary.convert_eq hy, Binary.convert_eq hy']
  rfl

theorem narrow_of_magnitude {x : Single} {y : Double} (hy : y.isFinite)
    (h : y.narrow.magnitude = x.magnitude) : ({ y with negative := x.negative } : Double).narrow = x := by
  rw [narrow_withSign hy]
  obtain ⟨negative, m, hm⟩ := x
  simp only at h
  subst h
  rfl

/-- A number is read from the decimal that its text was made of. The numeral has a point or an exponent,
so it is no integer. -/
theorem readsAs_of_quick? {n : Number} {l : Layout} {negative : Bool} {d : Decimal} {y : Double}
    (hpoint : l.pointAlways = true) (htext : numberText n = Layout.sign negative ++ l.decimalText d)
    (hne : d.coefficient ≠ 0) (hbound : (l.written d).coefficient < naturalBound)
    (hy : (l.written d).quick? = some y) : ReadsAs n (.double { y with negative }) := by
  have hnegative : (l.numeralOf negative d).negative = negative := by
    rw [Layout.numeralOf]
    split_ifs <;> rfl
  have hinteger : (l.numeralOf negative d).isInteger = false := by
    rw [Layout.numeralOf]
    split_ifs <;> rfl
  rw [← Layout.clip_numeralOf negative hpoint hbound] at hy
  refine ⟨l, _, Layout.proper_numeralOf negative hne, htext.trans (Layout.decimalText_eq _ _ _), ?_⟩
  simp [numberOf?, hinteger, hy, hnegative]

theorem readsAs_zero {n : Number} {negative : Bool}
    (htext : numberText n = Layout.sign negative ++ ['0', '.', '0']) :
    ReadsAs n (.double (.zero negative)) := by
  refine ⟨doubleLayout, ⟨negative, ['0'], some ['0'], none⟩,
    ⟨⟨by simp, by simp⟩, .inl rfl, by simp [Numeral.IsRun]⟩, htext, ?_⟩
  have hquick : (Numeral.clip ⟨negative, ['0'], some ['0'], none⟩).quick? = some (.zero false) := by
    cases negative <;> decide +kernel
  simp [numberOf?, Numeral.isInteger, hquick]
  rfl

/-- Two decimals of one natural are read as one double if all their parts are doubles. -/
theorem scaled_eq_of_exact {d e : Decimal} {n : Nat} (hd : d.Readable) (he : e.Readable)
    (hdc : d.coefficient < 2 ^ 53) (hec : e.coefficient < 2 ^ 53) (hdk : d.exponent.natAbs ≤ 22)
    (hek : e.exponent.natAbs ≤ 22) (hn : n < 2 ^ 53) (hdn : d.value = n) (hen : e.value = n) :
    e.scaled = d.scaled := by
  have hnatural : ∀ c < 2 ^ 53, (Binary.ofNat c : Double).isFinite ∧ (Binary.ofNat c : Double).value = c := by
    intro c hc
    have hvalue := Binary.value_ofNat (r := 0) hc (by rw [pow_zero, mul_one]; exact hc.trans (by decide))
    rwa [pow_zero, mul_one] at hvalue
  obtain ⟨hfinite, hvalue⟩ := hnatural n hn
  have hexact : ∀ {x : Decimal}, x.Readable → x.coefficient < 2 ^ 53 → x.exponent.natAbs ≤ 22 →
      x.value = n → x.scaled.magnitude = (Binary.ofNat n : Double).magnitude := fun hx hc hk hxn =>
    hx.scaled_of_exact (hnatural _ hc).2 hk (of_decide_eq_true hfinite) (hxn.trans hvalue.symm)
  have hmagnitude := (hexact he hec hek hen).trans (hexact hd hdc hdk hdn).symm
  have hsign := he.scaled_near.2.1.trans hd.scaled_near.2.1.symm
  generalize e.scaled = x at *
  generalize d.scaled = y at *
  obtain ⟨s, m, hm⟩ := x
  obtain ⟨s', m', hm'⟩ := y
  simp only at hmagnitude hsign
  subst hmagnitude hsign
  rfl

/-- What is read for the decimal of a positive single. -/
theorem quick?_written {d : Decimal} {m : Nat} (h : Format.Writes d m) :
    (singleLayout.written d).coefficient < naturalBound ∧
      (singleLayout.written d).quick? = some d.scaled := by
  have hvalue := singleLayout.value_written d
  rw [Layout.written] at hvalue ⊢
  split_ifs at hvalue ⊢ with hpositional
  · obtain ⟨hpositional, hinteger⟩ := hpositional
    have hlt := Layout.coefficient_zeros_lt (n := 12) hpositional hinteger (by simp [singleLayout])
    have hexponent : d.exponent ≤ 12 := by
      have hpos := digitCount_pos d.coefficient
      rw [← digitCount] at hpositional
      simp only [singleLayout, Bool.and_eq_true, decide_eq_true_eq] at hpositional
      omega
    have hnatural : d.value = (d.coefficient * 10 ^ d.exponent.toNat : Nat) := by
      rw [Decimal.value, Decimal.ten_zpow, Int.toNat_of_nonpos (by omega : -d.exponent ≤ 0)]
      push_cast
      ring
    have hreadable : Decimal.Readable ⟨d.coefficient * 10 ^ (d.exponent.toNat + 1), -1⟩ :=
      { ne_zero := Nat.mul_ne_zero h.ne_zero (Nat.pow_pos (by decide)).ne'
        lt := hlt.trans (by decide)
        exponent := show (-1 : Int).natAbs < 64 by decide
        low := hvalue ▸ h.readable.low
        high := hvalue ▸ h.readable.high }
    have hbound : d.coefficient * 10 ^ d.exponent.toNat < 2 ^ 53 := by
      rw [Nat.pow_succ, ← Nat.mul_assoc] at hlt
      omega
    refine ⟨hreadable.lt, hreadable.quick?_eq.trans (congrArg some ?_)⟩
    exact scaled_eq_of_exact h.readable hreadable (h.digits.trans_lt (by decide)) (hlt.trans (by decide))
      (by omega) (show (-1 : Int).natAbs ≤ 22 by decide) hbound hnatural (hvalue.trans hnatural)
  · exact ⟨h.readable.lt, h.readable.quick?_eq⟩

/-- **A finite single is read as a double that rounds to it**, and so is what that double is written as. -/
theorem readsAs_twice {x : Single} (hx : x.isFinite) : ∃ y z : Double,
    ReadsAs (.single x) (.double y) ∧ y.narrow = x ∧ ReadsAs (.double y) (.double z) ∧ z.narrow = x := by
  by_cases hzero : x.magnitude = 0
  · obtain ⟨negative, rfl⟩ : ∃ negative, x = .zero negative := by
      obtain ⟨negative, m, hm⟩ := x
      obtain rfl : m = 0 := hzero
      exact ⟨negative, rfl⟩
    refine ⟨.zero negative, .zero negative, readsAs_zero ?_, ?_, readsAs_zero ?_, ?_⟩
    all_goals cases negative <;> decide +kernel
  · have hwrites := Format.writes_shortest .even (Nat.pos_of_ne_zero hzero) (of_decide_eq_true hx)
    have hshortest : x.shortest .even = Format.single.shortest .even x.magnitude := by
      rw [Binary.shortest, Binary.isZero, if_neg (by simpa using hzero)]
    rw [← hshortest] at hwrites
    obtain ⟨hbound, hy⟩ := quick?_written hwrites
    have hreadable := hwrites.readable_rewritten
    obtain ⟨hfinite, -, -⟩ := hwrites.readable.scaled_near
    obtain ⟨hfinite', -, -⟩ := hreadable.scaled_near
    refine ⟨{ (x.shortest .even).scaled with negative := x.negative },
      { (x.shortest .even).rewritten.scaled with negative := x.negative },
      readsAs_of_quick? rfl (if_pos hx) hwrites.ne_zero hbound hy,
      narrow_of_magnitude hfinite hwrites.narrow_scaled,
      readsAs_of_quick? rfl (if_pos hfinite) hwrites.rewrites.ne_zero hreadable.lt hreadable.quick?_eq,
      narrow_of_magnitude hfinite' hwrites.narrow_rewritten⟩

end Pedalboard.Json
