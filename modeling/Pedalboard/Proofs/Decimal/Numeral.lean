import Mathlib
import Pedalboard.Decimal.Layout
import Pedalboard.Decimal.Quick

/-!
# The numerals that layouts write

**Texts** (`Layout.numeralText`). A numeral as a layout writes it. Every decimal is written as one
(`Layout.decimalText_eq`), which is well-formed (`Layout.proper_numeralOf`) and stands for the
decimal: `Numeral.clip` gives it back, except that an integral value that ends in `.0` has its zeros
in the coefficient (`Layout.clip_numeralOf`).
-/

namespace Pedalboard

/-! ## Digits -/

theorem ne_of_isDigit {c m : Char} (h : c.isDigit = true) (hm : m.isDigit = false) : c ≠ m := by
  rintro rfl
  simp [h] at hm

theorem digitsValue_eq (ds : List Char) : digitsValue ds = Nat.ofDigitChars 10 ds 0 := rfl

theorem isDigit_of_mem_toDigits {n : Nat} {c : Char} (h : c ∈ Nat.toDigits 10 n) : c.isDigit :=
  Nat.isDigit_of_mem_toDigits (by decide) (by decide) h

theorem exists_toDigits_eq_cons (n : Nat) :
    ∃ c ds, Nat.toDigits 10 n = c :: ds ∧ c.isDigit ∧ ∀ d ∈ ds, d.isDigit := by
  obtain ⟨c, ds, hds⟩ := List.exists_cons_of_ne_nil (Nat.toDigits_ne_nil (b := 10) (n := n))
  exact ⟨c, ds, hds, List.forall_mem_cons.1 fun d hd => isDigit_of_mem_toDigits (hds ▸ hd)⟩

theorem head?_toDigits_ne_zero {n : Nat} (hn : n ≠ 0) : (Nat.toDigits 10 n).head? ≠ some '0' := by
  induction n using Nat.strong_induction_on with
  | _ n ih =>
    rw [Nat.toDigits_eq_if (by decide)]
    split
    · rename_i hlt
      have hall : ∀ n < 10, n ≠ 0 → [n.digitChar].head? ≠ some '0' := by decide
      exact hall n hlt hn
    · rw [List.head?_append_of_ne_nil _ Nat.toDigits_ne_nil]
      exact ih (n / 10) (by omega) (by omega)

theorem le_ofDigitChars (ds : List Char) (n : Nat) : n ≤ Nat.ofDigitChars 10 ds n := by
  induction ds generalizing n with
  | nil => simp
  | cons c ds ih =>
    rw [Nat.ofDigitChars_cons]
    exact le_trans (by omega) (ih _)

theorem gather_eq {ds : List Char} {n : Nat} (h : Nat.ofDigitChars 10 ds n < naturalBound) :
    gather n ds = (Nat.ofDigitChars 10 ds n, 0) := by
  induction ds generalizing n with
  | nil => simp [gather]
  | cons c ds ih =>
    rw [Nat.ofDigitChars_cons] at h ⊢
    rw [gather]
    simp only [if_pos ((le_ofDigitChars ds _).trans_lt h), ih h]

/-! ## Numerals -/

namespace Numeral

/-- A run of digits. -/
def IsRun (ds : List Char) : Prop := ds ≠ [] ∧ ∀ c ∈ ds, c.isDigit

section Run

variable {ds : List Char}

theorem isRun_toDigits (n : Nat) : IsRun (Nat.toDigits 10 n) :=
  ⟨Nat.toDigits_ne_nil, fun _ => isDigit_of_mem_toDigits⟩

theorem IsRun.take (h : IsRun ds) {n : Nat} (hn : 0 < n) : IsRun (ds.take n) := by
  refine ⟨?_, fun c hc => h.2 c (List.mem_of_mem_take hc)⟩
  rw [Ne, List.take_eq_nil_iff]
  exact not_or.2 ⟨hn.ne', h.1⟩

theorem IsRun.drop (h : IsRun ds) {n : Nat} (hn : n < ds.length) : IsRun (ds.drop n) := by
  refine ⟨?_, fun c hc => h.2 c (List.mem_of_mem_drop hc)⟩
  rw [Ne, List.drop_eq_nil_iff]
  exact hn.not_ge

theorem isDigit_of_mem_zeros {n : Nat} {c : Char} (hc : c ∈ List.replicate n '0') : c.isDigit :=
  List.eq_of_mem_replicate hc ▸ rfl

theorem IsRun.append_zeros (h : IsRun ds) (n : Nat) : IsRun (ds ++ List.replicate n '0') :=
  ⟨by simp [h.1], fun c hc => (List.mem_append.1 hc).elim (h.2 c) isDigit_of_mem_zeros⟩

theorem IsRun.zeros_append (h : IsRun ds) (n : Nat) : IsRun (List.replicate n '0' ++ ds) :=
  ⟨by simp [h.1], fun c hc => (List.mem_append.1 hc).elim isDigit_of_mem_zeros (h.2 c)⟩

end Run

/-- Digits where digits have to stand, and no superfluous zero in front. -/
structure Proper (n : Numeral) : Prop where
  whole : IsRun n.whole
  head : n.whole = ['0'] ∨ n.whole.head? ≠ some '0'
  fraction : ∀ ds, n.fraction = some ds → IsRun ds

/-- All digits, those after the point included. -/
def digits (n : Numeral) : List Char := n.whole ++ n.fraction.getD []

/-- A numeral that fits 64 bits is not cut. -/
theorem clip_eq {n : Numeral} (h : digitsValue n.digits < naturalBound) : n.clip =
    ⟨digitsValue n.digits, n.exponent.getD 0 - ((n.fraction.getD []).length : Int)⟩ := by
  rw [digitsValue_eq, digits, Nat.ofDigitChars_append] at h
  have hwhole := (le_ofDigitChars _ _).trans_lt h
  rw [clip]
  simp only [gather_eq hwhole, gather_eq h, digitsValue_eq, digits, Nat.ofDigitChars_append]
  simp

end Numeral

namespace Layout

variable (l : Layout)

def fractionText : Option (List Char) → List Char
  | none => []
  | some ds => '.' :: ds

def exponentPart : Option Int → List Char
  | none => []
  | some e => l.exponentText e

/-- A numeral as it is written. -/
def numeralText (n : Numeral) : List Char :=
  sign n.negative ++ (n.whole ++ (fractionText n.fraction ++ l.exponentPart n.exponent))

/-- The numeral that a decimal is written as. -/
def numeralOf (negative : Bool) (d : Decimal) : Numeral :=
  let digits := Nat.toDigits 10 d.coefficient
  let whole := digits.length + d.exponent
  if l.positional (whole - 1) then
    if 0 ≤ d.exponent then
      ⟨negative, digits ++ List.replicate d.exponent.toNat '0',
        if l.pointAlways then some ['0'] else none, none⟩
    else if 0 < whole then
      ⟨negative, digits.take whole.toNat, some (digits.drop whole.toNat), none⟩
    else ⟨negative, ['0'], some (List.replicate (-whole).toNat '0' ++ digits), none⟩
  else
    ⟨negative, digits.take 1, if digits.tail = [] then none else some digits.tail, some (whole - 1)⟩

theorem decimalText_eq (negative : Bool) (d : Decimal) :
    sign negative ++ l.decimalText d = l.numeralText (l.numeralOf negative d) := by
  rw [numeralText, numeralOf, decimalText]
  cases hdigits : Nat.toDigits 10 d.coefficient with
  | nil => exact absurd hdigits Nat.toDigits_ne_nil
  | cons c cs =>
    simp only [positionalText, scientificText]
    split_ifs <;> cases cs <;> simp_all [fractionText, exponentPart]

variable {l}

theorem proper_numeralOf (negative : Bool) {d : Decimal} (h : d.coefficient ≠ 0) :
    (l.numeralOf negative d).Proper := by
  have hrun := Numeral.isRun_toDigits d.coefficient
  have hhead := head?_toDigits_ne_zero h
  rw [numeralOf]
  generalize Nat.toDigits 10 d.coefficient = ds at hrun hhead
  have hlength : 0 < ds.length := List.length_pos_iff.2 hrun.1
  have hpadded : ∀ n, (ds ++ List.replicate n '0').head? ≠ some '0' := fun n => by
    rwa [List.head?_append_of_ne_nil _ hrun.1]
  have htaken : ∀ n, 0 < n → (ds.take n).head? ≠ some '0' := fun n hn => by
    rwa [List.head?_take, if_neg hn.ne']
  have hzero : Numeral.IsRun ['0'] := ⟨by simp, by simp⟩
  have hnone : ∀ ds', (none : Option (List Char)) = some ds' → Numeral.IsRun ds' := by simp
  have hsome : ∀ {ds' : List Char}, Numeral.IsRun ds' → ∀ ds'', some ds' = some ds'' →
      Numeral.IsRun ds'' := fun h _ heq => Option.some.inj heq ▸ h
  split_ifs with hpositional hinteger hpoint hwhole htail
  · exact ⟨hrun.append_zeros _, .inr (hpadded _), hsome hzero⟩
  · exact ⟨hrun.append_zeros _, .inr (hpadded _), hnone⟩
  · exact ⟨hrun.take (by omega), .inr (htaken _ (by omega)), hsome (hrun.drop (by omega))⟩
  · exact ⟨hzero, .inl rfl, hsome (hrun.zeros_append _)⟩
  · exact ⟨hrun.take Nat.one_pos, .inr (htaken 1 Nat.one_pos), hnone⟩
  · refine ⟨hrun.take Nat.one_pos, .inr (htaken 1 Nat.one_pos), hsome ⟨htail, fun c hc => ?_⟩⟩
    exact hrun.2 c (List.mem_of_mem_tail hc)

/-- The decimal that a numeral gives back: the one that was written, but with the zeros of an
integral value, and one more, in its coefficient. -/
def written (l : Layout) (d : Decimal) : Decimal :=
  if l.positional ((Nat.toDigits 10 d.coefficient).length + d.exponent - 1) ∧ 0 ≤ d.exponent then
    ⟨d.coefficient * 10 ^ (d.exponent.toNat + 1), -1⟩
  else d

/-- The digits of the numeral, those after its point included, are those of the coefficient. -/
theorem digitsValue_numeralOf (negative : Bool) (d : Decimal) (hpoint : l.pointAlways = true) :
    digitsValue (l.numeralOf negative d).digits = (l.written d).coefficient := by
  have hvalue : Nat.ofDigitChars 10 (Nat.toDigits 10 d.coefficient) 0 = d.coefficient :=
    Nat.ofDigitChars_ten_toDigits
  have hne : Nat.toDigits 10 d.coefficient ≠ [] := Nat.toDigits_ne_nil
  rw [written, numeralOf]
  generalize Nat.toDigits 10 d.coefficient = ds at hvalue hne
  simp only [hpoint, if_true, digitsValue_eq, Numeral.digits]
  by_cases hpositional : l.positional (ds.length + d.exponent - 1) = true
  · simp only [hpositional, true_and, if_true]
    split_ifs with hinteger hwhole
    · rw [Option.getD_some, Nat.ofDigitChars_append, Nat.ofDigitChars_append, hvalue,
        Nat.ofDigitChars_replicate_zero, Nat.ofDigitChars_cons, Nat.ofDigitChars_nil, pow_succ]
      simp
      ring
    · rw [Option.getD_some, List.take_append_drop, hvalue]
    · rw [Option.getD_some, List.singleton_append, Nat.ofDigitChars_cons, Nat.ofDigitChars_append,
        Nat.ofDigitChars_replicate_zero]
      simpa using hvalue
  · simp only [hpositional, Bool.false_eq_true, false_and, if_false]
    obtain ⟨c, cs, rfl⟩ := List.exists_cons_of_ne_nil hne
    rw [List.tail_cons, List.take_one]
    split_ifs with htail
    · simpa [htail] using hvalue
    · exact hvalue

/-- The exponent of the numeral, less the digits after its point, is that of the decimal. -/
theorem exponent_numeralOf (negative : Bool) (d : Decimal) (hpoint : l.pointAlways = true) :
    (l.numeralOf negative d).exponent.getD 0 -
      (((l.numeralOf negative d).fraction.getD []).length : Int) = (l.written d).exponent := by
  have hne : Nat.toDigits 10 d.coefficient ≠ [] := Nat.toDigits_ne_nil
  rw [written, numeralOf]
  generalize Nat.toDigits 10 d.coefficient = ds at hne
  simp only [hpoint, if_true]
  by_cases hpositional : l.positional (ds.length + d.exponent - 1) = true
  · simp only [hpositional, true_and, if_true]
    split_ifs with hinteger hwhole
    · rfl
    · simp only [Option.getD_none, Option.getD_some, List.length_drop]
      omega
    · simp only [Option.getD_none, Option.getD_some, List.length_append, List.length_replicate]
      omega
  · simp only [hpositional, Bool.false_eq_true, false_and, if_false]
    obtain ⟨c, cs, rfl⟩ := List.exists_cons_of_ne_nil hne
    rw [List.tail_cons]
    split_ifs with htail
    · simp [htail]
    · simp only [Option.getD_some, List.length_cons]
      omega

theorem clip_numeralOf (negative : Bool) {d : Decimal} (hpoint : l.pointAlways = true)
    (h : (l.written d).coefficient < naturalBound) :
    (l.numeralOf negative d).clip = l.written d := by
  have hdigits := digitsValue_numeralOf negative d hpoint
  rw [Numeral.clip_eq (hdigits.trans_lt h), hdigits, exponent_numeralOf negative d hpoint]

end Layout

end Pedalboard
