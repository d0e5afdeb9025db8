import Mathlib
import Pedalboard.Proofs.Json.Grammar

/-!
# Tokens that are read

The readers of strings and numerals against the grammar, in both directions. What a reader takes off a
text is spelled there, and what is spelled is taken off, whatever follows a string, and whatever does
not go on with a number after a numeral.

**Theorems.** `stringTail_eq_some` for strings, `numeral_sound` and `numeral_spelled` for numerals, and
from these `scalar_sound` and `scalar_spelled` for all values that are no containers.
-/

namespace Pedalboard.Json

/-! ## Strings -/

theorem stringTail_quote (cs : List Char) : stringTail ('"' :: cs) = some ([], cs) := by
  rw [stringTail.eq_def]
  exact if_pos rfl

theorem stringTail_short {e c : Char} (he : e ≠ 'u') (h : shortEscape? e = some c) (cs : List Char) :
    stringTail ('\\' :: e :: cs) = (stringTail cs).map fun (xs, rest) => (c :: xs, rest) := by
  rw [stringTail.eq_def]
  simp only [if_neg he, h, if_neg (by decide : '\\' ≠ '"'), if_pos]

/-- **One character** is read, however it is spelled. -/
theorem stringTail_append {c : Char} {t : List Char} (h : SpellsChar c t) (cs : List Char) :
    stringTail (t ++ cs) = (stringTail cs).map fun (xs, rest) => (c :: xs, rest) := by
  cases h with
  | plain hquote hbackslash hcontrol =>
    rw [List.singleton_append, stringTail.eq_def]
    simp only [if_neg hquote, if_neg hbackslash, if_neg hcontrol.not_gt]
  | @short e _ he =>
    have hu : e ≠ 'u' := by
      rintro rfl
      cases he
    exact stringTail_short hu he cs
  | unit hunit hrange =>
    simp only [List.cons_append, List.nil_append]
    rw [stringTail.eq_def]
    simp [hunit, hrange]
  | @pair _ _ _ _ _ _ _ _ high low hhigh hlow hleast hhighest hlowest hgreatest =>
    have hsurrogate : ¬(high < 0xD800 ∨ 0xDFFF < high) := by omega
    simp only [List.cons_append, List.nil_append]
    rw [stringTail.eq_def]
    simp [hhigh, hlow, hsurrogate, hhighest, hlowest, hgreatest]

theorem stringTail_spelled {xs t : List Char} (h : SpellsChars xs t) (rest : List Char) :
    stringTail (t ++ '"' :: rest) = some (xs, rest) := by
  induction h with
  | nil => exact stringTail_quote rest
  | cons hc _ ih => rw [List.append_assoc, stringTail_append hc, ih, Option.map_some]

/-- A character in front of a tail that is read. -/
theorem spelled_cons {c : Char} {part tail xs rest : List Char} (hc : SpellsChar c part)
    (htail : ∀ {xs rest}, stringTail tail = some (xs, rest) →
      ∃ t, SpellsChars xs t ∧ tail = t ++ '"' :: rest)
    (h : ((stringTail tail).map fun (xs, rest) => (c :: xs, rest)) = some (xs, rest)) :
    ∃ t, SpellsChars xs t ∧ part ++ tail = t ++ '"' :: rest := by
  obtain ⟨⟨ys, rest'⟩, hread, heq⟩ := Option.map_eq_some_iff.1 h
  obtain ⟨rfl, rfl⟩ := Prod.mk.inj heq
  obtain ⟨t, ht, rfl⟩ := htail hread
  exact ⟨part ++ t, .cons hc ht, by rw [List.append_assoc]⟩

/-- **The tail of a string** is read exactly as it is spelled. -/
theorem stringTail_eq_some {cs xs rest : List Char} :
    stringTail cs = some (xs, rest) ↔ ∃ t, SpellsChars xs t ∧ cs = t ++ '"' :: rest := by
  constructor
  · intro h
    fun_induction stringTail cs generalizing xs rest <;> try contradiction
    case case2 tail =>
      obtain ⟨rfl, rfl⟩ := Prod.mk.inj (Option.some.inj h)
      exact ⟨[], .nil, rfl⟩
    case case5 hunit hrange _ ih => exact spelled_cons (.unit hunit hrange) ih h
    case case7 hhigh hrange _ _ _ _ _ _ _ _ hlow hpair _ _ ih =>
      obtain ⟨rfl, rfl, hhighest, hlowest, hgreatest⟩ := hpair
      exact spelled_cons (.pair hhigh hlow (by omega) hhighest hlowest hgreatest) ih h
    case case12 hshort _ ih => exact spelled_cons (.short hshort) ih h
    case case14 hquote hbackslash hcontrol ih =>
      exact spelled_cons (.plain hquote hbackslash (not_lt.1 hcontrol)) ih h
  · rintro ⟨t, ht, rfl⟩
    exact stringTail_spelled ht rest

/-! ## Runs of digits -/

/-- The text does not go on with a number. -/
def Stops (rest : List Char) : Prop :=
  ∀ c, rest.head? = some c → c.isDigit = false ∧ c ≠ '.' ∧ c ≠ 'e' ∧ c ≠ 'E'

/-- The text does not go on with digits. -/
def NoDigit (rest : List Char) : Prop := ∀ c, rest.head? = some c → c.isDigit = false

theorem Stops.noDigit {rest : List Char} (h : Stops rest) : NoDigit rest := fun c hc => (h c hc).1

theorem stops_nil : Stops [] := by simp [Stops]

theorem stops_cons {c : Char} (h : c.isDigit = false ∧ c ≠ '.' ∧ c ≠ 'e' ∧ c ≠ 'E') (cs : List Char) :
    Stops (c :: cs) := fun _ hc => Option.some.inj hc ▸ h

theorem digitsOf_append {ds rest : List Char} (h : ∀ c ∈ ds, c.isDigit) (hrest : NoDigit rest) :
    digitsOf (ds ++ rest) = ds ∧ afterDigits (ds ++ rest) = rest := by
  rw [digitsOf, afterDigits, List.takeWhile_append_of_pos h, List.dropWhile_append_of_pos h]
  cases rest with
  | nil => simp
  | cons c rest => simp [hrest c rfl]

theorem digits_split (cs : List Char) :
    (∀ c ∈ digitsOf cs, c.isDigit) ∧ cs = digitsOf cs ++ afterDigits cs :=
  ⟨fun _ hc => List.mem_takeWhile_imp hc, List.takeWhile_append_dropWhile.symm⟩

theorem isRun_digitsOf {cs : List Char} (h : digitsOf cs ≠ []) : Numeral.IsRun (digitsOf cs) :=
  ⟨h, (digits_split cs).1⟩

/-! ## Numerals -/

theorem wholeDigits_sound {cs ds rest : List Char} (h : wholeDigits cs = some (ds, rest)) :
    Numeral.IsRun ds ∧ (ds = ['0'] ∨ ds.head? ≠ some '0') ∧ cs = ds ++ rest := by
  have hsplit := (digits_split cs).2
  unfold wholeDigits at h
  split at h
  · cases h
  · cases h
  · rename_i hne hzero
    obtain ⟨rfl, rfl⟩ := Prod.mk.inj (Option.some.inj h)
    refine ⟨isRun_digitsOf fun hnil => hne hnil, ?_, hsplit⟩
    cases hds : digitsOf cs with
    | nil => exact absurd hds hne
    | cons c ds =>
      by_cases hc : c = '0'
      · subst hc
        cases ds with
        | nil => exact .inl rfl
        | cons d ds => exact absurd hds (hzero d ds)
      · exact .inr (by simpa using hc)

theorem wholeDigits_append {ds rest : List Char} (h : Numeral.IsRun ds)
    (hhead : ds = ['0'] ∨ ds.head? ≠ some '0') (hrest : NoDigit rest) :
    wholeDigits (ds ++ rest) = some (ds, rest) := by
  obtain ⟨hdigits, hafter⟩ := digitsOf_append h.2 hrest
  rw [wholeDigits, hdigits, hafter]
  obtain ⟨hne, -⟩ := h
  rcases hhead with rfl | hhead
  · rfl
  · cases ds with
    | nil => exact absurd rfl hne
    | cons c cs =>
      split
      · contradiction
      · rename_i heq
        obtain ⟨rfl, -⟩ := List.cons.inj heq
        exact absurd rfl hhead
      · rfl

theorem optionalFraction_sound {cs rest : List Char} {fraction : Option (List Char)}
    (h : optionalFraction cs = some (fraction, rest)) :
    (∀ ds, fraction = some ds → Numeral.IsRun ds) ∧ cs = Layout.fractionText fraction ++ rest := by
  unfold optionalFraction at h
  split at h
  · rename_i tail
    split at h
    · cases h
    · rename_i hne
      obtain ⟨rfl, rfl⟩ := Prod.mk.inj (Option.some.inj h)
      refine ⟨fun ds hds => ?_, ?_⟩
      · cases hds
        exact isRun_digitsOf (by simpa using hne)
      · rw [Layout.fractionText, List.cons_append, ← (digits_split tail).2]
  · obtain ⟨rfl, rfl⟩ := Prod.mk.inj (Option.some.inj h)
    exact ⟨by simp, rfl⟩

theorem optionalFraction_append {fraction : Option (List Char)} {rest : List Char}
    (h : ∀ ds, fraction = some ds → Numeral.IsRun ds) (hrest : NoDigit rest)
    (hpoint : rest.head? ≠ some '.') :
    optionalFraction (Layout.fractionText fraction ++ rest) = some (fraction, rest) := by
  cases fraction with
  | none =>
    cases rest with
    | nil => rfl
    | cons c cs =>
      rw [Layout.fractionText, List.nil_append, optionalFraction.eq_def]
      split
      · rename_i heq
        obtain ⟨rfl, -⟩ := List.cons.inj heq
        exact absurd rfl hpoint
      · rfl
  | some ds =>
    obtain ⟨hne, hdigits⟩ := h ds rfl
    obtain ⟨hds, hafter⟩ := digitsOf_append hdigits hrest
    simp [Layout.fractionText, optionalFraction, hds, hafter, hne]

theorem noDigit_fractionText (fraction : Option (List Char)) {rest : List Char}
    (hrest : NoDigit rest) : NoDigit (Layout.fractionText fraction ++ rest) := by
  cases fraction with
  | none => exact hrest
  | some ds => simp [NoDigit, Layout.fractionText]

/-- An exponent after its mark: a sign or none, and digits. -/
theorem exponentTail_sound {mark : Char} (hmark : mark = 'e' ∨ mark = 'E') {cs rest : List Char}
    {e : Int} (h : exponentTail cs = some (e, rest)) :
    ∃ t, SpellsExponent (some e) (mark :: t) ∧ cs = t ++ rest := by
  unfold exponentTail at h
  split at h
  all_goals
    simp only [Bool.false_eq_true, if_false, if_true, Option.ite_none_left_eq_some] at h
    obtain ⟨hne, heq⟩ := h
    obtain ⟨rfl, rfl⟩ := Prod.mk.inj (Option.some.inj heq)
    have hrun := isRun_digitsOf (by simpa using hne)
  · exact ⟨_, .positive hmark hrun, by rw [List.cons_append, ← (digits_split _).2]⟩
  · exact ⟨_, .negative hmark hrun, by rw [List.cons_append, ← (digits_split _).2]⟩
  · exact ⟨_, .unsigned hmark hrun, (digits_split _).2⟩

/-- An exponent is read with either sign or none. -/
theorem exponentTail_run {ds rest : List Char} (h : Numeral.IsRun ds) (hrest : NoDigit rest) :
    exponentTail (ds ++ rest) = some ((digitsValue ds : Int), rest) ∧
      exponentTail ('+' :: (ds ++ rest)) = some ((digitsValue ds : Int), rest) ∧
      exponentTail ('-' :: (ds ++ rest)) = some (-(digitsValue ds : Int), rest) := by
  obtain ⟨hne, hdigits⟩ := h
  obtain ⟨hds, hafter⟩ := digitsOf_append hdigits hrest
  refine ⟨?_, ?_, ?_⟩
  · cases hcs : ds with
    | nil => exact absurd hcs hne
    | cons c cs =>
      have hc : c.isDigit := hdigits c (hcs ▸ List.mem_cons_self)
      rw [hcs] at hds hafter
      rw [exponentTail]
      · simp only [hds, hafter]
        simp
      · exact fun _ heq => ne_of_isDigit hc (by decide) (List.cons.inj heq).1
      · exact fun _ heq => ne_of_isDigit hc (by decide) (List.cons.inj heq).1
  · simp [exponentTail, hds, hafter, hne]
  · simp [exponentTail, hds, hafter, hne]

theorem optionalExponent_sound {cs rest : List Char} {exponent : Option Int}
    (h : optionalExponent cs = some (exponent, rest)) :
    ∃ t, SpellsExponent exponent t ∧ cs = t ++ rest := by
  unfold optionalExponent at h
  split at h
  · rename_i mark tail
    split at h
    · rename_i hmark
      obtain ⟨⟨e, rest'⟩, htail, heq⟩ := Option.map_eq_some_iff.1 h
      obtain ⟨rfl, rfl⟩ := Prod.mk.inj heq
      obtain ⟨t, ht, rfl⟩ := exponentTail_sound hmark htail
      exact ⟨mark :: t, ht, rfl⟩
    · obtain ⟨rfl, rfl⟩ := Prod.mk.inj (Option.some.inj h)
      exact ⟨[], .absent, rfl⟩
  · obtain ⟨rfl, rfl⟩ := Prod.mk.inj (Option.some.inj h)
    exact ⟨[], .absent, rfl⟩

theorem optionalExponent_spelled {exponent : Option Int} {t rest : List Char}
    (h : SpellsExponent exponent t) (hrest : Stops rest) :
    optionalExponent (t ++ rest) = some (exponent, rest) := by
  cases h with
  | absent =>
    cases rest with
    | nil => rfl
    | cons c cs =>
      obtain ⟨-, -, he, hE⟩ := hrest c rfl
      simp [optionalExponent, he, hE]
  | unsigned hmark hrun =>
    obtain ⟨hunsigned, -, -⟩ := exponentTail_run hrun hrest.noDigit
    rw [List.cons_append, optionalExponent, if_pos hmark, hunsigned, Option.map_some]
  | positive hmark hrun =>
    obtain ⟨-, hpositive, -⟩ := exponentTail_run hrun hrest.noDigit
    rw [List.cons_append, List.cons_append, optionalExponent, if_pos hmark, hpositive, Option.map_some]
  | negative hmark hrun =>
    obtain ⟨-, -, hnegative⟩ := exponentTail_run hrun hrest.noDigit
    rw [List.cons_append, List.cons_append, optionalExponent, if_pos hmark, hnegative, Option.map_some]

/-- No digit and no point starts an exponent, or what follows when there is none. -/
theorem SpellsExponent.head {exponent : Option Int} {t rest : List Char}
    (h : SpellsExponent exponent t) (hrest : Stops rest) :
    NoDigit (t ++ rest) ∧ (t ++ rest).head? ≠ some '.' := by
  cases h with
  | absent => exact ⟨hrest.noDigit, fun hpoint => (hrest _ hpoint).2.1 rfl⟩
  | unsigned hmark | positive hmark | negative hmark =>
    rcases hmark with rfl | rfl <;> simp [NoDigit]

theorem unsignedNumeral_sound {negative : Bool} {cs rest : List Char} {n : Numeral}
    (h : unsignedNumeral negative cs = some (n, rest)) :
    n.negative = negative ∧ n.Proper ∧ ∃ exponent, SpellsExponent n.exponent exponent ∧
      cs = n.whole ++ (Layout.fractionText n.fraction ++ exponent) ++ rest := by
  unfold unsignedNumeral at h
  simp only [Option.bind_eq_bind, Option.bind_eq_some_iff, Option.some_inj, Prod.mk.injEq] at h
  obtain ⟨⟨whole, afterWhole⟩, hwhole, ⟨fraction, afterFraction⟩, hfraction, ⟨exponent, rest'⟩,
    hexponent, rfl, rfl⟩ := h
  obtain ⟨hrun, hhead, rfl⟩ := wholeDigits_sound hwhole
  obtain ⟨hdigits, rfl⟩ := optionalFraction_sound hfraction
  obtain ⟨t, ht, rfl⟩ := optionalExponent_sound hexponent
  exact ⟨rfl, ⟨hrun, hhead, hdigits⟩, t, ht, by simp only [List.append_assoc]⟩

theorem numeral_sound {cs rest : List Char} {n : Numeral} (h : numeral cs = some (n, rest)) :
    ∃ t, SpellsNumeral n t ∧ cs = t ++ rest := by
  unfold numeral at h
  split at h
  · obtain ⟨hsign, hproper, exponent, hexponent, rfl⟩ := unsignedNumeral_sound h
    exact ⟨_, ⟨hproper, exponent, hexponent, rfl⟩, by rw [hsign]; rfl⟩
  · obtain ⟨hsign, hproper, exponent, hexponent, rfl⟩ := unsignedNumeral_sound h
    exact ⟨_, ⟨hproper, exponent, hexponent, rfl⟩, by rw [hsign]; rfl⟩

theorem numeral_spelled {n : Numeral} {t rest : List Char} (h : SpellsNumeral n t)
    (hrest : Stops rest) : numeral (t ++ rest) = some (n, rest) := by
  obtain ⟨hproper, exponent, hexponent, rfl⟩ := h
  obtain ⟨hdigit, hpoint⟩ := hexponent.head hrest
  have hunsigned : unsignedNumeral n.negative
      (n.whole ++ (Layout.fractionText n.fraction ++ (exponent ++ rest))) = some (n, rest) := by
    rw [unsignedNumeral,
      wholeDigits_append hproper.whole hproper.head (noDigit_fractionText _ hdigit)]
    simp only [Option.bind_eq_bind, Option.bind_some,
      optionalFraction_append hproper.fraction hdigit hpoint, optionalExponent_spelled hexponent hrest]
  simp only [List.append_assoc]
  cases hsign : n.negative with
  | true =>
    rw [hsign] at hunsigned
    exact hunsigned
  | false =>
    rw [hsign] at hunsigned
    obtain ⟨c, cs, hwhole⟩ := List.exists_cons_of_ne_nil hproper.whole.1
    have hc : c.isDigit := hproper.whole.2 c (hwhole ▸ List.mem_cons_self)
    rw [hwhole] at hunsigned ⊢
    rw [Layout.sign, if_neg Bool.false_ne_true, List.nil_append, numeral]
    · exact hunsigned
    · exact fun _ heq => ne_of_isDigit hc (by decide) (List.cons.inj heq).1

/-- What stands first in a number starts no other value. -/
theorem starts_number {c : Char} (h : c = '-' ∨ c.isDigit) : isBlank c = false ∧ c ≠ '"' ∧ c ≠ 'n' ∧
    c ≠ 't' ∧ c ≠ 'f' ∧ c ≠ '[' ∧ c ≠ '{' ∧ c ≠ ']' ∧ c ≠ '}' := by
  rcases h with rfl | h
  · decide
  · have hne : ∀ d : Char, d.isDigit = false → c ≠ d := fun _ => ne_of_isDigit h
    refine ⟨?_, hne _ rfl, hne _ rfl, hne _ rfl, hne _ rfl, hne _ rfl, hne _ rfl, hne _ rfl, hne _ rfl⟩
    simp [isBlank, hne ' ' rfl, hne '\t' rfl, hne '\n' rfl, hne '\r' rfl]

/-- A numeral starts like a number. -/
theorem SpellsNumeral.head {n : Numeral} {t : List Char} (h : SpellsNumeral n t) :
    ∃ c cs, t = c :: cs ∧ (c = '-' ∨ c.isDigit) := by
  obtain ⟨hproper, exponent, -, rfl⟩ := h
  obtain ⟨c, cs, hwhole⟩ := List.exists_cons_of_ne_nil hproper.whole.1
  cases n.negative with
  | true => exact ⟨'-', _, rfl, .inl rfl⟩
  | false =>
    rw [hwhole]
    exact ⟨c, _, rfl, .inr (hproper.whole.2 c (hwhole ▸ List.mem_cons_self))⟩

/-! ## Scalars -/

theorem stripWord_eq_some {word cs rest : List Char} :
    stripWord word cs = some rest ↔ cs = word ++ rest := by
  unfold stripWord
  simp only [Option.ite_none_right_eq_some, Option.some_inj, List.isPrefixOf_iff_prefix]
  constructor
  · rintro ⟨⟨tail, rfl⟩, rfl⟩
    simp
  · rintro rfl
    simp

/-- **What is read as no container** is spelled so. -/
theorem scalar_sound {cs rest : List Char} {v : Json} (h : scalar cs = some (v, rest)) :
    ∃ t, SpellsScalar v t ∧ cs = t ++ rest := by
  unfold scalar at h
  split at h
  · cases h
  · split_ifs at h with hquote hn ht hf
    · obtain ⟨⟨xs, rest'⟩, hread, heq⟩ := Option.map_eq_some_iff.1 h
      obtain ⟨rfl, rfl⟩ := Prod.mk.inj heq
      obtain ⟨t, ht, rfl⟩ := stringTail_eq_some.1 hread
      refine ⟨'"' :: (t ++ ['"']), .string ⟨t, by rwa [String.toList_ofList], rfl⟩, ?_⟩
      simp [hquote]
    · obtain ⟨rest', hword, heq⟩ := Option.map_eq_some_iff.1 h
      obtain ⟨rfl, rfl⟩ := Prod.mk.inj heq
      rw [hn, stripWord_eq_some.1 hword]
      exact ⟨_, .null, rfl⟩
    · obtain ⟨rest', hword, heq⟩ := Option.map_eq_some_iff.1 h
      obtain ⟨rfl, rfl⟩ := Prod.mk.inj heq
      rw [ht, stripWord_eq_some.1 hword]
      exact ⟨_, .isTrue, rfl⟩
    · obtain ⟨rest', hword, heq⟩ := Option.map_eq_some_iff.1 h
      obtain ⟨rfl, rfl⟩ := Prod.mk.inj heq
      rw [hf, stripWord_eq_some.1 hword]
      exact ⟨_, .isFalse, rfl⟩
    · simp only [Option.bind_eq_bind, Option.bind_eq_some_iff, Option.some_inj, Prod.mk.injEq] at h
      obtain ⟨⟨a, rest'⟩, hread, m, hnumber, rfl, rfl⟩ := h
      obtain ⟨t, ht, hcs⟩ := numeral_sound hread
      exact ⟨t, .number ht hnumber, hcs⟩

/-- **What is spelled as no container** is read so. -/
theorem scalar_spelled {v : Json} {t rest : List Char} (h : SpellsScalar v t) (hrest : Stops rest) :
    scalar (t ++ rest) = some (v, rest) := by
  cases h with
  | null => rfl
  | isTrue => rfl
  | isFalse => rfl
  | string hs =>
    obtain ⟨t, ht, rfl⟩ := hs
    have hread := stringTail_spelled ht rest
    simp [scalar, hread]
  | number ha hm =>
    have hread := numeral_spelled ha hrest
    obtain ⟨c, cs, rfl, hc⟩ := ha.head
    obtain ⟨-, hquote, hn, ht, hf, -⟩ := starts_number hc
    rw [List.cons_append] at hread
    rw [List.cons_append, scalar, if_neg hquote, if_neg hn, if_neg ht, if_neg hf, hread]
    simp [hm]

/-- What starts a scalar starts no container, closes none, and is no blank. -/
theorem SpellsScalar.head {v : Json} {t : List Char} (h : SpellsScalar v t) :
    ∃ c cs, t = c :: cs ∧ isBlank c = false ∧ c ≠ '[' ∧ c ≠ '{' ∧ c ≠ ']' ∧ c ≠ '}' := by
  cases h with
  | null => exact ⟨_, _, rfl, by decide⟩
  | isTrue => exact ⟨_, _, rfl, by decide⟩
  | isFalse => exact ⟨_, _, rfl, by decide⟩
  | string hs =>
    obtain ⟨t, -, rfl⟩ := hs
    exact ⟨_, _, rfl, by decide⟩
  | number ha =>
    obtain ⟨c, cs, rfl, hc⟩ := ha.head
    obtain ⟨hblank, -, -, -, -, hrest⟩ := starts_number hc
    exact ⟨c, cs, rfl, hblank, hrest⟩

end Pedalboard.Json
