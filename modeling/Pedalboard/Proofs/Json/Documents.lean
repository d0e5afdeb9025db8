import Mathlib
import Pedalboard.Proofs.Json.Accepted
import Pedalboard.Proofs.Json.Numbers

/-!
# Documents that are written and read

**Texts that are read** (`Reads`). A text is read as a value if the reader takes exactly this text
off any longer one that does not go on with a number. Scalars are, since what is written for them is
spelled as the grammar has it, and a compact array or object is if its items are
(`reads_compact_array`, `reads_compact_object`).

**Nesting.** A container is read inside one less container than it stands in itself.

**Ways to carry documents** (`Carries`). What readers of payloads need to know of a document that was
written and read: strings and shapes are kept, and singles up to rounding. Compact texts are one way
(`carries_compact`).
-/

namespace Pedalboard.Json

/-- The text is read as a value inside which `nesting` containers can stand. -/
def Reads (nesting : Nat) (text : List Char) (v : Json) : Prop := ReadsWith (value nesting) text v

variable {n : Nat} {text : List Char} {v : Json}

theorem isBlank_nil : IsBlank [] := by simp [IsBlank]

theorem reads_scalar (h : SpellsScalar v text) (n : Nat) : Reads n text v :=
  (accepts_value n).takes [] text v isBlank_nil (means_scalar h)

/-! ## Strings -/

theorem unit?_control {n : Nat} (hn : n < 0x20) :
    unit? '0' '0' (hexDigit (n / 16)) (hexDigit (n % 16)) = some n := by
  have hall : ∀ n < 0x20, unit? '0' '0' (hexDigit (n / 16)) (hexDigit (n % 16)) = some n := by decide
  exact hall n hn

/-- **A character is spelled** by what is written for it. -/
theorem spellsChar_escapeChar (c : Char) : SpellsChar c (escapeChar c) := by
  rw [escapeChar]
  split_ifs with hquote hbackslash hplain hb ht hn hf hr
  · subst hquote
    exact .short rfl
  · subst hbackslash
    exact .short rfl
  · exact .plain hquote hbackslash hplain
  · subst hb
    exact .short rfl
  · subst ht
    exact .short rfl
  · subst hn
    exact .short rfl
  · subst hf
    exact .short rfl
  · subst hr
    exact .short rfl
  · have hlt : c.toNat < 0x20 := by omega
    have hspelled : SpellsChar (Char.ofNat c.toNat) _ := .unit (unit?_control hlt) (by omega)
    rwa [Char.ofNat_toNat] at hspelled

theorem spellsChars_flatMap (cs : List Char) : SpellsChars cs (cs.flatMap escapeChar) := by
  induction cs with
  | nil => exact .nil
  | cons c cs ih => exact .cons (spellsChar_escapeChar c) ih

theorem spellsString_stringText (s : String) : SpellsString s (stringText s) :=
  ⟨_, spellsChars_flatMap s.toList, by rw [stringText, List.cons_append]⟩

/-! ## Numbers -/

theorem spellsExponent_exponentPart (l : Layout) (e : Option Int) :
    SpellsExponent e (l.exponentPart e) := by
  cases e with
  | none => exact .absent
  | some e =>
    have hrun := Numeral.isRun_toDigits e.natAbs
    have hvalue : digitsValue (Nat.toDigits 10 e.natAbs) = e.natAbs := Nat.ofDigitChars_ten_toDigits
    rw [Layout.exponentPart, Layout.exponentText]
    split_ifs with hneg hplus
    · have hspelled := SpellsExponent.negative (.inl rfl) hrun
      rwa [hvalue, show -(e.natAbs : Int) = e by omega] at hspelled
    · have hspelled := SpellsExponent.positive (.inl rfl) hrun
      rwa [hvalue, show (e.natAbs : Int) = e by omega] at hspelled
    · have hspelled := SpellsExponent.unsigned (.inl rfl) hrun
      rwa [hvalue, show (e.natAbs : Int) = e by omega] at hspelled

/-- **A numeral is spelled** by what a layout writes for it. -/
theorem spellsNumeral_numeralText (l : Layout) {a : Numeral} (h : a.Proper) :
    SpellsNumeral a (l.numeralText a) :=
  ⟨h, _, spellsExponent_exponentPart l a.exponent, rfl⟩

/-! ## Scalars -/

theorem spellsScalar_string (s : String) : SpellsScalar (.string s) (stringText s) :=
  .string (spellsString_stringText s)

theorem spellsScalar_bool (b : Bool) : SpellsScalar (.bool b) (compactText (.bool b)) := by
  cases b with
  | false =>
    rw [compactText]
    exact .isFalse
  | true =>
    rw [compactText]
    exact .isTrue

theorem spellsScalar_number {a b : Number} (h : ReadsAs a b) :
    SpellsScalar (.number b) (numberText a) := by
  obtain ⟨l, m, hproper, htext, hnumber⟩ := h
  rw [htext]
  exact .number (spellsNumeral_numeralText l hproper) hnumber

theorem spellsScalar_natural {k : Nat} (h : k < naturalBound) :
    SpellsScalar (natural k) (compactText (natural k)) := by
  rw [natural, compactText]
  exact spellsScalar_number (readsAs_integer (by omega) (by exact_mod_cast h))

theorem reads_string (n : Nat) (s : String) : Reads n (stringText s) (.string s) :=
  reads_scalar (spellsScalar_string s) n

theorem reads_null (n : Nat) : Reads n nullText .null := reads_scalar .null n

theorem reads_bool (n : Nat) (b : Bool) : Reads n (compactText (.bool b)) (.bool b) :=
  reads_scalar (spellsScalar_bool b) n

theorem reads_number {a b : Number} (h : ReadsAs a b) (n : Nat) :
    Reads n (numberText a) (.number b) := reads_scalar (spellsScalar_number h) n

theorem reads_natural {k : Nat} (h : k < naturalBound) (n : Nat) :
    Reads n (compactText (natural k)) (natural k) := reads_scalar (spellsScalar_natural h) n

/-! ## Items -/

/-- Texts with commas between. -/
def joined : List (List Char) → List Char
  | [] => []
  | [t] => t
  | t :: ts => t ++ ',' :: joined ts

theorem joined_cons_cons (t u : List Char) (ts : List (List Char)) :
    joined (t :: u :: ts) = t ++ ',' :: joined (u :: ts) := rfl

theorem inside_joined {α : Type} {Item : α → List Char → Prop} {texts : List (List Char)} {xs : List α}
    (h : List.Forall₂ (fun t x => Item x t) texts xs) : Inside Item xs (joined texts) := by
  induction h with
  | nil => exact .empty isBlank_nil
  | @cons t x ts xs ht hts ih =>
    cases hts with
    | nil => exact .listed (by simpa [joined] using Listed.last isBlank_nil ht isBlank_nil)
    | @cons u y us ys _ _ =>
      cases ih with
      | listed hrest =>
        rw [joined_cons_cons]
        exact .listed (.cons isBlank_nil ht isBlank_nil hrest)

theorem compactItems_eq (vs : List Json) : compactItems vs = joined (vs.map compactText) := by
  induction vs with
  | nil => rfl
  | cons v vs ih =>
    cases vs with
    | nil => rfl
    | cons w ws =>
      rw [compactItems, ih]
      · rfl
      · simp

theorem compactFields_eq (fs : List (String × Json)) :
    compactFields fs = joined (fs.map fun (k, v) => stringText k ++ ':' :: compactText v) := by
  induction fs with
  | nil => rfl
  | cons f fs ih =>
    obtain ⟨k, v⟩ := f
    cases fs with
    | nil => rfl
    | cons g gs =>
      rw [compactFields, ih]
      · rfl
      · simp

/-- What is so of each item with some value is so of the list with a list of values. -/
theorem exists_forall₂ {α β : Type} {R : α → β → Prop} {as : List α} (h : ∀ a ∈ as, ∃ b, R a b) :
    ∃ bs, List.Forall₂ R as bs := by
  induction as with
  | nil => exact ⟨[], .nil⟩
  | cons a as ih =>
    obtain ⟨⟨b, hb⟩, has⟩ := List.forall_mem_cons.1 h
    obtain ⟨bs, hbs⟩ := ih has
    exact ⟨b :: bs, .cons hb hbs⟩

/-! ## Containers -/

theorem takes_reads (n : Nat) : Takes (value n) fun w t => Reads n t w := by
  intro before t w hbefore h rest hrest
  rw [List.append_assoc, value_append hbefore]
  exact h rest hrest

theorem opens_reads (n : Nat) : Opens (fun w t => Reads n t w) ']' := by
  intro w t h rest hrest
  have hread : value n (t ++ rest) = some (w, rest) := h rest hrest
  rw [← value_skipBlanks] at hread
  cases hskip : skipBlanks (t ++ rest) with
  | nil =>
    rw [hskip] at hread
    cases n <;> cases hread
  | cons c cs =>
    refine ⟨c, cs, rfl, ?_⟩
    rintro rfl
    rw [hskip, value_eq_scalar (by decide) (by decide) (by decide)] at hread
    cases hread

/-- **An array is read** from the texts of its items, wherever there are blanks between them. -/
theorem reads_array {ws : List Json} (h : Inside (fun w t => Reads n t w) ws text) :
    Reads (n + 1) ('[' :: (text ++ [']'])) (.array ws) := by
  intro rest _
  have hitems := items_spelled (takes_reads n) ⟨by decide, by decide, by decide⟩ (opens_reads n) h rest
  rw [List.cons_append, List.append_assoc, value, skipBlanks_cons (by decide)]
  simp [hitems]

/-- **An object is read** with its fields in the order of their keys. -/
theorem reads_object {gs : List (String × Json)}
    (h : Inside (SpellsField fun w t => Reads n t w) gs text) :
    Reads (n + 1) ('{' :: (text ++ ['}'])) (.object (Keyed.ofList gs).entries) := by
  intro rest _
  have hitems := items_spelled (takes_member (takes_reads n)) ⟨by decide, by decide, by decide⟩
    opens_field h rest
  rw [List.cons_append, List.append_assoc, value, skipBlanks_cons (by decide)]
  simp [hitems]

/-- **A compact array is read** as the list of what its items are read as. -/
theorem reads_compact_array {vs ws : List Json}
    (h : List.Forall₂ (fun v w => Reads n (compactText v) w) vs ws) :
    Reads (n + 1) (compactText (.array vs)) (.array ws) := by
  rw [compactText, compactItems_eq]
  exact reads_array (inside_joined (List.forall₂_map_left_iff.2 h))

/-- **A compact object is read** with its fields in the order of their keys. -/
theorem reads_compact_object {fs gs : List (String × Json)}
    (h : List.Forall₂ (fun f g => f.1 = g.1 ∧ Reads n (compactText f.2) g.2) fs gs) :
    Reads (n + 1) (compactText (.object fs)) (.object (Keyed.ofList gs).entries) := by
  rw [compactText, compactFields_eq]
  refine reads_object (inside_joined (List.forall₂_map_left_iff.2 (h.imp fun f g hfg => ?_)))
  obtain ⟨k, v⟩ := f
  obtain ⟨k', w⟩ := g
  obtain ⟨rfl, hvalue⟩ := hfg
  exact ⟨_, [], [], _, spellsString_stringText k, isBlank_nil, isBlank_nil, hvalue, rfl⟩

theorem spells_compact_array {vs : List Json} (h : ∀ v ∈ vs, Spells n v (compactText v)) :
    Spells (n + 1) (.array vs) (compactText (.array vs)) := by
  have hinside : Inside (Spells n) vs (compactItems vs) := by
    rw [compactItems_eq]
    exact inside_joined (List.forall₂_map_left_iff.2 (List.forall₂_same.2 h))
  exact .inr (.inl ⟨vs, _, rfl, hinside, by rw [compactText, List.cons_append]⟩)

theorem spells_compact_object {fs : List (String × Json)}
    (h : ∀ f ∈ fs, Spells n f.2 (compactText f.2)) :
    Spells (n + 1) (.object fs) (compactText (.object fs)) := by
  have hinside : Inside (SpellsField (Spells n)) fs (compactFields fs) := by
    rw [compactFields_eq]
    refine inside_joined (List.forall₂_map_left_iff.2 (List.forall₂_same.2 fun f hf => ?_))
    exact ⟨_, [], [], _, spellsString_stringText f.1, isBlank_nil, isBlank_nil, h f hf, rfl⟩
  exact .inr (.inr ⟨fs, _, rfl, hinside, by rw [compactText, List.cons_append]⟩)

/-- **A document is read** from its text alone. -/
theorem parse?_of_reads {w : Json} (h : Reads maxNesting text w) : parse? (String.ofList text) = some w := by
  have hread := h [] stops_nil
  rw [List.append_nil] at hread
  rw [parse?, String.toList_ofList, hread]
  rfl

theorem parse?_compact {v w : Json} (h : Reads maxNesting (compactText v) w) :
    parse? v.compact = some w := parse?_of_reads h

/-! ## Ways to carry documents -/

/-- A way to carry documents: `R n v w` says that `v` comes out as `w`, if `n` containers can stand inside.
A finite single comes out as a number that rounds to it, and a container as its items do. -/
structure Carries (R : Nat → Json → Json → Prop) : Prop where
  string : ∀ n s, R n (.string s) (.string s)
  bool : ∀ n b, R n (.bool b) (.bool b)
  natural : ∀ n {k}, k < naturalBound → R n (.natural k) (.natural k)
  single : ∀ x : Single, ∃ w, (∀ n, R n (.single x) w) ∧
    ∀ y, w.finiteSingle? = some y ↔ x.isFinite ∧ y = x
  array : ∀ {n vs ws}, List.Forall₂ (R n) vs ws → R (n + 1) (.array vs) (.array ws)
  object : ∀ {n fs gs}, List.Forall₂ (fun f g => f.1 = g.1 ∧ R n f.2 g.2) fs gs →
    R (n + 1) (.object fs) (.object (Keyed.ofList gs).entries)

/-- **A single is read**, wherever it stands: as itself if it is finite, and as no number if not. -/
theorem reads_single (x : Single) : ∃ w, (∀ n, Reads n (compactText (.single x)) w) ∧
    ∀ y, w.finiteSingle? = some y ↔ x.isFinite ∧ y = x := by
  by_cases hx : x.isFinite
  · obtain ⟨y, -, hread, hy, -, -⟩ := readsAs_twice hx
    refine ⟨.number (.double y), fun n => ?_, fun z => ?_⟩
    · rw [Json.single, compactText]
      exact reads_number hread n
    · rw [finiteSingle?, double?, Option.bind_some, hy, if_pos hx]
      simp [hx, eq_comm]
  · refine ⟨.null, fun n => ?_, fun z => by simp [finiteSingle?, double?, hx]⟩
    rw [Json.single, compactText, numberText, if_neg hx]
    exact reads_null n

/-- Documents are carried by compact texts. -/
theorem carries_compact : Carries fun n v w => Reads n (compactText v) w where
  string n s := by
    rw [compactText]
    exact reads_string n s
  bool := reads_bool
  natural n _ h := reads_natural h n
  single := reads_single
  array := reads_compact_array
  object := reads_compact_object

end Pedalboard.Json
