import Mathlib
import Pedalboard.Json.Parser
import Pedalboard.Proofs.Decimal.Numeral

/-!
# The grammar of JSON

What texts there are for a document, said without a reader: RFC 8259, one relation for a rule of the
grammar. A text is put together from the texts of its parts, and blanks stand where the grammar lets
them stand.

**Documents as they stand.** In a document that a text spells, an object has its fields in the order
of the text, and a key can stand in it twice. `canonical` is the document that counts: of fields with
one key the last, and all in the order of their keys.

**Limits.** `Spells n` has at most `n` containers inside one another, and numbers that are doubles.
-/

namespace Pedalboard.Json

/-- Blanks and nothing else. -/
def IsBlank (cs : List Char) : Prop := ∀ c ∈ cs, isBlank c

/-! ## Strings -/

/-- What can stand between quotes for a character: the character itself, an escape of two characters,
a code unit, or two of them. -/
inductive SpellsChar : Char → List Char → Prop
  | plain {c : Char} : c ≠ '"' → c ≠ '\\' → 0x20 ≤ c.toNat → SpellsChar c [c]
  | short {e c : Char} : shortEscape? e = some c → SpellsChar c ['\\', e]
  | unit {p q r s : Char} {n : Nat} : unit? p q r s = some n → n < 0xD800 ∨ 0xDFFF < n →
      SpellsChar (Char.ofNat n) ['\\', 'u', p, q, r, s]
  | pair {p q r s p' q' r' s' : Char} {high low : Nat} : unit? p q r s = some high →
      unit? p' q' r' s' = some low → 0xD800 ≤ high → high < 0xDC00 → 0xDC00 ≤ low → low ≤ 0xDFFF →
      SpellsChar (Char.ofNat (0x10000 + (high - 0xD800) * 0x400 + (low - 0xDC00)))
        ['\\', 'u', p, q, r, s, '\\', 'u', p', q', r', s']

inductive SpellsChars : List Char → List Char → Prop
  | nil : SpellsChars [] []
  | cons {c : Char} {cs t ts : List Char} : SpellsChar c t → SpellsChars cs ts →
      SpellsChars (c :: cs) (t ++ ts)

def SpellsString (s : String) (text : List Char) : Prop :=
  ∃ t, SpellsChars s.toList t ∧ text = '"' :: (t ++ ['"'])

/-! ## Numbers -/

/-- An exponent with its mark; with or without a sign, and with as many zeros in front as one likes. -/
inductive SpellsExponent : Option Int → List Char → Prop
  | absent : SpellsExponent none []
  | unsigned {mark : Char} {ds : List Char} : mark = 'e' ∨ mark = 'E' → Numeral.IsRun ds →
      SpellsExponent (some (digitsValue ds)) (mark :: ds)
  | positive {mark : Char} {ds : List Char} : mark = 'e' ∨ mark = 'E' → Numeral.IsRun ds →
      SpellsExponent (some (digitsValue ds)) (mark :: '+' :: ds)
  | negative {mark : Char} {ds : List Char} : mark = 'e' ∨ mark = 'E' → Numeral.IsRun ds →
      SpellsExponent (some (-(digitsValue ds : Int))) (mark :: '-' :: ds)

/-- A sign, digits without superfluous zero in front, a fraction and an exponent. -/
def SpellsNumeral (n : Numeral) (text : List Char) : Prop :=
  n.Proper ∧ ∃ exponent, SpellsExponent n.exponent exponent ∧
    text = Layout.sign n.negative ++ (n.whole ++ (Layout.fractionText n.fraction ++ exponent))

/-! ## Values -/

inductive SpellsScalar : Json → List Char → Prop
  | null : SpellsScalar .null ['n', 'u', 'l', 'l']
  | isTrue : SpellsScalar (.bool true) ['t', 'r', 'u', 'e']
  | isFalse : SpellsScalar (.bool false) ['f', 'a', 'l', 's', 'e']
  | string {s : String} {text : List Char} : SpellsString s text → SpellsScalar (.string s) text
  /-- A numeral that stands for a number, which it does unless it overflows. -/
  | number {a : Numeral} {m : Number} {text : List Char} : SpellsNumeral a text →
      numberOf? a = some m → SpellsScalar (.number m) text

section Items

variable {α : Type} (Item : α → List Char → Prop)

/-- One or more items with commas between and blanks around each. -/
inductive Listed : List α → List Char → Prop
  | last {x : α} {before t after : List Char} : IsBlank before → Item x t → IsBlank after →
      Listed [x] (before ++ (t ++ after))
  | cons {x : α} {xs : List α} {before t after ts : List Char} : IsBlank before → Item x t →
      IsBlank after → Listed xs ts → Listed (x :: xs) (before ++ (t ++ (after ++ ',' :: ts)))

/-- What can stand between the brackets of a container. -/
inductive Inside : List α → List Char → Prop
  | empty {blanks : List Char} : IsBlank blanks → Inside [] blanks
  | listed {xs : List α} {t : List Char} : Listed Item xs t → Inside xs t

/-- A key, a colon and an item. -/
def SpellsField (f : String × α) (text : List Char) : Prop :=
  ∃ key before after t, SpellsString f.1 key ∧ IsBlank before ∧ IsBlank after ∧ Item f.2 t ∧
    text = key ++ (before ++ ':' :: (after ++ t))

end Items

/-- The text spells a document in which at most `n` containers stand inside one another. -/
def Spells : Nat → Json → List Char → Prop
  | 0, v, text => SpellsScalar v text
  | n + 1, v, text => SpellsScalar v text ∨
      (∃ vs t, v = .array vs ∧ Inside (Spells n) vs t ∧ text = '[' :: (t ++ [']'])) ∨
      ∃ fs t, v = .object fs ∧ Inside (SpellsField (Spells n)) fs t ∧ text = '{' :: (t ++ ['}'])

theorem spells_scalar {v : Json} {text : List Char} (h : SpellsScalar v text) (n : Nat) :
    Spells n v text := by
  cases n with
  | zero => exact h
  | succ n => exact .inl h

/-- The text is a document, as it stands there, with blanks around it. -/
def IsDocument (v : Json) (text : String) : Prop :=
  ∃ before t after, IsBlank before ∧ IsBlank after ∧ Spells maxNesting v t ∧
    text.toList = before ++ (t ++ after)

/-! ## Documents that count -/

mutual

def canonical : Json → Json
  | array items => array (canonicalItems items)
  | object fields => object (Keyed.ofList (canonicalFields fields)).entries
  | v => v

def canonicalItems : List Json → List Json
  | [] => []
  | v :: vs => canonical v :: canonicalItems vs

def canonicalFields : List (String × Json) → List (String × Json)
  | [] => []
  | (key, v) :: fs => (key, canonical v) :: canonicalFields fs

end

theorem canonicalItems_eq (vs : List Json) : canonicalItems vs = vs.map canonical := by
  induction vs with
  | nil => rfl
  | cons v vs ih => rw [canonicalItems, ih, List.map_cons]

theorem canonicalFields_eq (fs : List (String × Json)) :
    canonicalFields fs = fs.map fun f => (f.1, f.2.canonical) := by
  induction fs with
  | nil => rfl
  | cons f fs ih => rw [canonicalFields, ih, List.map_cons]

theorem canonical_array (vs : List Json) : canonical (.array vs) = .array (vs.map canonical) := by
  rw [canonical, canonicalItems_eq]

theorem canonical_object (fs : List (String × Json)) :
    canonical (.object fs) = .object (Keyed.ofList (fs.map fun f => (f.1, f.2.canonical))).entries := by
  rw [canonical, canonicalFields_eq]

theorem canonical_scalar {v : Json} {text : List Char} (h : SpellsScalar v text) :
    v.canonical = v := by
  cases h <;> simp [canonical]

end Pedalboard.Json
