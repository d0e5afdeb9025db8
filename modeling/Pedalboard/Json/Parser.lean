import Pedalboard.Decimal.Quick
import Pedalboard.Json.Basic

/-!
# Reading JSON

A reader of exactly the grammar of RFC 8259, over lists of characters: each function takes the
text and returns what it read with the rest, or `none`.

**Limits.** At most `maxNesting` containers stand inside one another. A number that overflows a
double is refused; one that underflows is zero.

**Numbers.** A numeral without point and exponent is an integer if it fits 64 bits (unsigned, or
signed when it is negative); `-0` and every other numeral is the double of `Decimal.quick?`, which
is the nearest one or next to it.

**Repeated keys.** Of fields with one key, the last counts.
-/

namespace Pedalboard.Json

/-- A document can nest this many arrays and objects. -/
def maxNesting : Nat := 127

def isBlank (c : Char) : Bool := c == ' ' || c == '\t' || c == '\n' || c == '\r'

def skipBlanks (cs : List Char) : List Char := cs.dropWhile isBlank

/-! ## Strings -/

def hexValue? (c : Char) : Option Nat :=
  if '0' ≤ c ∧ c ≤ '9' then some (c.toNat - '0'.toNat)
  else if 'a' ≤ c ∧ c ≤ 'f' then some (c.toNat - 'a'.toNat + 10)
  else if 'A' ≤ c ∧ c ≤ 'F' then some (c.toNat - 'A'.toNat + 10)
  else none

/-- The code unit of four hexadecimal digits. -/
def unit? (a b c d : Char) : Option Nat := do
  let a ← hexValue? a
  let b ← hexValue? b
  let c ← hexValue? c
  let d ← hexValue? d
  some (((a * 16 + b) * 16 + c) * 16 + d)

/-- The character that a letter after a backslash stands for. -/
def shortEscape? (c : Char) : Option Char :=
  if c = '"' ∨ c = '\\' ∨ c = '/' then some c
  else if c = 'b' then some '\x08'
  else if c = 'f' then some '\x0c'
  else if c = 'n' then some '\n'
  else if c = 'r' then some '\r'
  else if c = 't' then some '\t'
  else none

/-- The characters of a string up to its closing quote. -/
def stringTail : List Char → Option (List Char × List Char)
  | [] => none
  | c :: rest =>
    if c = '"' then some ([], rest)
    else if c = '\\' then
      match rest with
      | [] => none
      | e :: rest =>
        if e = 'u' then
          match rest with
          | p :: q :: r :: s :: rest =>
            match unit? p q r s with
            | none => none
            | some high =>
              if high < 0xD800 ∨ 0xDFFF < high then
                (stringTail rest).map fun (cs, rest) => (Char.ofNat high :: cs, rest)
              else
                match rest with
                | b :: u :: p :: q :: r :: s :: rest =>
                  match unit? p q r s with
                  | none => none
                  | some low =>
                    if b = '\\' ∧ u = 'u' ∧ high < 0xDC00 ∧ 0xDC00 ≤ low ∧ low ≤ 0xDFFF then
                      let code := 0x10000 + (high - 0xD800) * 0x400 + (low - 0xDC00)
                      (stringTail rest).map fun (cs, rest) => (Char.ofNat code :: cs, rest)
                    else none
                | _ => none
          | _ => none
        else
          match shortEscape? e with
          | none => none
          | some c => (stringTail rest).map fun (cs, rest) => (c :: cs, rest)
    else if c.toNat < 0x20 then none
    else (stringTail rest).map fun (cs, rest) => (c :: cs, rest)

/-! ## Numbers -/

/-- The digits before the point: `0`, or a run without leading zero. -/
def wholeDigits (cs : List Char) : Option (List Char × List Char) :=
  match digitsOf cs with
  | [] => none
  | '0' :: _ :: _ => none
  | digits => some (digits, afterDigits cs)

/-- The digits after a point, if one stands here. -/
def optionalFraction (cs : List Char) : Option (Option (List Char) × List Char) :=
  match cs with
  | '.' :: rest =>
    if (digitsOf rest).isEmpty then none else some (some (digitsOf rest), afterDigits rest)
  | _ => some (none, cs)

def unsignedNumeral (negative : Bool) (cs : List Char) : Option (Numeral × List Char) := do
  let (whole, cs) ← wholeDigits cs
  let (fraction, cs) ← optionalFraction cs
  let (exponent, cs) ← optionalExponent cs
  some ({ negative, whole, fraction, exponent }, cs)

def numeral (cs : List Char) : Option (Numeral × List Char) :=
  match cs with
  | '-' :: rest => unsignedNumeral true rest
  | _ => unsignedNumeral false cs

/-- The number that a numeral stands for, unless it overflows. -/
def numberOf? (n : Numeral) : Option Number :=
  let v := digitsValue n.whole
  if n.isInteger ∧ n.negative = false ∧ v < naturalBound then some (.integer v)
  else if n.isInteger ∧ n.negative = true ∧ 0 < v ∧ v ≤ integerBound then some (.integer (-v))
  else
    n.clip.quick?.map fun x => .double { x with negative := n.negative }

/-! ## Values -/

/-- What follows a word that the text starts with. -/
def stripWord (word : List Char) (cs : List Char) : Option (List Char) :=
  if word.isPrefixOf cs then some (cs.drop word.length) else none

/-- A value that is no container. -/
def scalar (cs : List Char) : Option (Json × List Char) :=
  match cs with
  | [] => none
  | c :: rest =>
    if c = '"' then (stringTail rest).map fun (s, rest) => (.string (String.ofList s), rest)
    else if c = 'n' then (stripWord "ull".toList rest).map fun rest => (.null, rest)
    else if c = 't' then (stripWord "rue".toList rest).map fun rest => (.bool true, rest)
    else if c = 'f' then (stripWord "alse".toList rest).map fun rest => (.bool false, rest)
    else do
      let (n, rest) ← numeral cs
      let n ← numberOf? n
      some (.number n, rest)

/-- One or more items with commas between, up to a closing character; `fuel` bounds their number. -/
def itemsTail {α : Type} (item : List Char → Option (α × List Char)) (close : Char) :
    Nat → List Char → Option (List α × List Char)
  | 0, _ => none
  | fuel + 1, cs => do
    let (x, cs) ← item cs
    match skipBlanks cs with
    | [] => none
    | c :: rest =>
      if c = close then some ([x], rest)
      else if c = ',' then do
        let (xs, rest) ← itemsTail item close fuel rest
        some (x :: xs, rest)
      else none

/-- Any number of items, after the opening character. -/
def items {α : Type} (item : List Char → Option (α × List Char)) (close : Char)
    (cs : List Char) : Option (List α × List Char) :=
  match skipBlanks cs with
  | [] => none
  | c :: rest => if c = close then some ([], rest) else itemsTail item close (cs.length + 1) cs

/-- A key, a colon and a value. -/
def member {α : Type} (value : List Char → Option (α × List Char)) (cs : List Char) :
    Option ((String × α) × List Char) :=
  match skipBlanks cs with
  | '"' :: rest => do
    let (key, rest) ← stringTail rest
    match skipBlanks rest with
    | ':' :: rest => do
      let (v, rest) ← value rest
      some ((String.ofList key, v), rest)
    | _ => none
  | _ => none

/-- A value inside which `nesting` containers can stand, after blanks. -/
def value : Nat → List Char → Option (Json × List Char)
  | 0, cs =>
    match skipBlanks cs with
    | '[' :: _ => none
    | '{' :: _ => none
    | cs => scalar cs
  | nesting + 1, cs =>
    match skipBlanks cs with
    | '[' :: rest => (items (value nesting) ']' rest).map fun (vs, rest) => (.array vs, rest)
    | '{' :: rest =>
      (items (member (value nesting)) '}' rest).map fun (fs, rest) =>
        (.object (Keyed.ofList fs).entries, rest)
    | cs => scalar cs

/-- The document that a text holds. -/
def parse? (text : String) : Option Json :=
  match value maxNesting text.toList with
  | some (v, rest) => if (skipBlanks rest).isEmpty then some v else none
  | none => none

/-- The document that bytes hold, if they are a text in UTF-8. -/
def parseBytes? (bytes : ByteArray) : Option Json := (String.fromUTF8? bytes).bind parse?

end Pedalboard.Json
