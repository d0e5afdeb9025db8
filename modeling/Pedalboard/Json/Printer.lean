import Pedalboard.Decimal.Layout
import Pedalboard.Json.Basic

/-!
# Writing JSON

**Two shapes.** `compact` puts nothing between tokens. `pretty` indents by two spaces a level and
puts every item and field on a line of its own; empty arrays and objects stay closed.

**Strings.** Quotes, backslashes and characters below `U+0020` are escaped, and nothing else.

**Numbers** are written in the shortest form that reads back, with `.0` on integral values; numbers
that are no finite value become `null`. Singles and doubles switch to exponents at different
magnitudes.
-/

namespace Pedalboard.Json

/-- Singles are positional from `10 ^ -6` to below `10 ^ 13`. -/
def singleLayout : Layout where
  tie := .even
  positional e := -6 ≤ e && e ≤ 12
  pointAlways := true
  plusSign := true

/-- Doubles are positional from `10 ^ -5` to below `10 ^ 16`. -/
def doubleLayout : Layout where
  tie := .even
  positional e := -5 ≤ e && e ≤ 15
  pointAlways := true
  plusSign := true

def nullText : List Char := ['n', 'u', 'l', 'l']

def integerText (n : Int) : List Char := Layout.sign (n < 0) ++ Nat.toDigits 10 n.natAbs

def numberText : Number → List Char
  | .integer n => integerText n
  | .double x => if x.isFinite then doubleLayout.render x else nullText
  | .single x => if x.isFinite then singleLayout.render x else nullText

/-! ## Strings -/

def hexDigit (n : Nat) : Char := (Nat.digitChar n)

/-- A character as it stands between quotes. -/
def escapeChar (c : Char) : List Char :=
  if c = '"' then ['\\', '"']
  else if c = '\\' then ['\\', '\\']
  else if 0x20 ≤ c.toNat then [c]
  else if c = '\x08' then ['\\', 'b']
  else if c = '\t' then ['\\', 't']
  else if c = '\n' then ['\\', 'n']
  else if c = '\x0c' then ['\\', 'f']
  else if c = '\r' then ['\\', 'r']
  else ['\\', 'u', '0', '0', hexDigit (c.toNat / 16), hexDigit (c.toNat % 16)]

def stringText (s : String) : List Char := '"' :: s.toList.flatMap escapeChar ++ ['"']

/-! ## Compact documents -/

mutual

def compactText : Json → List Char
  | null => nullText
  | bool true => ['t', 'r', 'u', 'e']
  | bool false => ['f', 'a', 'l', 's', 'e']
  | number n => numberText n
  | string s => stringText s
  | array items => '[' :: compactItems items ++ [']']
  | object fields => '{' :: compactFields fields ++ ['}']

def compactItems : List Json → List Char
  | [] => []
  | [v] => compactText v
  | v :: vs => compactText v ++ ',' :: compactItems vs

def compactFields : List (String × Json) → List Char
  | [] => []
  | [(k, v)] => stringText k ++ ':' :: compactText v
  | (k, v) :: fs => stringText k ++ ':' :: compactText v ++ ',' :: compactFields fs

end

/-! ## Pretty documents -/

/-- A new line, indented by a level. -/
def newline (level : Nat) : List Char := '\n' :: List.replicate (2 * level) ' '

mutual

def prettyText (level : Nat) : Json → List Char
  | null => nullText
  | bool true => ['t', 'r', 'u', 'e']
  | bool false => ['f', 'a', 'l', 's', 'e']
  | number n => numberText n
  | string s => stringText s
  | array [] => ['[', ']']
  | array items => '[' :: prettyItems (level + 1) items ++ newline level ++ [']']
  | object [] => ['{', '}']
  | object fields => '{' :: prettyFields (level + 1) fields ++ newline level ++ ['}']

def prettyItems (level : Nat) : List Json → List Char
  | [] => []
  | [v] => newline level ++ prettyText level v
  | v :: vs => newline level ++ prettyText level v ++ ',' :: prettyItems level vs

def prettyFields (level : Nat) : List (String × Json) → List Char
  | [] => []
  | [(k, v)] => newline level ++ stringText k ++ ':' :: ' ' :: prettyText level v
  | (k, v) :: fs =>
    newline level ++ stringText k ++ ':' :: ' ' :: prettyText level v ++ ',' :: prettyFields level fs

end

def compact (v : Json) : String := String.ofList (compactText v)

def pretty (v : Json) : String := String.ofList (prettyText 0 v)

end Pedalboard.Json
