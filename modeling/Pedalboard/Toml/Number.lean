import Pedalboard.Decimal.Numeral
import Pedalboard.Toml.Text

/-!
# TOML numbers, dates and times

**Integers** fit 64 bits with sign. Decimal ones have no leading zero; `0x`, `0o` and `0b` start
other bases, without sign. Single underscores can stand between digits.

**Floats** have a fraction or an exponent; `inf` and `nan` are floats.

**Dates and times** are checked field by field, days against the length of their month.
-/

namespace Pedalboard.Toml

/-- The digits after a first one; an underscore has to stand before a digit. -/
def digitTail (isDigit : Char → Bool) : List Char → Option (List Char × List Char)
  | [] => some ([], [])
  | c :: rest =>
    if isDigit c then (digitTail isDigit rest).map fun (ds, rest) => (c :: ds, rest)
    else if c = '_' then
      match rest with
      | [] => none
      | d :: rest =>
        if isDigit d then (digitTail isDigit rest).map fun (ds, rest) => (d :: ds, rest) else none
    else some ([], c :: rest)

/-- Digits with single underscores between them, underscores left out. -/
def digitRun (isDigit : Char → Bool) (cs : List Char) : Option (List Char × List Char) :=
  match cs with
  | [] => none
  | c :: rest =>
    if isDigit c then (digitTail isDigit rest).map fun (ds, rest) => (c :: ds, rest) else none

def sign (cs : List Char) : Bool × List Char :=
  match cs with
  | '+' :: rest => (false, rest)
  | '-' :: rest => (true, rest)
  | _ => (false, cs)

/-- Decimal digits without leading zero. -/
def wholeDigits (cs : List Char) : Option (List Char × List Char) :=
  match cs with
  | '0' :: rest => some (['0'], rest)
  | _ => digitRun Char.isDigit cs

/-- An integer that fits 64 bits with sign. -/
def inRange? (n : Int) : Option Int :=
  if -(integerBound : Int) ≤ n ∧ n < integerBound then some n else none

def ofBase (base : Nat) (cs : List Char) : Option (Int × List Char) := do
  let (digits, rest) ← digitRun (fun c => (hexValue? c).any (· < base)) cs
  let n ← inRange? (digits.foldl (fun n c => base * n + (hexValue? c).getD 0) 0)
  some (n, rest)

def integer (cs : List Char) : Option (Int × List Char) :=
  match cs with
  | '0' :: 'x' :: rest => ofBase 16 rest
  | '0' :: 'o' :: rest => ofBase 8 rest
  | '0' :: 'b' :: rest => ofBase 2 rest
  | _ => do
    let (negative, rest) := sign cs
    let (digits, rest) ← wholeDigits rest
    let v : Int := digitsValue digits
    let n ← inRange? (if negative then -v else v)
    some (n, rest)

/-! ## Floats -/

/-- An exponent with its mark. -/
def exponent (cs : List Char) : Option (Int × List Char) :=
  match cs with
  | c :: rest =>
    if c = 'e' ∨ c = 'E' then do
      let (negative, rest) := sign rest
      let (digits, rest) ← digitRun Char.isDigit rest
      let v : Int := digitsValue digits
      some (if negative then -v else v, rest)
    else none
  | [] => none

def startsExponent (cs : List Char) : Bool := cs.head?.any fun c => c == 'e' || c == 'E'

/-- The number of a float, unless it overflows upwards. -/
def floatOf? (negative : Bool) (d : Decimal) : Option Double :=
  let x : Double := .ofDecimal negative d
  if x.isInfinite && !negative then none else some x

/-- Whether a float stands here, and if so the float, which may be malformed. -/
def float? (cs : List Char) : Option (Option (Double × List Char)) :=
  let (negative, rest) := sign cs
  match rest with
  | 'i' :: 'n' :: 'f' :: rest => some (some (.infinity negative, rest))
  | 'n' :: 'a' :: 'n' :: rest => some (some (.nan, rest))
  | _ =>
    match wholeDigits rest with
    | none => none
    | some (whole, '.' :: rest) => some do
      let (fraction, rest) ← digitRun Char.isDigit rest
      let (e, rest) ← if startsExponent rest then exponent rest else some (0, rest)
      let x ← floatOf? negative ⟨digitsValue (whole ++ fraction), e - fraction.length⟩
      some (x, rest)
    | some (whole, rest) =>
      if startsExponent rest then some do
        let (e, rest) ← exponent rest
        let x ← floatOf? negative ⟨digitsValue whole, e⟩
        some (x, rest)
      else none

/-! ## Dates and times -/

/-- A field of exactly `count` digits within bounds. -/
def field (count least greatest : Nat) (cs : List Char) : Option (Nat × List Char) :=
  let digits := cs.take count
  if digits.length = count ∧ digits.all Char.isDigit ∧ least ≤ digitsValue digits ∧
      digitsValue digits ≤ greatest then
    some (digitsValue digits, cs.drop count)
  else none

def mark (c : Char) : List Char → Option (List Char)
  | d :: rest => if d = c then some rest else none
  | [] => none

def daysInMonth (year month : Nat) : Nat :=
  if month = 2 then
    if year % 4 = 0 ∧ (year % 100 ≠ 0 ∨ year % 400 = 0) then 29 else 28
  else if month = 4 ∨ month = 6 ∨ month = 9 ∨ month = 11 then 30
  else 31

/-- The rest of a date after its year and the mark that follows. -/
def dateTail (year : Nat) (cs : List Char) : Option (List Char) := do
  let (month, cs) ← field 2 1 12 cs
  let cs ← mark '-' cs
  let (_, cs) ← field 2 1 (daysInMonth year month) cs
  some cs

/-- The rest of a time after its hour and the mark that follows. -/
def timeTail (cs : List Char) : Option (List Char) := do
  let (_, cs) ← field 2 0 59 cs
  let cs ← mark ':' cs
  let (_, cs) ← field 2 0 60 cs
  match cs with
  | '.' :: rest => if (digitsOf rest).isEmpty then some cs else some (afterDigits rest)
  | _ => some cs

/-- What follows an hour and a colon. -/
def hourMark? (cs : List Char) : Option (List Char) := do
  let (_, cs) ← field 2 0 23 cs
  mark ':' cs

def offsetTail (cs : List Char) : Option (List Char) :=
  match cs with
  | c :: rest =>
    if c = 'Z' ∨ c = 'z' then some rest
    else if c = '+' ∨ c = '-' then do
      let rest ← hourMark? rest
      let (_, rest) ← field 2 0 59 rest
      some rest
    else some cs
  | [] => some []

/-- What follows the time of a date, if one stands here. -/
def optionalTime (cs : List Char) : Option (List Char) :=
  match cs with
  | c :: rest =>
    if c = 'T' ∨ c = 't' ∨ c = ' ' then
      match hourMark? rest with
      | some rest => (timeTail rest).bind offsetTail
      | none => some cs
    else some cs
  | [] => some []

/-- Whether a date or a time stands here, and if so what follows it; it may be malformed. -/
def momentTail? (cs : List Char) : Option (Option (List Char)) :=
  match (field 4 0 9999 cs).bind fun (year, cs) => (mark '-' cs).map (year, ·) with
  | some (year, rest) => some ((dateTail year rest).bind optionalTime)
  | none => (hourMark? cs).map timeTail

end Pedalboard.Toml
