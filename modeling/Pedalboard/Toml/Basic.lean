import Pedalboard.Binary.Basic

/-!
# TOML values

What a TOML document holds. Dates and times are kept as they are written.
-/

namespace Pedalboard.Toml

inductive Value
  | string (s : String)
  | integer (n : Int)
  | float (x : Double)
  | boolean (b : Bool)
  | moment (text : String)
  | array (items : List Value)
  | table (fields : List (String × Value))

instance : Inhabited Value := ⟨.boolean false⟩

/-! ## Characters -/

def isBlank (c : Char) : Bool := c == ' ' || c == '\t'

/-- What can stand in comments and strings besides quotes and backslashes: tabs, and everything
that is neither a control character nor `U+007F`. -/
def isPlain (c : Char) : Bool := c == '\t' || (0x20 ≤ c.toNat && c.toNat != 0x7f)

def isBareKeyChar (c : Char) : Bool := c.isAlphanum || c == '-' || c == '_'

def skipBlanks (cs : List Char) : List Char := cs.dropWhile isBlank

/-- What follows a line break, if one stands here. -/
def newline? : List Char → Option (List Char)
  | '\n' :: rest => some rest
  | '\r' :: '\n' :: rest => some rest
  | _ => none

/-- What follows a comment, if one stands here, up to the end of its line. -/
def skipComment (cs : List Char) : List Char :=
  match cs with
  | '#' :: rest => rest.dropWhile isPlain
  | _ => cs

/-- What follows the rest of a line, which may hold blanks and a comment. -/
def lineEnd? (cs : List Char) : Option (List Char) :=
  match skipComment (skipBlanks cs) with
  | [] => some []
  | rest => newline? rest

/-- Skips blanks, comments and line breaks; `fuel` bounds their number. -/
def skipLines : Nat → List Char → List Char
  | 0, cs => cs
  | fuel + 1, cs =>
    let cs := skipBlanks cs
    match cs with
    | '#' :: _ =>
      match newline? (skipComment cs) with
      | some rest => skipLines fuel rest
      | none => cs
    | _ =>
      match newline? cs with
      | some rest => skipLines fuel rest
      | none => cs

end Pedalboard.Toml
