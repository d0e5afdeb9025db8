import Pedalboard.Toml.Basic

/-!
# TOML strings

**Four forms.** Basic strings (`"`) know escapes, literal strings (`'`) do not; each has a form of
three quotes that can span lines and hold up to two quotes in a row.

**Writing** (`quote`). The first form that needs no escape is used, in the order basic, literal,
basic of several lines, literal of several lines. A text that needs escapes in every form is
written as a basic string, of several lines if it has line breaks.
-/

namespace Pedalboard.Toml

/-! ## Reading -/

def hexValue? (c : Char) : Option Nat :=
  if '0' ≤ c ∧ c ≤ '9' then some (c.toNat - '0'.toNat)
  else if 'a' ≤ c ∧ c ≤ 'f' then some (c.toNat - 'a'.toNat + 10)
  else if 'A' ≤ c ∧ c ≤ 'F' then some (c.toNat - 'A'.toNat + 10)
  else none

/-- The character with a code of hexadecimal digits; surrogates have none. -/
def scalarOfHex? (digits : List Char) : Option Char := do
  let n ← digits.foldlM (fun n c => (hexValue? c).map (16 * n + ·)) 0
  if n < 0xD800 ∨ (0xDFFF < n ∧ n < 0x110000) then some (Char.ofNat n) else none

/-- The character of an escape, after its backslash. -/
def escape? (cs : List Char) : Option (Char × List Char) :=
  match cs with
  | [] => none
  | c :: rest =>
    if c = '"' ∨ c = '\\' then some (c, rest)
    else if c = 'b' then some ('\x08', rest)
    else if c = 't' then some ('\t', rest)
    else if c = 'n' then some ('\n', rest)
    else if c = 'f' then some ('\x0c', rest)
    else if c = 'r' then some ('\r', rest)
    else if c = 'u' ∨ c = 'U' then
      let count := if c = 'u' then 4 else 8
      if rest.length < count then none
      else (scalarOfHex? (rest.take count)).map fun c => (c, rest.drop count)
    else none

/-- The characters of a string on one line, up to its closing quote; `fuel` bounds their number. -/
def lineTail (quote : Char) (escapes : Bool) : Nat → List Char → Option (List Char × List Char)
  | 0, _ => none
  | _, [] => none
  | fuel + 1, c :: rest =>
    if c = quote then some ([], rest)
    else if escapes ∧ c = '\\' then do
      let (c, rest) ← escape? rest
      let (cs, rest) ← lineTail quote escapes fuel rest
      some (c :: cs, rest)
    else if isPlain c then do
      let (cs, rest) ← lineTail quote escapes fuel rest
      some (c :: cs, rest)
    else none

/-- Skips blanks and line breaks; `fuel` bounds their number. -/
def skipSpace : Nat → List Char → List Char
  | 0, cs => cs
  | fuel + 1, cs =>
    match newline? (skipBlanks cs) with
    | some rest => skipSpace fuel rest
    | none => skipBlanks cs

/-- What follows a backslash that ends a line: the next character that is no space. -/
def continuation? (cs : List Char) : Option (List Char) :=
  (newline? (skipBlanks cs)).map fun rest => skipSpace rest.length rest

/-- The characters of a string of several lines, up to its closing quotes. Of a run of three to
five quotes, the last three close. -/
def linesTail (quote : Char) (escapes : Bool) : Nat → List Char → Option (List Char × List Char)
  | 0, _ => none
  | _, [] => none
  | fuel + 1, c :: rest =>
    if c = quote then
      let run := ((c :: rest).takeWhile (· = quote)).length
      if run < 3 then do
        let (cs, rest) ← linesTail quote escapes fuel ((c :: rest).drop run)
        some (List.replicate run quote ++ cs, rest)
      else
        let inner := min run 5 - 3
        some (List.replicate inner quote, (c :: rest).drop (inner + 3))
    else if escapes ∧ c = '\\' then
      match continuation? rest with
      | some rest => linesTail quote escapes fuel rest
      | none => do
        let (c, rest) ← escape? rest
        let (cs, rest) ← linesTail quote escapes fuel rest
        some (c :: cs, rest)
    else
      match newline? (c :: rest) with
      | some rest => do
        let (cs, rest) ← linesTail quote escapes fuel rest
        some ('\n' :: cs, rest)
      | none =>
        if isPlain c then do
          let (cs, rest) ← linesTail quote escapes fuel rest
          some (c :: cs, rest)
        else none

/-- A string that starts with the given quote. -/
def stringOf (quote : Char) (escapes : Bool) (cs : List Char) : Option (String × List Char) :=
  let read := match cs with
    | a :: b :: c :: rest =>
      if a = quote ∧ b = quote ∧ c = quote then
        -- A line break right after the opening quotes is dropped.
        linesTail quote escapes (rest.length + 1) ((newline? rest).getD rest)
      else if a = quote then lineTail quote escapes (cs.length + 1) (b :: c :: rest)
      else none
    | a :: rest => if a = quote then lineTail quote escapes (cs.length + 1) rest else none
    | [] => none
  read.map fun (text, rest) => (String.ofList text, rest)

/-- A string in any of the four forms. -/
def string (cs : List Char) : Option (String × List Char) :=
  match cs with
  | '"' :: _ => stringOf '"' true cs
  | '\'' :: _ => stringOf '\'' false cs
  | _ => none

/-- A string on one line, as it can stand for a key. -/
def keyString (cs : List Char) : Option (String × List Char) :=
  let read := match cs with
    | '"' :: rest => lineTail '"' true (rest.length + 1) rest
    | '\'' :: rest => lineTail '\'' false (rest.length + 1) rest
    | _ => none
  read.map fun (text, rest) => (String.ofList text, rest)

/-! ## Writing -/

/-- The length of the longest run of a character. -/
def longestRun (x : Char) (cs : List Char) : Nat :=
  let step (runs : Nat × Nat) (c : Char) : Nat × Nat :=
    let run := if c = x then runs.1 + 1 else 0
    (run, max runs.2 run)
  (cs.foldl step (0, 0)).2

/-- A control character that only an escape can stand for. -/
def needsEscape (c : Char) : Bool :=
  c != '\t' && c != '\n' && (c.toNat < 0x20 || c.toNat == 0x7f)

/-- Four hexadecimal digits. -/
def hex4 (n : Nat) : List Char :=
  [n / 4096 % 16, n / 256 % 16, n / 16 % 16, n % 16].map fun d => (Nat.digitChar d).toUpper

/-- A character that is no quote, as it stands in a basic string. -/
def escapeChar (lines : Bool) (c : Char) : List Char :=
  if c = '\x08' then ['\\', 'b']
  else if c = '\t' then ['\\', 't']
  else if c = '\n' then if lines then [c] else ['\\', 'n']
  else if c = '\x0c' then ['\\', 'f']
  else if c = '\r' then ['\\', 'r']
  else if c = '\\' then ['\\', '\\']
  else if needsEscape c then '\\' :: 'u' :: hex4 c.toNat
  else [c]

/-- The body of a basic string. Of the quotes in a row, the first `free` stand as they are. -/
def escapeBody (lines : Bool) (free : Nat) : Nat → List Char → List Char
  | _, [] => []
  | run, c :: rest =>
    if c = '"' then
      if run < free then c :: escapeBody lines free (run + 1) rest
      else '\\' :: c :: escapeBody lines free 0 rest
    else escapeChar lines c ++ escapeBody lines free 0 rest

/-- The forms of a string. -/
inductive Form
  | basic
  | literal
  | basicLines
  | literalLines
deriving DecidableEq, Repr

/-- The form in which a text is written. -/
def Form.of (cs : List Char) : Form :=
  let lines := cs.contains '\n'
  let control := cs.any needsEscape
  let backslash := cs.contains '\\'
  let singles := longestRun '\'' cs
  let doubles := longestRun '"' cs
  if !control && !backslash && doubles = 0 && !lines then .basic
  else if !control && singles = 0 && !lines then .literal
  else if !control && !backslash && doubles ≤ 2 then .basicLines
  else if !control && singles ≤ 2 then .literalLines
  else if lines then .basicLines
  else .basic

/-- A text as a TOML string. -/
def quote (cs : List Char) : List Char :=
  -- A text of several lines starts on a line of its own.
  let first := if cs.contains '\n' then ['\n'] else []
  match Form.of cs with
  | .basic => '"' :: escapeBody false 0 0 cs ++ ['"']
  | .literal => '\'' :: cs ++ ['\'']
  | .basicLines => ['"', '"', '"'] ++ first ++ escapeBody true 2 0 cs ++ ['"', '"', '"']
  | .literalLines => ['\'', '\'', '\''] ++ first ++ cs ++ ['\'', '\'', '\'']

end Pedalboard.Toml
