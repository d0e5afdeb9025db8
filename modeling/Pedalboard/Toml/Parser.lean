import Pedalboard.Toml.Number
import Pedalboard.Toml.Table

/-!
# Reading TOML

A reader of TOML 1.0 over lists of characters: each function takes the text and returns what it
read with the rest, or `none`.

**Limits.** Fewer than `maxDepth` arrays and inline tables stand inside one another, and a dotted
key has fewer than `maxDepth` parts.
-/

namespace Pedalboard.Toml

def maxDepth : Nat := 80

/-! ## Keys -/

/-- A part of a key: bare, or a string on one line. -/
def simpleKey (cs : List Char) : Option (String × List Char) :=
  let bare := cs.takeWhile isBareKeyChar
  if bare.isEmpty then keyString cs else some (String.ofList bare, cs.drop bare.length)

/-- The parts of a key, with dots between; blanks can stand around each. -/
def keyParts : Nat → List Char → Option (List String × List Char)
  | 0, _ => none
  | fuel + 1, cs => do
    let (part, cs) ← simpleKey (skipBlanks cs)
    match skipBlanks cs with
    | '.' :: rest => do
      let (parts, rest) ← keyParts fuel rest
      some (part :: parts, rest)
    | cs => some ([part], cs)

/-- A key, as its path and its last part. -/
def key (cs : List Char) : Option ((List String × String) × List Char) := do
  let (parts, cs) ← keyParts (cs.length + 1) cs
  let last ← parts.getLast?
  if parts.length < maxDepth then some ((parts.dropLast, last), cs) else none

/-- What follows a word that the text starts with. -/
def word (w : String) (cs : List Char) : Option (List Char) :=
  if w.toList.isPrefixOf cs then some (cs.drop w.length) else none

/-! ## Values -/

/-- A date, a time, a float or an integer; the first that stands here decides. -/
def numberOrMoment (cs : List Char) : Option (Value × List Char) :=
  match momentTail? cs with
  | some after => after.map fun rest =>
      (.moment (String.ofList (cs.take (cs.length - rest.length))), rest)
  | none =>
    match float? cs with
    | some read => read.map fun (x, rest) => (.float x, rest)
    | none => (integer cs).map fun (n, rest) => (.integer n, rest)

/-- A value that is no container. -/
def scalar (cs : List Char) : Option (Value × List Char) :=
  match cs with
  | [] => none
  | c :: _ =>
    if c = '"' ∨ c = '\'' then (string cs).map fun (s, rest) => (.string s, rest)
    else if c = 't' then (word "true" cs).map fun rest => (.boolean true, rest)
    else if c = 'f' then (word "false" cs).map fun rest => (.boolean false, rest)
    else numberOrMoment cs

def skipLinesAll (cs : List Char) : List Char := skipLines (cs.length + 1) cs

/-- The items of an array after its bracket; a comma can follow the last. -/
def arrayTail (value : List Char → Option (Value × List Char)) :
    Nat → List Char → Option (List Value × List Char)
  | 0, _ => none
  | fuel + 1, cs =>
    match skipLinesAll cs with
    | ']' :: rest => some ([], rest)
    | cs => do
      let (v, cs) ← value cs
      match skipLinesAll cs with
      | ',' :: rest => do
        let (vs, rest) ← arrayTail value fuel rest
        some (v :: vs, rest)
      | ']' :: rest => some ([v], rest)
      | _ => none

/-- A key, an equals sign and a value. -/
def keyValue (value : List Char → Option (Value × List Char)) (cs : List Char) :
    Option ((List String × String × Value) × List Char) := do
  let ((path, last), cs) ← key cs
  match cs with
  | '=' :: rest => do
    let (v, rest) ← value (skipBlanks rest)
    some ((path, last, v), rest)
  | _ => none

/-- One or more fields of an inline table, up to its brace. -/
def inlineTail (value : List Char → Option (Value × List Char)) :
    Nat → Table → List Char → Option (Table × List Char)
  | 0, _, _ => none
  | fuel + 1, t, cs => do
    let ((path, last, v), cs) ← keyValue value cs
    let t ← t.define path last v
    match skipBlanks cs with
    | ',' :: rest => inlineTail value fuel t rest
    | '}' :: rest => some (t, rest)
    | _ => none

/-- A value inside which `depth` containers can stand. -/
def value : Nat → List Char → Option (Value × List Char)
  | 0, cs =>
    match cs with
    | '[' :: _ => none
    | '{' :: _ => none
    | cs => scalar cs
  | depth + 1, cs =>
    match cs with
    | '[' :: rest =>
      (arrayTail (value depth) (rest.length + 1) rest).map fun (vs, rest) => (.array vs, rest)
    | '{' :: rest =>
      match skipBlanks rest with
      | '}' :: rest => some (.table [], rest)
      | rest =>
        (inlineTail (value depth) (rest.length + 1) .empty rest).map fun (t, rest) =>
          (t.toValue, rest)
    | cs => scalar cs

/-! ## Documents -/

/-- The tables read so far, and the path of the one that is open. -/
structure Progress where
  root : Table
  current : List String

/-- A header of a table or of an element of an array of tables. -/
def header (p : Progress) (cs : List Char) : Option (Progress × List Char) :=
  match cs with
  | '[' :: rest => do
    let ((path, last), rest) ← key rest
    let rest ← word "]]" rest
    let root ← p.root.openElement path last
    some ({ root, current := path ++ [last] }, rest)
  | rest => do
    let ((path, last), rest) ← key rest
    let rest ← word "]" rest
    let root ← p.root.openTable path last
    some ({ root, current := path ++ [last] }, rest)

/-- One line: nothing, a comment, a header or a field. -/
def line (p : Progress) (cs : List Char) : Option (Progress × List Char) :=
  match cs with
  | '#' :: _ => some (p, cs)
  | '\n' :: _ => some (p, cs)
  | '\r' :: _ => some (p, cs)
  | '[' :: rest => header p rest
  | _ => do
    let ((path, last, v), rest) ← keyValue (value (maxDepth - 1)) cs
    let root ← p.root.descend false (Table.define path last v) p.current
    some ({ p with root }, rest)

/-- All lines; `fuel` bounds their number. -/
def lines : Nat → Progress → List Char → Option Table
  | 0, _, _ => none
  | fuel + 1, p, cs =>
    match skipBlanks cs with
    | [] => some p.root
    | cs => do
      let (p, cs) ← line p cs
      let cs ← lineEnd? cs
      lines fuel p cs

/-- The fields of a document; a byte order mark in front is skipped. -/
def parse? (text : String) : Option (List (String × Value)) :=
  let cs := match text.toList with
    | c :: rest => if c.toNat = 0xFEFF then rest else c :: rest
    | [] => []
  (lines (cs.length + 1) { root := .empty, current := [] } cs).map fun t => Table.fieldValues t.fields

end Pedalboard.Toml
