import Pedalboard.Binary.Arithmetic
import Pedalboard.Keyed

/-!
# JSON documents

**Documents** (`Json`). What a reader gives and a writer takes. Numbers are integers or
floating-point numbers: a numeral without point and exponent that fits 64 bits is an integer, and
every other one that is read is a double. Writers can also put singles.

**Objects** list their fields in the order in which they are written. A document that was read has
the fields of its objects in the order of their keys, each key once.
-/

namespace Pedalboard

inductive Number
  | integer (n : Int)
  | double (x : Double)
  /-- Written with the digits that a single needs; never read. -/
  | single (x : Single)
deriving DecidableEq

inductive Json
  | null
  | bool (b : Bool)
  | number (n : Number)
  | string (s : String)
  | array (items : List Json)
  | object (fields : List (String × Json))

namespace Json

instance : Inhabited Json := ⟨null⟩

def natural (n : Nat) : Json := .number (.integer n)

def single (x : Single) : Json := .number (.single x)

/-! ## Reading fields -/

def field? (key : String) : List (String × Json) → Option Json := List.lookup key

def object? : Json → Option (List (String × Json))
  | object fields => some fields
  | _ => none

def array? : Json → Option (List Json)
  | array items => some items
  | _ => none

def string? : Json → Option String
  | string s => some s
  | _ => none

def bool? : Json → Option Bool
  | bool b => some b
  | _ => none

/-- An integer that is not negative. -/
def natural? : Json → Option Nat
  | number (.integer n) => if 0 ≤ n then some n.toNat else none
  | _ => none

/-- A number, as the nearest double. -/
def double? : Json → Option Double
  | number (.integer n) => some (.ofInt n)
  | number (.double x) => some x
  | number (.single x) => some x.widen
  | _ => none

/-- A number that is finite as a single, rounded to a double first. -/
def finiteSingle? (v : Json) : Option Single :=
  v.double?.bind fun x => if x.narrow.isFinite then some x.narrow else none

end Json

end Pedalboard
