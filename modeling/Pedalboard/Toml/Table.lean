import Pedalboard.Toml.Basic

/-!
# Defining tables

A document defines its tables piece by piece, with headers and dotted keys, and no table may be
defined twice.

**Tables under construction** (`Table`). A table is *implicit* while only its children have been
named, and *dotted* if a dotted key made it. A header can open an implicit table that is not
dotted, once. Dotted keys can go on through implicit tables only, and end in dotted ones.

**Arrays of tables** keep the tables already closed and the one that is open; paths lead into the
open one.
-/

namespace Pedalboard.Toml

mutual

inductive Table
  | mk (implicit dotted : Bool) (fields : List (String × Item))

inductive Item
  | value (v : Value)
  | table (t : Table)
  | tables (closed : List Table) (current : Table)

end

namespace Table

def implicit : Table → Bool
  | mk implicit _ _ => implicit

def dotted : Table → Bool
  | mk _ dotted _ => dotted

def fields : Table → List (String × Item)
  | mk _ _ fields => fields

def empty : Table := mk false false []

instance : Inhabited Table := ⟨empty⟩

def item? (t : Table) (key : String) : Option Item := t.fields.lookup key

def setField (key : String) (item : Item) : List (String × Item) → List (String × Item)
  | [] => [(key, item)]
  | (k, i) :: rest => if k = key then (k, item) :: rest else (k, i) :: setField key item rest

/-- Sets a field in its place, or adds it at the end. -/
def set (t : Table) (key : String) (item : Item) : Table :=
  mk t.implicit t.dotted (setField key item t.fields)

/-- Edits the table that a path of keys leads to, making implicit tables on the way. -/
def descend (viaDots : Bool) (edit : Table → Option Table) : List String → Table → Option Table
  | [], t => edit t
  | key :: path, t =>
    match t.item? key with
    | none => (descend viaDots edit path (mk true viaDots [])).map fun inner => t.set key (.table inner)
    | some (.value _) => none
    | some (.tables closed current) =>
      (descend viaDots edit path current).map fun inner => t.set key (.tables closed inner)
    | some (.table inner) =>
      if viaDots && !inner.implicit then none
      else (descend viaDots edit path inner).map fun inner => t.set key (.table inner)

/-- Adds a field under a dotted key, given as its path and its last part. -/
def define (path : List String) (key : String) (v : Value) (t : Table) : Option Table :=
  t |> descend true (fun inner =>
    if inner.dotted = path.isEmpty then none
    else match inner.item? key with
      | some _ => none
      | none => some (inner.set key (.value v))) path

/-- Opens a table for a header `[path.key]`. -/
def openTable (path : List String) (key : String) (t : Table) : Option Table :=
  t |> descend false (fun parent =>
    match parent.item? key with
    | none => some (parent.set key (.table empty))
    | some (.table inner) =>
      if inner.implicit && !inner.dotted then
        some (parent.set key (.table (mk false false inner.fields)))
      else none
    | some _ => none) path

/-- Opens a further table of an array for a header `[[path.key]]`. -/
def openElement (path : List String) (key : String) (t : Table) : Option Table :=
  t |> descend false (fun parent =>
    match parent.item? key with
    | none => some (parent.set key (.tables [] empty))
    | some (.tables closed current) => some (parent.set key (.tables (closed ++ [current]) empty))
    | some _ => none) path

mutual

/-- The value of a table, once it is complete. -/
def toValue : Table → Value
  | mk _ _ fields => .table (fieldValues fields)

def fieldValues : List (String × Item) → List (String × Value)
  | [] => []
  | (key, item) :: rest => (key, itemValue item) :: fieldValues rest

def itemValue : Item → Value
  | .value v => v
  | .table t => toValue t
  | .tables closed current => .array (tableValues closed ++ [toValue current])

def tableValues : List Table → List Value
  | [] => []
  | t :: ts => toValue t :: tableValues ts

end

end Table

end Pedalboard.Toml
