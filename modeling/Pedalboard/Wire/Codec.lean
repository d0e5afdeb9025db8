import Pedalboard.Json.Parser
import Pedalboard.Json.Printer
import Pedalboard.Wire.Payload

/-!
# Payloads as text

**Writing** (`Payload.serialize`). Compact JSON with the fields in a fixed order.

**Reading** (`Payload.deserialize`). Nothing about a text is trusted: every field has its type
checked, and nothing is converted but numbers, which become the nearest single of the double that
was read and must stay finite. Fields that are not known are ignored. What was read is put in
canonical order and has to be valid.
-/

namespace Pedalboard.Payload

/-! ## Writing -/

def nodeJson (n : Node) : Json :=
  .object [("id", .string n.id), ("kind", .string n.kind.name), ("x", .single n.x),
    ("y", .single n.y), ("bypass", .bool n.bypass),
    ("params", .object (n.params.entries.map fun (k, v) => (k, .single v)))]

def edgeJson (e : Edge) : Json :=
  .object [("fromNodeId", .string e.source), ("toNodeId", .string e.target)]

def toJson (p : Payload) : Json :=
  .object [("schemaVersion", .natural p.version), ("nodes", .array (p.nodes.map nodeJson)),
    ("edges", .array (p.edges.map edgeJson))]

def serialize (p : Payload) : String := p.toJson.compact

/-- The canonical text of a state. -/
def serializeState (s : State) : Except WireError String := (normalize s).map serialize

/-! ## Reading -/

abbrev Fields := List (String × Json)

def shapeError {α : Type} (e : ShapeError) : Except WireError α := .error (.shape e)

/-- A value that has to be there, or the shape error that says what is wrong. -/
def require {α : Type} (e : ShapeError) : Option α → Except WireError α
  | some v => .ok v
  | none => shapeError e

def stringField (fields : Fields) (key element : String) : Except WireError String :=
  require (.notString element key) ((Json.field? key fields).bind Json.string?)

/-- The kind of a node; a kind of the wrong type is reported by its JSON text. -/
def kindField (fields : Fields) (id : String) : Except WireError Kind :=
  match Json.field? "kind" fields with
  | some (.string name) =>
    match Kind.ofName? name with
    | some kind => .ok kind
    | none => .error (.invalidKind id name)
  | some v => .error (.invalidKind id v.compact)
  | none => .error (.invalidKind id "")

def coordinate (fields : Fields) (key id : String) : Except WireError Single :=
  require (.nodeField id key .finiteNumber) ((Json.field? key fields).bind Json.finiteSingle?)

/-- The parameters of a node, in the order of their keys. -/
def paramsOf (id : String) (fields : Fields) : Except WireError (Keyed Single) :=
  fields.foldlM (fun params (key, v) =>
    match v.finiteSingle? with
    | some x => .ok (params.insert key x)
    | none => .error (.invalidParam id key)) .empty

def nodeOf (v : Json) : Except WireError Node := do
  let fields ← require (.elementNotObject "node") v.object?
  let id ← stringField fields "id" "node"
  let kind ← kindField fields id
  let bypass ← require (.nodeField id "bypass" .boolean) ((Json.field? "bypass" fields).bind Json.bool?)
  let x ← coordinate fields "x" id
  let y ← coordinate fields "y" id
  let raw ← require (.nodeField id "params" .object)
    ((Json.field? "params" fields).bind Json.object?)
  let params ← paramsOf id raw
  return { id, kind, x, y, bypass, params }

def edgeOf (v : Json) : Except WireError Edge := do
  let fields ← require (.elementNotObject "edge") v.object?
  let source ← stringField fields "fromNodeId" "edge"
  let target ← stringField fields "toNodeId" "edge"
  return ⟨source, target⟩

/-- Only the integer `1` is a supported version. -/
def checkVersion (fields : Fields) : Except WireError Unit :=
  match Json.field? "schemaVersion" fields with
  | some v =>
    if v.natural? = some schemaVersion then .ok () else .error (.unsupportedVersion v.compact)
  | none => .error (.unsupportedVersion "missing")

/-- The valid payload that a JSON document describes, in canonical order. -/
def ofJson (v : Json) : Except WireError Payload := do
  let fields ← require .payloadNotObject v.object?
  let nodes ← require (.listMissing "nodes") ((Json.field? "nodes" fields).bind Json.array?)
  let edges ← require (.listMissing "edges") ((Json.field? "edges" fields).bind Json.array?)
  checkVersion fields
  let nodes ← nodes.mapM nodeOf
  let edges ← edges.mapM edgeOf
  let p := sort { nodes, edges }
  p.validate
  return p

def deserialize (text : String) : Except WireError Payload :=
  require .notJson (Json.parse? text) >>= ofJson

def deserializeBytes (bytes : ByteArray) : Except WireError Payload :=
  require .notJson (Json.parseBytes? bytes) >>= ofJson

end Pedalboard.Payload
