import Pedalboard.Graph.Error

/-!
# Why a document is refused

**Shape** errors say that a text is no payload at all; the others that a payload breaks a rule.
Every error has a stable code and a message.
-/

namespace Pedalboard

/-- The greatest number of nodes in a payload. -/
def maxPayloadNodes : Nat := 16

/-- The greatest number of edges in a payload. -/
def maxPayloadEdges : Nat := 64

/-- What a field of a node should have held. -/
inductive Expected
  | boolean
  | finiteNumber
  | object
deriving DecidableEq, Repr

def Expected.text : Expected → String
  | boolean => "a boolean"
  | finiteNumber => "a finite number"
  | object => "an object"

inductive ShapeError
  /-- The text is no JSON document. -/
  | notJson
  | payloadNotObject
  | listMissing (key : String)
  /-- An element of a list, a node or an edge, is no object. -/
  | elementNotObject (element : String)
  | notString (element key : String)
  | nodeField (node key : String) (expected : Expected)
deriving DecidableEq, Repr

def ShapeError.message : ShapeError → String
  | notJson => "not a JSON text"
  | payloadNotObject => "payload is not an object"
  | listMissing key => "`" ++ key ++ "` is not an array"
  | elementNotObject element => element ++ " is not an object"
  | notString element key => element ++ ": `" ++ key ++ "` is not a string"
  | nodeField node key expected =>
    "node '" ++ node ++ "': `" ++ key ++ "` is not " ++ expected.text

inductive WireError
  | shape (e : ShapeError)
  | unsupportedVersion (found : String)
  | nodeLimitReached (count : Nat)
  | edgeLimitReached (count : Nat)
  | invalidKind (node kind : String)
  | invalidParam (node param : String)
  | endpointMissing (source target : String)
  /-- A payload that keeps every rule of the wire and is still no graph. -/
  | invalidGraph (e : GraphError)
deriving DecidableEq, Repr

namespace WireError

def code : WireError → String
  | shape _ => "ERR_INVALID_PAYLOAD_SHAPE"
  | unsupportedVersion _ => "ERR_UNSUPPORTED_SCHEMA_VERSION"
  | nodeLimitReached _ => "ERR_NODE_LIMIT_REACHED"
  | edgeLimitReached _ => "ERR_EDGE_LIMIT_REACHED"
  | invalidKind .. => "ERR_INVALID_NODE_KIND"
  | invalidParam .. => "ERR_INVALID_NODE_PARAM"
  | endpointMissing .. => "ERR_EDGE_NODE_NOT_FOUND"
  | invalidGraph e => e.code

def message : WireError → String
  | shape e => "invalid payload shape: " ++ e.message
  | unsupportedVersion found => "unsupported schema version: " ++ found
  | nodeLimitReached count =>
    "node count " ++ toString count ++ " outside 1..=" ++ toString maxPayloadNodes
  | edgeLimitReached count =>
    "edge count " ++ toString count ++ " exceeds " ++ toString maxPayloadEdges
  | invalidKind node kind => "invalid node kind '" ++ kind ++ "' on node '" ++ node ++ "'"
  | invalidParam node param => "invalid value for parameter '" ++ param ++ "' on node '" ++ node ++ "'"
  | endpointMissing source target =>
    "edge " ++ source ++ " -> " ++ target ++ " references a missing node"
  | invalidGraph e => "payload violates graph invariants: " ++ e.message

end WireError

end Pedalboard
