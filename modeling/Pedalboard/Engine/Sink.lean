import Pedalboard.Bridge
import Pedalboard.Engine.Bank
import Pedalboard.Engine.Message

/-!
# Sinks

A sink stands behind a bridge and hands what is emitted to an engine. A text that is no valid
payload is dropped, and the engine keeps what it has.

**Bank sink** (`BankSink`). Writes the whole bank, one parameter after the other, to a host of any
type, and counts what it applied and what it dropped.

**Message sink** (`messageOf?`). Posts one message.
-/

namespace Pedalboard

/-- A host of numbered parameters with counts of the payloads given to it. -/
structure BankSink (Host : Type) where
  host : Host
  applied : Nat := 0
  rejected : Nat := 0

namespace BankSink

variable {Host : Type}

/-- The writes for a payload text. -/
def writes (e : Emission) : Except WireError (List ParamWrite) :=
  (Payload.deserialize e.text).map fun p => encode (compile p) e.revision

/-- Hands an emission to the host. -/
def emit (write : Host → ParamWrite → Host) (s : BankSink Host) (e : Emission) : BankSink Host :=
  match writes e with
  | .ok ws => { s with host := ws.foldl write s.host, applied := s.applied + 1 }
  | .error _ => { s with rejected := s.rejected + 1 }

end BankSink

/-- The message posted for an emission. -/
def messageOf? (e : Emission) : Option String := (messageText e.text e.revision).toOption

end Pedalboard
