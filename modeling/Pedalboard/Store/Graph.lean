import Pedalboard.Store.Basic
import Pedalboard.Wire.Codec

/-!
# The stored graph

One payload is kept under a key of its own. Saving writes it as it is, without looking whether it
is valid; loading answers only a valid one.
-/

namespace Pedalboard.Payload

/-- The key of the stored payload. -/
def storeKey : String := "fxgraph:graph:v1"

variable {m : Type → Type} [Monad m]

/-- The stored payload; `none` if there is none that can be read. -/
def load (store : Store m) : m (Option Payload) := do
  match ← (store.get storeKey).run with
  | .ok (some text) => return (deserialize text).toOption
  | _ => return none

def save (store : Store m) (p : Payload) : ExceptT StoreError m Unit := store.set storeKey p.serialize

end Pedalboard.Payload
