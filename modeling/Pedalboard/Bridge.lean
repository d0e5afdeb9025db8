import Pedalboard.Wire.Codec

/-!
# The bridge to the engine

A bridge watches the states of an editor and passes on the canonical text of each graph that
differs from the one last passed on, under a revision that counts up by one. States that differ
only in order, selection or error have one text, so they are passed on once. A state that has no
valid payload is passed over. Only the last text is remembered. Revisions are natural numbers: there
is no greatest one after which counting would start again.
-/

namespace Pedalboard

structure Bridge where
  revision : Nat := 0
  lastText : Option String := none
deriving DecidableEq, Inhabited

/-- What a bridge passes on. -/
structure Emission where
  text : String
  revision : Nat
deriving DecidableEq

namespace Bridge

/-- Looks at a state and passes its text on if that has changed. -/
def sync (b : Bridge) (s : State) : Bridge × Option Emission :=
  match Payload.serializeState s with
  | .error _ => (b, none)
  | .ok text =>
    if b.lastText = some text then (b, none)
    else
      let revision := b.revision + 1
      ({ revision, lastText := some text }, some { text, revision })

/-- Forgets the last text, so that the next one is passed on whatever it is. -/
def invalidate (b : Bridge) : Bridge := { b with lastText := none }

end Bridge

end Pedalboard
