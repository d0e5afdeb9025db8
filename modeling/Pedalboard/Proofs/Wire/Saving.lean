import Mathlib
import Pedalboard.Preset.Basic
import Pedalboard.Proofs.Bridge.Runs
import Pedalboard.Session

/-!
# What can block saving

A state is handed to an engine, kept in a session and saved as a preset by way of its canonical
text. **Theorem (`blocked_only_by_overflow`).** For a state that occurs, nothing but a number of
edges beyond what a payload holds stands in the way, and that number is what the error says. Edits
that were refused, those with coordinates or values that are not finite among them, leave no trace
that could be in the way later.
-/

namespace Pedalboard

variable {s : State}

theorem Payload.serializeState_eq_error {e : WireError} (h : State.Reaches State.Opened s)
    (he : serializeState s = .error e) :
    maxPayloadEdges < s.edges.length ∧ e = .edgeLimitReached s.edges.length := by
  rcases le_or_gt s.edges.length maxPayloadEdges with hle | hlt
  · rw [serializeState_of_reaches h hle] at he
    cases he
  · rw [serializeState_of_overflow h hlt] at he
    exact ⟨hlt, (Except.error.inj he).symm⟩

/-! ## Records of a state -/

theorem mapError_eq_error {α ε δ : Type} {r : Except ε α} {f : ε → δ} {d : δ} :
    r.mapError f = .error d ↔ ∃ w, r = .error w ∧ f w = d := by
  cases r <;> simp [Except.mapError]

theorem bind_eq_error {α β ε : Type} {r : Except ε α} {f : α → Except ε β} {e : ε} :
    r >>= f = .error e ↔ r = .error e ∨ ∃ a, r = .ok a ∧ f a = .error e := by
  cases r <;> simp [bind, Except.bind]

/-- A session is refused only if its state has no text. -/
theorem Session.capture_eq_error {name : String} {e : StoreError} (he : capture s name = .error e) :
    ∃ w, Payload.serializeState s = .error w ∧ .contract w = e := by
  rw [capture, bind_eq_error, mapError_eq_error] at he
  obtain he | ⟨_, _, he⟩ := he
  · exact he
  · cases he

/-- A preset is refused only if its state has no text. -/
theorem Preset.upsert_eq_error {presets : List Preset} {name : String} {now : Nat} {e : StoreError}
    (he : upsert presets name s now = .error e) :
    ∃ w, Payload.serializeState s = .error w ∧ .contract w = e := by
  simp only [upsert] at he
  split at he
  · cases he
  · rw [bind_eq_error, mapError_eq_error] at he
    obtain he | ⟨_, _, he⟩ := he
    · exact he
    · split at he <;> cases he

namespace Payload

/-! ## The only obstacle -/

/-- **Too many edges are all that can block a state.** A state that occurs has a payload exactly
when it has at most 64 edges; its bridge is then up to date after a look at it, and neither a
session nor a preset is refused for any other cause. -/
theorem blocked_only_by_overflow (h : State.Reaches State.Opened s) :
    ((∃ p, normalize s = .ok p) ↔ s.edges.length ≤ 64) ∧
    (∀ e, normalize s = .error e → e = .edgeLimitReached s.edges.length) ∧
    (s.edges.length ≤ 64 →
      ∃ text, serializeState s = .ok text ∧ ∀ b : Bridge, (b.sync s).1.lastText = some text) ∧
    (∀ name e, Session.capture s name = .error e →
      64 < s.edges.length ∧ e = .contract (.edgeLimitReached s.edges.length)) ∧
    (∀ presets name now e, Preset.upsert presets name s now = .error e →
      64 < s.edges.length ∧ e = .contract (.edgeLimitReached s.edges.length)) := by
  refine ⟨⟨?_, fun hle => ⟨_, normalize_of_reaches h hle⟩⟩, fun e he => ?_, fun hle => ?_,
    fun name e he => ?_, fun presets name now e he => ?_⟩
  · rintro ⟨p, hp⟩
    by_contra hlt
    rw [normalize_of_overflow h (not_le.1 hlt)] at hp
    cases hp
  · have htext : serializeState s = .error e := by
      rw [serializeState, he]
      rfl
    exact (serializeState_eq_error h htext).2
  · have htext := serializeState_of_reaches h hle
    exact ⟨_, htext, fun b => Bridge.lastText_sync htext⟩
  · obtain ⟨w, hw, rfl⟩ := Session.capture_eq_error he
    obtain ⟨hlt, rfl⟩ := serializeState_eq_error h hw
    exact ⟨hlt, rfl⟩
  · obtain ⟨w, hw, rfl⟩ := Preset.upsert_eq_error he
    obtain ⟨hlt, rfl⟩ := serializeState_eq_error h hw
    exact ⟨hlt, rfl⟩

/-! ## A board at the limit -/

/-- The edges from each id to all that follow it. -/
def joined : List String → List Edge
  | [] => []
  | id :: rest => rest.map (Edge.mk id) ++ joined rest

def effectIds : List String := ["a", "b", "c", "d", "e", "f", "g", "h", "i", "j", "k", "l"]

/-- Twelve effects with 64 edges between them. -/
def densePayload : Payload where
  nodes := { id := inputId, kind := .input, x := 0, y := 0 } ::
    { id := outputId, kind := .output, x := 0, y := 0 } ::
    effectIds.map fun id => { id, kind := .eq, x := 0, y := 0 }
  edges := (joined effectIds).take 64

/-- Edits with numbers that are not finite. -/
def nonFiniteEdits : List Action :=
  [.moveNode "a" .nan 0, .addNode .delay 0 (.infinity true) none, .setParam "b" "mix" .nan]

/-- The dense board after edits that are refused, and after one more edge. -/
theorem blocked_only_by_overflow_dense :
    ∃ loaded, densePayload.hydrate 16 = .ok loaded ∧
      (∃ p, normalize (loaded.applyAll nonFiniteEdits) = .ok p) ∧
      ¬∃ p, normalize (loaded.applyAll (nonFiniteEdits ++ [.connect "input" "a"])) = .ok p := by
  -- Only the numbers of edges are computed; that the one board has a payload and the other has none
  -- is what the theorem says about such numbers.
  have hlengths : (densePayload.hydrate 16).toOption.map (fun t =>
      ((t.applyAll nonFiniteEdits).edges.length,
        (t.applyAll (nonFiniteEdits ++ [.connect "input" "a"])).edges.length)) = some (64, 65) := by
    decide +kernel
  cases hload : densePayload.hydrate 16 with
  | error e =>
    rw [hload] at hlengths
    cases hlengths
  | ok loaded =>
    rw [hload] at hlengths
    obtain ⟨hfits, hover⟩ := Prod.mk.inj (Option.some.inj hlengths)
    have hopened : State.Reaches State.Opened loaded := .start (.inr ⟨densePayload, 16, hload⟩)
    refine ⟨loaded, rfl, (blocked_only_by_overflow (hopened.applyAll _)).1.2 hfits.le, ?_⟩
    rw [(blocked_only_by_overflow (hopened.applyAll _)).1, hover]
    decide

end Payload

end Pedalboard
