import Mathlib
import Pedalboard.Proofs.Wire.Reload
import Pedalboard.Proofs.Wire.RoundTrip
import Pedalboard.Store.Graph

/-!
# The graph in a store in memory

**Saving and loading** (`Payload.saved`, `Payload.loaded`). What comes of one call on the store in
memory.

**The promise** (`Payload.SavesSafely`). A payload that is not valid is refused and leaves the store
alone; one that is saved can be loaded.

**Theorem (`save_law`).** Saving writes every payload and refuses none, so it keeps the promise for
the valid ones and for no other. A payload that is not valid takes the place of the stored graph,
and then nothing is loaded.
-/

namespace Pedalboard

theorem Store.run_get (memory : Memory) (key : String) :
    (Store.memory.get key).run.run memory = (.ok (memory.get? key), memory) := rfl

theorem Store.run_set (memory : Memory) (key value : String) :
    (Store.memory.set key value).run.run memory = (.ok (), memory.insert key value) := rfl

namespace Payload

/-- The result of saving a payload, and the memory after it. -/
def saved (memory : Memory) (p : Payload) : Except StoreError Unit × Memory :=
  (save Store.memory p).run.run memory

/-- The payload that is loaded from a memory. -/
def loaded (memory : Memory) : Option Payload := ((load Store.memory).run memory).1

/-- What saving a payload promises. -/
structure SavesSafely (memory : Memory) (p : Payload) : Prop where
  refused : ∀ e, p.validate = .error e →
    (∃ d, (saved memory p).1 = .error d) ∧ (saved memory p).2 = memory
  kept : (saved memory p).1 = .ok () → ∃ q, loaded (saved memory p).2 = some q ∧
    q.nodes.map (fun n => (n.id, n.kind)) = p.sort.nodes.map (fun n => (n.id, n.kind)) ∧
    q.edges = p.sort.edges

variable {memory : Memory} {p q : Payload}

theorem loaded_eq (memory : Memory) :
    loaded memory = (memory.get? storeKey).bind fun text => (deserialize text).toOption := by
  rw [loaded, load, StateT.run_bind, Store.run_get]
  cases memory.get? storeKey <;> rfl

theorem saved_eq (memory : Memory) (p : Payload) :
    saved memory p = (.ok (), memory.insert storeKey p.serialize) :=
  Store.run_set memory storeKey p.serialize

/-- **What is saved is loaded if it is valid**, and nothing is loaded if it is not. -/
theorem loaded_saved (hversion : p.version < naturalBound) :
    loaded (saved memory p).2 = some q ↔ p.problem? = none ∧ q = p.sort := by
  rw [loaded_eq, saved_eq, Keyed.get?_insert, if_pos rfl, Option.bind_some,
    ← okIff_deserialize hversion q]
  cases deserialize p.serialize <;> simp [Except.toOption]

/-- **Saving refuses nothing.** Whatever is in a store in memory and whatever payload is saved, saving
succeeds and changes the stored graph only; what is loaded then is the payload in canonical order if
that is valid, and nothing if it is not. So saving keeps its promise exactly for valid payloads. -/
theorem save_law (memory : Memory) {p : Payload} (hversion : p.version < 2 ^ 32) :
    (saved memory p).1 = .ok () ∧
    (∀ key, key ≠ storeKey → (saved memory p).2.get? key = memory.get? key) ∧
    (∀ q, loaded (saved memory p).2 = some q ↔ p.validate = .ok () ∧ q = p.sort) ∧
    (SavesSafely memory p ↔ p.validate = .ok ()) := by
  have hloaded : ∀ q, loaded (saved memory p).2 = some q ↔ p.validate = .ok () ∧ q = p.sort := by
    intro q
    rw [validate_eq_ok]
    exact loaded_saved (hversion.trans (by decide))
  refine ⟨rfl, fun key hkey => ?_, hloaded, fun hsafe => ?_, fun hvalid => ?_⟩
  · rw [saved_eq, Keyed.get?_insert, if_neg hkey]
  · -- A payload that is not valid would have to be refused.
    cases hvalid : p.validate with
    | ok => rfl
    | error e =>
      obtain ⟨⟨d, hd⟩, -⟩ := hsafe.refused e hvalid
      cases hd
  · refine ⟨fun e he => ?_, fun _ => ⟨p.sort, (hloaded _).2 ⟨hvalid, rfl⟩, rfl, rfl⟩⟩
    rw [hvalid] at he
    cases he

/-- A valid document that is not in canonical order keeps the promise. -/
theorem save_law_unsortedPayload :
    unsortedPayload.version < 2 ^ 32 ∧ SavesSafely .empty unsortedPayload := by
  have hversion : unsortedPayload.version < 2 ^ 32 := by decide
  obtain ⟨-, -, -, hsafe⟩ := save_law .empty hversion
  exact ⟨hversion, hsafe.2 (by decide)⟩

/-- The payload of a new board. -/
def boardPayload : Payload := { nodes := (State.initial 8).nodes, edges := (State.initial 8).edges }

/-- A payload without nodes. -/
def emptyPayload : Payload := { nodes := [], edges := [] }

/-- **A stored graph is lost** to a payload that is not valid. -/
theorem save_emptyPayload :
    let memory := (saved .empty boardPayload).2
    (∃ q, loaded memory = some q) ∧ emptyPayload.validate = .error (.nodeLimitReached 0) ∧
    (saved memory emptyPayload).1 = .ok () ∧ loaded (saved memory emptyPayload).2 = none ∧
    ¬SavesSafely memory emptyPayload := by
  intro memory
  refine ⟨⟨_, (loaded_saved (by decide)).2 ⟨by decide, rfl⟩⟩, by decide, rfl, ?_, fun hsafe => ?_⟩
  · refine Option.eq_none_iff_forall_ne_some.2 fun q hq => ?_
    obtain ⟨hvalid, -⟩ := (loaded_saved (by decide)).1 hq
    exact absurd hvalid (by decide)
  · obtain ⟨⟨d, hd⟩, -⟩ := hsafe.refused (.nodeLimitReached 0) (by decide)
    cases hd

end Payload

end Pedalboard
