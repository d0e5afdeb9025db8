import Mathlib
import Pedalboard.Proofs.Graph.Reordering
import Pedalboard.Proofs.Wire.Loading

/-!
# Loading a saved graph

**Theorem (`hydrate_of_normalize`).** The payload of a well-formed state loads, under the limit of
that state, into a state that is alike: the same nodes and edges in canonical order.

**Theorem (`reloaded_agrees`).** The loaded state takes further edits as the saved one would: the
same edits are refused for the same causes, and the payloads are the same all along.

Alike states stay alike (`State.Alike.applyAll`) and have the same payload
(`Payload.normalize_eq_of_perm`).
-/

namespace Pedalboard

variable {s t : State} {p : Payload}

namespace Payload

/-- **What a state was saved as loads**, into a state with the same nodes and edges. -/
theorem hydrate_of_normalize (hs : s.WellFormed) (hp : normalize s = .ok p) :
    ∃ t, p.hydrate s.nodeLimit = .ok t ∧ s.Alike t := by
  have hlabelled : s.labelled.Perm ((sortEdges s.edges).map Edge.labelled) := by
    rw [hs.labelled_eq]
    exact (sortEdges_perm _).symm.map _
  refine ⟨_, hydrate_eq_of_normalize hs hp s.nodeLimit, (sortNodes_perm _).symm, hlabelled, ?_⟩
  rw [hs.clamp_eq, max_eq_left hs.fits]

theorem normalize_eq_of_alike (hs : s.WellFormed) (h : s.Alike t) : normalize s = normalize t :=
  normalize_eq_of_perm hs.ids_nodup h.nodes h.edges

/-- **A loaded session goes on as the saved one would.** After each of any edits with explicit
ids, both show the same error and have the same payload. -/
theorem reloaded_agrees (h : State.Reaches State.Opened s) (hp : normalize s = .ok p) :
    ∃ t, p.hydrate s.nodeLimit = .ok t ∧ normalize t = .ok p ∧
      ∀ actions : List Action, (∀ a ∈ actions, a.Explicit) → ∀ n < actions.length,
        (s.applyAll (actions.take (n + 1))).lastError =
          (t.applyAll (actions.take (n + 1))).lastError ∧
        normalize (s.applyAll (actions.take (n + 1))) =
          normalize (t.applyAll (actions.take (n + 1))) := by
  have hs : s.WellFormed := h.wellFormed_of_opened
  obtain ⟨t, hload, hst⟩ := hydrate_of_normalize hs hp
  refine ⟨t, hload, normalize_eq_of_alike hs hst ▸ hp, fun actions hexplicit n hn => ?_⟩
  have htake : ∀ m, ∀ a ∈ actions.take m, a.Explicit := fun m a ha =>
    hexplicit a (List.mem_of_mem_take ha)
  have hbefore := hst.applyAll hs (htake n)
  have hafter := hst.applyAll hs (htake (n + 1))
  refine ⟨?_, normalize_eq_of_alike (hs.applyAll _) hafter⟩
  rw [List.take_add_one, List.getElem?_eq_getElem hn]
  simp only [State.applyAll, Option.toList_some, List.foldl_append, List.foldl_cons, List.foldl_nil]
  exact (hbefore.apply (hs.applyAll _).ids_nodup (hexplicit _ (List.getElem_mem hn))).2

/-- A node that is added after the anchors and stands before them in canonical order. -/
def delayAdded : State := (State.initial 3).applyAll [.addNode .delay 0 0 none]

def delaySaved : Payload where
  nodes := [{ id := "fx-1", kind := .delay, x := 0, y := 0 },
    { id := inputId, kind := .input, x := 80, y := 120 },
    { id := outputId, kind := .output, x := 460, y := 120 }]
  edges := [⟨inputId, outputId⟩]

theorem normalize_delayAdded : normalize delayAdded = .ok delaySaved := by
  have hnodes : sortNodes delayAdded.nodes = delaySaved.nodes :=
    sortNodes_eq (by decide) (by decide) (by decide)
  have hedges : sortEdges delayAdded.edges = delaySaved.edges := List.mergeSort_singleton _
  exact normalize_eq_ok.2 ⟨by rw [hnodes, hedges]; rfl, by decide⟩

theorem reloaded_agrees_delayAdded :
    normalize delayAdded = .ok delaySaved ∧
    ∃ t, delaySaved.hydrate delayAdded.nodeLimit = .ok t ∧
      (t.applyAll [.connect "fx-1" "input", .connect "output" "fx-1"]).lastError =
        some .cycleDetected := by
  have hreaches : State.Reaches State.Opened delayAdded := State.reaches_applyAll_initial 3 _
  obtain ⟨t, hload, -, hagree⟩ := reloaded_agrees hreaches normalize_delayAdded
  obtain ⟨herror, -⟩ :=
    hagree [.connect "fx-1" "input", .connect "output" "fx-1"] (by decide) 1 (by decide)
  exact ⟨normalize_delayAdded, t, hload, herror.symm.trans (by decide)⟩

end Payload

end Pedalboard
