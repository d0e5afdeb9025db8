import Mathlib
import Pedalboard.Proofs.Store.Graph
import Pedalboard.Proofs.Wire.Loading
import Pedalboard.Proofs.Wire.Saving

/-!
# Sessions that are saved and restored

**Two layers of text.** The text of a graph stands as a string in the text of a session. The outer
one is read back whatever the inner one holds (`Session.parse_text`), and the inner one is read back
because a state that occurs has a valid payload.

**A store in memory** (`Session.saved`, `Session.loaded`). A session that is captured is stored under
the key of sessions and under no other, and one that is refused stores nothing (`saved_of_ok`,
`saved_of_error`).

**What can be restored** (`Session.sound_of_loaded`). Whatever text is stored, a session that
comes of it holds a graph, since the graph has passed every test.

**Theorem (`session_law`).** So a session comes back as it was saved, its nodes and edges in canonical
order, or was refused for too many edges; and no stored text brings in anything but a graph.
-/

namespace Pedalboard

namespace Session

open Json

variable {s : State} {memory : Memory} {name text : String} {limit : Nat} {r : RestoredSession}

/-! ## The text of a session -/

/-- The name that is restored for a stored name. -/
def shownName (name : String) : String := if onlyWhiteSpace name then defaultPresetName else name

theorem shownName_not_blank (name : String) : onlyWhiteSpace (shownName name) = false := by
  unfold shownName
  by_cases h : onlyWhiteSpace name
  · simp only [h, if_true]
    decide
  · simp [h]

/-- **A session is read back** from its text; a blank name is read as that of the default preset. -/
theorem parse_text (session : Session) :
    parse session.toJson.compact =
      .ok { graph := session.graph, presetName := shownName session.presetName } := by
  let fields : List (String × Json) := [("version", .natural version),
    ("graphPayload", .string session.graph), ("lastPresetName", .string session.presetName)]
  have hlookup : ∀ key, field? key (Keyed.ofList fields).entries = fields.lookup key :=
    Keyed.lookup_ofList (by simp [fields])
  have hread : Reads maxNesting (compactText session.toJson) (.object (Keyed.ofList fields).entries) := by
    exact reads_compact_object (.cons ⟨rfl, reads_natural (by decide) 126⟩ <|
      .cons ⟨rfl, reads_string _ _⟩ <| .cons ⟨rfl, reads_string _ _⟩ .nil)
  rw [parse, parse?_compact hread]
  simp only [hlookup]
  simp [fields, lookup_cons_ite, natural, natural?, string?, shownName]

/-- What is read from a text has a name that is not blank. -/
theorem not_blank_of_parse {session : Session} (h : parse text = .ok session) :
    onlyWhiteSpace session.presetName = false := by
  unfold parse at h
  split at h
  · cases h
  · split at h
    · cases h
    · split at h
      · cases h
      · cases h
        exact shownName_not_blank _
  · cases h

/-! ## Capturing and hydrating -/

theorem capture_of_ok (h : Payload.serializeState s = .ok text) (name : String) :
    capture s name = .ok { graph := text, presetName := name } := by
  rw [capture, h]
  rfl

theorem capture_of_error {e : WireError} (h : Payload.serializeState s = .error e) (name : String) :
    capture s name = .error (.contract e) := by
  rw [capture, h]
  rfl

/-- **What is restored from a session** is the state of its graph, under its name. -/
theorem hydrate_eq_ok {session : Session} :
    session.hydrate limit = .ok r ↔ ∃ p, Payload.deserialize session.graph = .ok p ∧
      p.hydrate limit = .ok r.state ∧ r.presetName = session.presetName := by
  obtain ⟨state, presetName⟩ := r
  unfold hydrate
  cases Payload.deserialize session.graph with
  | error e => simp [Except.mapError, bind, Except.bind]
  | ok p =>
    cases hstate : p.hydrate limit with
    | error e => simp [Except.mapError, bind, Except.bind, hstate]
    | ok t => simp [Except.mapError, bind, Except.bind, pure, Except.pure, hstate, eq_comm]

/-! ## A session in memory -/

/-- The result of saving a session, and the memory after it. -/
def saved (memory : Memory) (s : State) (name : String) : Except StoreError Unit × Memory :=
  (save Store.memory s name).run.run memory

/-- The session that is restored from a memory. -/
def loaded (memory : Memory) (limit : Nat) : Option RestoredSession :=
  ((load Store.memory limit).run memory).1

theorem run_load (memory : Memory) (limit : Nat) :
    (load Store.memory limit).run memory =
      ((memory.get? storeKey).bind fun text => (parse text >>= (·.hydrate limit)).toOption, memory) := by
  rw [load, StateT.run_bind, Store.run_get]
  cases memory.get? storeKey <;> rfl

theorem loaded_eq_some : loaded memory limit = some r ↔ ∃ text session,
    memory.get? storeKey = some text ∧ parse text = .ok session ∧ session.hydrate limit = .ok r := by
  rw [loaded, run_load]
  simp only [Option.bind_eq_some_iff]
  refine exists_congr fun text => ?_
  cases parse text with
  | error e => simp [bind, Except.bind, Except.toOption]
  | ok session =>
    cases hsession : session.hydrate limit <;>
      simp [bind, Except.bind, Except.toOption, hsession]

theorem saved_of_ok (h : Payload.serializeState s = .ok text) (memory : Memory) (name : String) :
    saved memory s name =
      (.ok (), memory.insert storeKey (toJson { graph := text, presetName := name }).compact) := by
  unfold saved save
  rw [capture_of_ok h]
  rfl

/-- A session that is refused stores nothing. -/
theorem saved_of_error {e : WireError} (h : Payload.serializeState s = .error e) (memory : Memory)
    (name : String) : saved memory s name = (.error (.contract e), memory) := by
  unfold saved save
  rw [capture_of_error h]
  rfl

/-- **What is saved is restored** as the state of the text that was saved. -/
theorem loaded_saved {p : Payload} {t : State} (htext : Payload.serializeState s = .ok text)
    (hp : Payload.deserialize text = .ok p) (ht : p.hydrate limit = .ok t) (memory : Memory)
    (name : String) :
    loaded (saved memory s name).2 limit = some { state := t, presetName := shownName name } := by
  have hstored : (saved memory s name).2.get? storeKey =
      some (toJson { graph := text, presetName := name }).compact := by
    rw [saved_of_ok htext, Keyed.get?_insert, if_pos rfl]
  exact loaded_eq_some.2 ⟨_, _, hstored, parse_text _, hydrate_eq_ok.2 ⟨p, hp, ht, rfl⟩⟩

/-! ## Restoring whatever is stored -/

/-- **Only graphs are restored**, under names that are not blank. -/
theorem sound_of_loaded (h : loaded memory limit = some r) :
    r.state.WellFormed ∧ r.state.lastError = none ∧ onlyWhiteSpace r.presetName = false := by
  obtain ⟨text, session, -, hparse, hhydrate⟩ := loaded_eq_some.1 h
  obtain ⟨p, -, hstate, hname⟩ := hydrate_eq_ok.1 hhydrate
  obtain ⟨-, hparts⟩ := State.hydrate_eq_ok hstate
  refine ⟨State.wellFormed_ofParts hparts, ?_, ?_⟩
  · rw [(State.ofParts_eq_ok.1 hparts).2]
  · rw [hname]
    exact not_blank_of_parse hparse

/-- A restored graph without an error is the present, and there is no step to undo it. -/
theorem apply_command (h : History) (hr : r.state.lastError = none) :
    h.apply r.command = { h with present := r.state, future := [] } := by
  show h.replace r.state false = _
  simp [History.replace, State.withoutError_eq_self hr]

/-! ## Sessions come back -/

/-- **A session is saved and restored, or refused.** Saving a state that occurs succeeds if it has at
most 64 edges, changes nothing else that is stored, and under any limit restores the state of the
text of the state: the same nodes by id and the same edges by source and target, under the name that
was given, or that of the default preset if this is blank. With more edges it is refused and stores
nothing. Whatever is stored, loading changes no store and restores nothing but a graph under a name
that is not blank; in a history this becomes the present and leaves the undo stack as it was. -/
theorem session_law (memory : Memory) (limit : Nat) :
    (∀ s name, State.Reaches State.Opened s → s.edges.length ≤ 64 →
      (saved memory s name).1 = .ok () ∧
      (∀ key, key ≠ storeKey → (saved memory s name).2.get? key = memory.get? key) ∧
      ∃ r text p, loaded (saved memory s name).2 limit = some r ∧
        Payload.serializeState s = .ok text ∧ Payload.deserialize text = .ok p ∧
        p.hydrate limit = .ok r.state ∧
        Payload.NodesInOrder s.nodes r.state.nodes ∧ Payload.EdgesInOrder s.edges r.state.edges ∧
        r.presetName = if onlyWhiteSpace name then "Default Preset" else name) ∧
    (∀ s name, State.Reaches State.Opened s → 64 < s.edges.length →
      saved memory s name = (.error (.contract (.edgeLimitReached s.edges.length)), memory)) ∧
    ((load Store.memory limit).run memory).2 = memory ∧
    ∀ r, loaded memory limit = some r →
      r.state.WellFormed ∧ onlyWhiteSpace r.presetName = false ∧
      ∀ h : History, (h.apply r.command).past = h.past ∧ (h.apply r.command).present = r.state := by
  refine ⟨fun s name hs hedges => ?_, fun s name hs hedges => ?_, by rw [run_load], fun r hr => ?_⟩
  · have htext := Payload.serializeState_of_reaches hs hedges
    obtain ⟨p, hp, hread⟩ := Payload.exists_payload_of_text htext
    have hwell := hs.wellFormed_of_opened
    have hload := Payload.hydrate_eq_of_normalize hwell hp limit
    refine ⟨by rw [saved_of_ok htext], fun key hkey => ?_, _, _, p,
      loaded_saved htext hread hload memory name, htext, hread, hload,
      Payload.nodesInOrder_sortNodes hwell.ids_nodup,
      Payload.edgesInOrder_loaded hwell, rfl⟩
    rw [saved_of_ok htext, Keyed.get?_insert, if_neg hkey]
  · exact saved_of_error (Payload.serializeState_of_overflow hs hedges) memory name
  · obtain ⟨hwell, herror, hname⟩ := sound_of_loaded hr
    refine ⟨hwell, hname, fun h => ?_⟩
    rw [apply_command h herror]
    exact ⟨rfl, rfl⟩

/-- Something else that is stored. -/
def otherStored : Memory := Keyed.empty.insert "presets" "[]"

/-- A board with as many edges as a payload holds is saved under a blank name and restored; with one
edge more it is refused, and the session that was stored before stays. -/
theorem session_law_dense : ∃ full fuller r,
    full.edges.length = 64 ∧ fuller.edges.length = 65 ∧
    loaded (saved otherStored full " ").2 8 = some r ∧ r.presetName = "Default Preset" ∧
    full.nodes.Perm r.state.nodes ∧
    loaded (saved (saved otherStored full " ").2 fuller "Lead").2 8 = some r ∧
    ((History.new (State.initial 8) 1).apply r.command).past = [] := by
  have hlengths : (Payload.densePayload.hydrate 16).toOption.map (fun t =>
      (t.edges.length, (t.apply (.connect "input" "a")).edges.length)) = some (64, 65) := by
    decide +kernel
  cases hload : Payload.densePayload.hydrate 16 with
  | error e =>
    rw [hload] at hlengths
    cases hlengths
  | ok full =>
    rw [hload] at hlengths
    obtain ⟨hfull, hover⟩ := Prod.mk.inj (Option.some.inj hlengths)
    have hopened : State.Reaches State.Opened full := .start (.inr ⟨Payload.densePayload, 16, hload⟩)
    obtain ⟨hsaves, -⟩ := session_law otherStored 8
    obtain ⟨-, -, r, _, _, hr, -, -, -, hnodes, -, hname⟩ := hsaves full " " hopened hfull.le
    obtain ⟨-, hrefuses, -, hrestores⟩ := session_law (saved otherStored full " ").2 8
    have hrefused := hrefuses _ "Lead" (hopened.edit (.connect "input" "a")) (by rw [hover]; decide)
    refine ⟨full, _, r, hfull, hover, hr, hname, hnodes.perm.symm, by rw [hrefused]; exact hr, ?_⟩
    exact ((hrestores r hr).2.2 _).1

end Session

end Pedalboard
