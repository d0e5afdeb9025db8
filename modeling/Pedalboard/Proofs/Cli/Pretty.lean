import Mathlib
import Pedalboard.Cli.Run
import Pedalboard.Proofs.Json.Indented
import Pedalboard.Proofs.Store.Tree
import Pedalboard.Proofs.Wire.Documents
import Pedalboard.Proofs.Wire.RoundTrip

/-!
# Documents that commands write

**Texts** (`exists_pretty`). The text of a valid payload can be indented, and the indented text is read as
the same payload. The payload stands in canonical order, and every number is the same single.

**Writing** (`writeState`). A command that writes a document first makes a state, and then writes the
text of this state. Making the state does not depend on how it is written.

**Theorem (`pretty_law`).** Whether a document is compact or indented, it is written or refused alike, and
loads as the payload of the state that the command made.
-/

namespace Pedalboard

namespace Payload

variable {p : Payload} {text : String}

/-- A text is read as before if its line is ended. -/
theorem deserialize_line (h : deserialize text = .ok p) : deserialize (text ++ "\n") = .ok p := by
  obtain ⟨v, hdocument, hp⟩ := deserialize_eq_ok_iff.1 h
  obtain ⟨before, t, after, hbefore, hafter, hspells, htext⟩ := hdocument
  refine deserialize_eq_ok_iff.2 ⟨v, ⟨before, t, after ++ ['\n'], hbefore, ?_, hspells, ?_⟩, hp⟩
  · intro c hc
    obtain hc | hc := List.mem_append.1 hc
    · exact hafter c hc
    · obtain rfl := List.mem_singleton.1 hc
      rfl
  · simp [htext]

/-- **The text of a valid payload can be indented**, and says the same then. -/
theorem exists_pretty (hvalid : p.problem? = none) :
    ∃ t, Cli.prettyText? p.serialize = some t ∧ deserialize p.serialize = .ok p.sort ∧
      deserialize t = .ok p.sort := by
  have hversion : p.version < naturalBound := by
    rw [(problem?_eq_none_iff.1 hvalid).1]
    decide
  -- `u` is read from the compact text and then indented, and `w` is read from the indented text
  obtain ⟨w, ⟨u, hread, hagain⟩, hw⟩ := carries_payload Json.carries_indented hversion
  refine ⟨u.pretty, ?_, (okIff_deserialize hversion).eq_ok hvalid, ?_⟩
  · rw [Cli.prettyText?, serialize, Json.parse?_compact hread]
    rfl
  · rw [deserialize, Json.pretty, Json.parse?_of_reads (hagain 0)]
    exact hw.eq_ok hvalid

end Payload

namespace Cli

open Payload

/-! ## Runs in a world -/

variable {α β : Type} {w w' : World} {r : Run (StateM World) α} {f : α → Run (StateM World) β}

/-- What a command ends with in a world, and the world after it. -/
def exec (r : Run (StateM World) α) (w : World) : Except String α × World := Id.run (r.run.run w)

theorem exec_bind_ok {a : α} (h : exec r w = (.ok a, w')) : exec (r >>= f) w = exec (f a) w' := by
  rw [exec, ExceptT.run_bind, StateT.run_bind]
  rw [exec] at h
  simp [h, exec]

theorem exec_bind_error {e : String} (h : exec r w = (.error e, w')) :
    exec (r >>= f) w = (.error e, w') := by
  rw [exec, ExceptT.run_bind, StateT.run_bind]
  rw [exec] at h
  simp [h]

/-! ## Places for documents -/

/-- The document that was put out: in the file, or on the last line of the output. -/
def documentAt (output : Option String) (w : World) : Option String :=
  match output with
  | none => w.printed.head?.map (· ++ "\n")
  | some file => (w.tree.read file).toOption

/-- The payload that loads from the document that was put out. -/
def loadedFrom (output : Option String) (w : World) : Option Payload :=
  (documentAt output w).bind fun text => (deserialize text).toOption

theorem run_onTree (f : StateM Tree α) (w : World) : Id.run ((World.onTree f).run w) =
    ((Id.run (f.run w.tree)).1, { w with tree := (Id.run (f.run w.tree)).2 }) := rfl

theorem run_write (file content : String) (w : World) :
    Id.run ((Files.write file content : StateM World (Except FileError Unit)).run w) =
      match w.tree.writeEntry file (.text content) with
      | .ok tree => (.ok (), { w with tree })
      | .error e => (.error e, w) := by
  change Id.run ((World.onTree (Tree.change (·.writeEntry file (.text content)))).run w) = _
  rw [run_onTree, Tree.run_change]
  cases w.tree.writeEntry file (.text content) with
  | ok tree => rfl
  | error e => rfl

theorem exec_writeText_file (file text : String) (w : World) :
    exec (writeText (some file) text) w =
      match w.tree.writeEntry file (.text (text ++ "\n")) with
      | .ok tree => (.ok (), { w with tree })
      | .error e => (.error ("failed to write '" ++ file ++ "': " ++ e.message), w) := by
  have hwrite := run_write file (text ++ "\n") w
  rw [writeText, exec]
  cases h : w.tree.writeEntry file (.text (text ++ "\n")) with
  | ok tree =>
    rw [h] at hwrite
    simp [hwrite]
  | error e =>
    rw [h] at hwrite
    simp [hwrite, fail]

theorem exec_writeText_none (text : String) (w : World) :
    exec (writeText none text) w = (.ok (), { w with printed := text :: w.printed }) := rfl

/-- **A document that was written loads.** -/
theorem loadedFrom_of_writeText {output : Option String} {text : String} {p : Payload}
    (h : exec (writeText output text) w = (.ok (), w')) (htext : deserialize text = .ok p) :
    loadedFrom output w' = some p := by
  have hline := deserialize_line htext
  cases output with
  | none =>
    rw [exec_writeText_none] at h
    cases h
    simp [loadedFrom, documentAt, hline, Except.toOption]
  | some file =>
    rw [exec_writeText_file] at h
    cases hwrite : w.tree.writeEntry file (.text (text ++ "\n")) with
    | ok tree =>
      rw [hwrite] at h
      cases h
      simp [loadedFrom, documentAt, Tree.read_of_writeEntry hwrite, hline, Except.toOption]
    | error e =>
      rw [hwrite] at h
      cases h

/-- Whether a text can be written does not depend on the text. -/
theorem result_writeText (output : Option String) (a b : String) (w : World) :
    (exec (writeText output a) w).1 = (exec (writeText output b) w).1 := by
  cases output with
  | none => rfl
  | some file =>
    rw [exec_writeText_file, exec_writeText_file, Tree.writeEntry, Tree.writeEntry]
    cases w.tree.resolve file with
    | error e => rfl
    | ok place =>
      simp only [bind, Except.bind]
      split_ifs <;> rfl

/-! ## Documents of states -/

section

variable {m : Type → Type} [Monad m] [Host m]

/-- Writes the text of a state, compact or indented. -/
def writeState (compact : Bool) (output : Option String) (s : State) : Run m Unit := do
  let text ← stateText s
  writeText output (← if compact then pure text else pretty text)

/-- The state that an edit makes. -/
def edited (settings : Settings) (input : Option String) (strict : Bool) (operations : List Operation) :
    Run m State := do
  let initial ← match input with
    | some file => do about file ((← readPayload file).hydrate settings.nodeLimit)
    | none => pure (State.initial settings.nodeLimit)
  return (← applyOperations strict 1 (.new initial settings.historyLimit) operations).present

/-- The preset that is shown, with its title. -/
def shown (settings : Settings) (dir name : String) : Run m (String × State) := do
  findPreset settings (← ExceptT.lift (Preset.load (Store.directory dir))) name

variable [LawfulMonad m]

theorem runEdit_eq (settings : Settings) (input output : Option String) (strict compact : Bool)
    (operations : List Operation) :
    (runEdit settings input output strict compact operations : Run m Unit) =
      edited settings input strict operations >>= writeState compact output := by
  cases input with
  | none => simp [runEdit, edited, writeState]
  | some file => simp [runEdit, edited, writeState]

theorem runPresets_display (settings : Settings) (dir name : String) :
    (runPresets settings dir (.display name true) : Run m Unit) =
      shown settings dir name >>= fun titled => writeState false none titled.2 := by
  simp [runPresets, shown, printPretty, writeState, writeText]

/-- **A state with a payload has documents of both kinds**, which are read as this payload. -/
theorem exists_document {s : State} {p : Payload} (h : normalize s = .ok p) (compact : Bool) :
    ∃ text, deserialize text = .ok p ∧
      ∀ output, (writeState compact output s : Run m Unit) = writeText output text := by
  have htext : serializeState s = .ok p.serialize := serializeState_eq_ok.2 ⟨p, h, rfl⟩
  cases compact with
  | true =>
    exact ⟨p.serialize, deserialize_of_normalize h, fun output => by simp [writeState, stateText, htext]⟩
  | false =>
    obtain ⟨t, hpretty, -, ht⟩ := exists_pretty (normalize_eq_ok.1 h).2
    rw [sort_of_normalize h] at ht
    exact ⟨t, ht, fun output => by simp [writeState, stateText, htext, pretty, hpretty]⟩

theorem writeState_of_error {s : State} {e : WireError} (h : normalize s = .error e) (compact : Bool)
    (output : Option String) : (writeState compact output s : Run m Unit) = fail e.message := by
  have htext : serializeState s = .error e := by
    rw [serializeState, h]
    rfl
  simp [writeState, stateText, htext, fail]

end

/-! ## What a run writes -/

/-- Two runs that begin alike end alike if the rest of them does. -/
theorem result_bind {g : α → Run (StateM World) β}
    (h : ∀ a w, (exec (f a) w).1 = (exec (g a) w).1) (w : World) :
    (exec (r >>= f) w).1 = (exec (r >>= g) w).1 := by
  cases hr : exec r w with
  | mk result w₁ =>
    cases result with
    | ok a => rw [exec_bind_ok hr, exec_bind_ok hr, h]
    | error e => rw [exec_bind_error hr, exec_bind_error hr]

theorem result_writeState (output : Option String) (s : State) (w : World) :
    (exec (writeState true output s) w).1 = (exec (writeState false output s) w).1 := by
  cases hs : normalize s with
  | error e => rw [writeState_of_error hs, writeState_of_error hs]
  | ok p =>
    obtain ⟨a, -, ha⟩ := exists_document (m := StateM World) hs true
    obtain ⟨b, -, hb⟩ := exists_document (m := StateM World) hs false
    rw [ha, hb]
    exact result_writeText output a b w

/-- **A compact document and an indented one are written alike**, or refused alike. -/
theorem result_runEdit (settings : Settings) (input output : Option String) (strict : Bool)
    (operations : List Operation) (w : World) :
    (exec (runEdit settings input output strict true operations) w).1 =
      (exec (runEdit settings input output strict false operations) w).1 := by
  rw [runEdit_eq, runEdit_eq]
  exact result_bind (result_writeState output) w

/-- **A state with a payload is written** if a text can be, and what was written loads as the payload. -/
theorem exec_writeState {s : State} {p : Payload} (hs : normalize s = .ok p) (compact : Bool)
    (output : Option String) (w : World) :
    (exec (writeState compact output s) w).1 = (exec (writeText output p.serialize) w).1 ∧
      ((exec (writeState compact output s) w).1 = .ok () →
        loadedFrom output (exec (writeState compact output s) w).2 = some p) := by
  obtain ⟨text, htext, hwrite⟩ := exists_document (m := StateM World) hs compact
  rw [hwrite]
  exact ⟨result_writeText output text p.serialize w,
    fun hok => loadedFrom_of_writeText (w := w) (Prod.ext hok rfl) htext⟩

/-- **Pretty printing keeps the meaning.** The text of a valid payload can be indented, and is read as the
same payload then. So a compact document of an edited state and an indented one are both written if a
text can be, and both load as the payload of the state; and a preset that is shown as a document loads as
the payload of its state. -/
theorem pretty_law :
    (∀ p : Payload, p.validate = .ok () → ∃ t, prettyText? p.serialize = some t ∧
      deserialize t = deserialize p.serialize ∧ deserialize t = .ok p.sort) ∧
    (∀ settings input output strict operations (w w₁ : World) s p,
      exec (edited settings input strict operations) w = (.ok s, w₁) → normalize s = .ok p → ∀ compact,
      let run := exec (runEdit settings input output strict compact operations) w
      run.1 = (exec (writeText output p.serialize) w₁).1 ∧
      (run.1 = .ok () → loadedFrom output run.2 = some p)) ∧
    ∀ settings dir name (w w₁ : World) title s p,
      exec (shown settings dir name) w = (.ok (title, s), w₁) → normalize s = .ok p →
      let run := exec (runPresets settings dir (.display name true)) w
      run.1 = .ok () ∧ loadedFrom none run.2 = some p := by
  refine ⟨fun p hvalid => ?_, fun settings input output strict operations w w₁ s p hs hp compact => ?_,
    fun settings dir name w w₁ title s p hs hp => ?_⟩
  · obtain ⟨t, hpretty, hcompact, ht⟩ := exists_pretty (validate_eq_ok.1 hvalid)
    exact ⟨t, hpretty, ht.trans hcompact.symm, ht⟩
  · rw [runEdit_eq, exec_bind_ok hs]
    exact exec_writeState hp compact output w₁
  · rw [runPresets_display, exec_bind_ok hs]
    obtain ⟨hresult, hloaded⟩ := exec_writeState hp false none w₁
    exact ⟨hresult, hloaded hresult⟩

/-- A node with an id that is escaped, and with a mix that is written as `1e-30` in a compact document and as
`9.999999999999999e-31` in an indented one. -/
def quotedOperations : List Operation :=
  [.add .delay (some "\"é\n"), .set "\"é\n" "mix" ⟨false, 0x0da24260, by decide⟩]

def quotedEdited : State :=
  (State.initial minNodeLimit).applyAll [.addNode .delay 160 120 (some "\"é\n"),
    .setParam "\"é\n" "mix" ⟨false, 0x0da24260, by decide⟩]

/-- The node that was added last stands first. -/
def quotedPayload : Payload where
  nodes := [
    { id := "\"é\n", kind := .delay, x := 160, y := 120,
      params := .ofList [("mix", ⟨false, 0x0da24260, by decide⟩)] },
    { id := inputId, kind := .input, x := 80, y := 120 },
    { id := outputId, kind := .output, x := 460, y := 120 }]
  edges := [⟨inputId, outputId⟩]

theorem pretty_law_quoted :
    (∃ t, prettyText? quotedPayload.serialize = some t ∧ deserialize t = .ok quotedPayload) ∧
    (∀ compact, loadedFrom (some "/board.json") (exec (runEdit {} none (some "/board.json") false compact
      quotedOperations) { tree := {} }).2 = some quotedPayload) ∧
    ∃ p, normalize (State.initial minNodeLimit) = .ok p ∧
      loadedFrom none (exec (runPresets {} "/state" (.display "Clean" true)) { tree := {} }).2 = some p := by
  have hnodes : sortNodes quotedEdited.nodes = quotedPayload.nodes :=
    sortNodes_eq (by decide) (by decide) (by decide)
  have hedges : sortEdges quotedEdited.edges = quotedPayload.edges := List.mergeSort_singleton _
  have hnormal : normalize quotedEdited = .ok quotedPayload :=
    normalize_eq_ok.2 ⟨by rw [hnodes, hedges]; rfl, by decide⟩
  obtain ⟨htext, hedit, hshow⟩ := pretty_law
  refine ⟨?_, fun compact => ?_, ?_⟩
  · obtain ⟨t, hpretty, -, ht⟩ := htext quotedPayload (validate_eq_ok.2 (by decide))
    rw [sort_of_normalize hnormal] at ht
    exact ⟨t, hpretty, ht⟩
  · have hedited : exec (edited {} none false quotedOperations) { tree := {} } =
        (.ok quotedEdited, { tree := {} }) := by rfl
    obtain ⟨hresult, hloaded⟩ := hedit _ _ (some "/board.json") _ _ _ _ _ _ hedited hnormal compact
    refine hloaded (hresult.trans ?_)
    rw [exec_writeText_file]
    rfl
  · have hshown : exec (shown {} "/state" "Clean") { tree := {} } =
        (.ok ("clean (factory)", State.initial minNodeLimit), { tree := {} }) := by rfl
    have hclean := normalize_of_reaches (State.reaches_applyAll_initial minNodeLimit []) (by decide)
    exact ⟨_, hclean, (hshow _ _ _ _ _ _ _ _ hshown hclean).2⟩

end Cli

end Pedalboard
