import Mathlib
import Pedalboard.Bridge
import Pedalboard.Proofs.Wire.RoundTrip

/-!
# Runs of a bridge

**Runs** (`Feed`). A bridge with a sink behind it, and a record of what came of each call. A call
to `sync` passes a state on or skips it; a call to `invalidate` makes the bridge forget.

**The invariant** (`Feed.Inv`). Revisions count what was passed on, the sink got exactly that, and
the bridge remembers the text of the state that it passed on last, unless it was told to forget.

**Theorem (`sync_emits_iff`).** So a state is passed on exactly when it has a payload and is not
the graph that the engine already has. The invariant speaks of texts, the theorem of graphs; the
step between them is that texts tell graphs apart (`Payload.text_eq_iff`).
-/

namespace Pedalboard

/-! ## One call -/

namespace Bridge

variable {b : Bridge} {s : State} {e : Emission}

/-- What is asked of a bridge. -/
inductive Call
  | sync (s : State)
  | invalidate

/-- What came of a call. -/
inductive Event
  | sent (s : State) (e : Emission)
  | skipped (s : State)
  | invalidated

/-- **Whatever is passed on** is the text of the state, under the next revision. -/
theorem sync_eq_some (h : (b.sync s).2 = some e) :
    Payload.serializeState s = .ok e.text ∧ e.revision = b.revision + 1 ∧
      b.lastText ≠ some e.text ∧
      (b.sync s).1 = { revision := e.revision, lastText := some e.text } := by
  simp only [sync] at h ⊢
  split at h
  · cases h
  · split_ifs at h with hlast
    cases h
    rw [if_neg hlast]
    exact ⟨‹_›, rfl, hlast, rfl⟩

theorem sync_eq_none_iff :
    (b.sync s).2 = none ↔ ∀ text, Payload.serializeState s = .ok text → b.lastText = some text := by
  rw [sync]
  cases Payload.serializeState s with
  | error w => simp
  | ok text =>
    simp only [Except.ok.injEq, forall_eq']
    split_ifs with hlast <;> simp [hlast]

/-- A bridge that passes nothing on is left as it is. -/
theorem sync_of_none (h : (b.sync s).2 = none) : (b.sync s).1 = b := by
  simp only [sync] at h ⊢
  split at h
  · rfl
  · split_ifs at h with hlast
    rw [if_pos hlast]

/-- A bridge remembers the text of the state that it looked at last, if that has one. -/
theorem lastText_sync {text : String} (hs : Payload.serializeState s = .ok text) :
    (b.sync s).1.lastText = some text := by
  simp only [sync, hs]
  split
  · assumption
  · rfl

/-! ## What came of several calls

Events stand with the latest first.
-/

/-- The states that were passed on, each with what was passed on for it, in that order. -/
def sends : List Event → List (State × Emission)
  | [] => []
  | .sent s e :: earlier => sends earlier ++ [(s, e)]
  | .skipped _ :: earlier | .invalidated :: earlier => sends earlier

def emissions (events : List Event) : List Emission := (sends events).map (·.2)

/-- The state that was passed on last, and as what. -/
def lastSent? (events : List Event) : Option (State × Emission) := (sends events).getLast?

/-- Whether the bridge was told to forget after it passed on a state for the last time. -/
def forgotten : List Event → Bool
  | [] | .sent .. :: _ => false
  | .invalidated :: _ => true
  | .skipped _ :: earlier => forgotten earlier

theorem emissions_sent (s : State) (e : Emission) (earlier : List Event) :
    emissions (.sent s e :: earlier) = emissions earlier ++ [e] := by
  rw [emissions, sends, List.map_append]
  rfl

theorem lastSent?_sent (s : State) (e : Emission) (earlier : List Event) :
    lastSent? (.sent s e :: earlier) = some (s, e) := List.getLast?_concat

theorem getLast?_emissions (events : List Event) :
    (emissions events).getLast? = (lastSent? events).map (·.2) := List.getLast?_map

end Bridge

open Bridge (Call Event sends emissions lastSent? forgotten)

/-- A bridge, the sink behind it, and what came of each call so far, the latest first. -/
structure Feed (Sink : Type) where
  bridge : Bridge := {}
  sink : Sink
  events : List Event := []

namespace Feed

variable {Sink : Type}

def call (emit : Sink → Emission → Sink) (f : Feed Sink) : Call → Feed Sink
  | .sync s =>
    match f.bridge.sync s with
    | (bridge, some e) => { bridge, sink := emit f.sink e, events := .sent s e :: f.events }
    | (bridge, none) => { bridge, sink := f.sink, events := .skipped s :: f.events }
  | .invalidate => { f with bridge := f.bridge.invalidate, events := .invalidated :: f.events }

def run (emit : Sink → Emission → Sink) (f : Feed Sink) (calls : List Call) : Feed Sink :=
  calls.foldl (call emit) f

/-! ## The invariant -/

variable {emit : Sink → Emission → Sink} {start : Sink} {f : Feed Sink} {s : State}
  {P : State → Prop}

/-- What is so after any calls with states that satisfy `P`. -/
structure Inv (emit : Sink → Emission → Sink) (start : Sink) (P : State → Prop) (f : Feed Sink) :
    Prop where
  revisions : (emissions f.events).map (·.revision) = List.range' 1 (emissions f.events).length
  revision : f.bridge.revision = (emissions f.events).length
  sink : f.sink = (emissions f.events).foldl emit start
  lastText : f.bridge.lastText =
    if forgotten f.events then none else (lastSent? f.events).map (·.2.text)
  sent : ∀ s e, (s, e) ∈ sends f.events → P s ∧ Payload.serializeState s = .ok e.text

theorem inv_start (emit : Sink → Emission → Sink) (start : Sink) (P : State → Prop) :
    Inv emit start P { sink := start } :=
  ⟨rfl, rfl, rfl, rfl, by simp [sends]⟩

theorem call_of_sent {e : Emission} (h : (f.bridge.sync s).2 = some e) :
    f.call emit (.sync s) =
      { bridge := (f.bridge.sync s).1, sink := emit f.sink e, events := .sent s e :: f.events } := by
  rw [call]
  generalize f.bridge.sync s = result at h ⊢
  obtain ⟨bridge, o⟩ := result
  cases h
  rfl

theorem call_of_skipped (h : (f.bridge.sync s).2 = none) :
    f.call emit (.sync s) = { f with events := .skipped s :: f.events } := by
  have hbridge := Bridge.sync_of_none h
  rw [call]
  generalize f.bridge.sync s = result at h hbridge ⊢
  obtain ⟨bridge, o⟩ := result
  cases h
  cases hbridge
  rfl

theorem lastText_call_sync {text : String} (hs : Payload.serializeState s = .ok text) :
    (f.call emit (.sync s)).bridge.lastText = some text := by
  have hlast := Bridge.lastText_sync (b := f.bridge) hs
  cases h : (f.bridge.sync s).2 with
  | some e => rwa [call_of_sent h]
  | none => rwa [call_of_skipped h, ← Bridge.sync_of_none h]

theorem Inv.of_sent {e : Emission} (hf : Inv emit start P f) (hs : P s)
    (h : (f.bridge.sync s).2 = some e) : Inv emit start P (f.call emit (.sync s)) := by
  obtain ⟨htext, hrevision, -, hbridge⟩ := Bridge.sync_eq_some h
  have hcount : e.revision = 1 + (emissions f.events).length := by
    rw [hrevision, hf.revision, Nat.add_comm]
  rw [call_of_sent h, hbridge]
  constructor
  · simp only [Bridge.emissions_sent, List.map_append, hf.revisions, List.map_singleton, hcount,
      List.length_append, List.length_singleton, List.range'_1_concat]
  · simp only [Bridge.emissions_sent, List.length_append, List.length_singleton, hcount,
      Nat.add_comm]
  · simp only [Bridge.emissions_sent, List.foldl_append, List.foldl_cons, List.foldl_nil, hf.sink]
  · rw [Bridge.lastSent?_sent]
    rfl
  · intro s' e' hmem
    rcases List.mem_append.1 hmem with hmem | hmem
    · exact hf.sent s' e' hmem
    · cases List.mem_singleton.1 hmem
      exact ⟨hs, htext⟩

/-- **Each call keeps the invariant.** -/
theorem Inv.call (hf : Inv emit start P f) {c : Call} (hc : ∀ s, c = .sync s → P s) :
    Inv emit start P (f.call emit c) := by
  cases c with
  | sync s =>
    cases h : (f.bridge.sync s).2 with
    | some e => exact hf.of_sent (hc s rfl) h
    | none =>
      rw [call_of_skipped h]
      exact ⟨hf.revisions, hf.revision, hf.sink, hf.lastText, hf.sent⟩
  | invalidate => exact ⟨hf.revisions, hf.revision, hf.sink, rfl, hf.sent⟩

theorem Inv.run (hf : Inv emit start P f) {calls : List Call}
    (hcalls : ∀ s, Call.sync s ∈ calls → P s) : Inv emit start P (f.run emit calls) := by
  induction calls generalizing f with
  | nil => exact hf
  | cons c calls ih =>
    exact ih (hf.call fun s hs => hcalls s (hs ▸ List.mem_cons_self))
      fun s hs => hcalls s (List.mem_cons_of_mem _ hs)

/-! ## When a state is passed on -/

/-- **A state is passed on** exactly when it has a payload and the engine does not have its graph,
as far as the bridge remembers. -/
theorem Inv.emits_iff (hf : Inv emit start (State.Reaches State.Opened) f)
    (hs : State.Reaches State.Opened s) :
    (∃ e, (f.bridge.sync s).2 = some e) ↔
      s.edges.length ≤ maxPayloadEdges ∧
        (lastSent? f.events = none ∨ forgotten f.events = true ∨
          ∃ t e, lastSent? f.events = some (t, e) ∧ ¬s.SameParts t) := by
  rw [← Option.isSome_iff_exists, ← not_iff_not, Option.not_isSome_iff_eq_none,
    Bridge.sync_eq_none_iff]
  rcases le_or_gt s.edges.length maxPayloadEdges with hle | hlt
  · have htext := Payload.serializeState_of_reaches hs hle
    rw [hf.lastText]
    simp only [htext, Except.ok.injEq, forall_eq', hle, true_and, not_or]
    cases hlast : lastSent? f.events with
    | none => simp
    | some sent =>
      obtain ⟨t, e⟩ := sent
      obtain ⟨ht, hsent⟩ := hf.sent t e (List.mem_of_getLast? hlast)
      -- The one case in which texts are compared: something was passed on and is remembered.
      have hsame := Payload.text_eq_iff hs ht htext hsent
      cases forgotten f.events with
      | true => simp
      | false => simp [← hsame, eq_comm]
  · have herror := Payload.serializeState_of_overflow hs hlt
    simp [herror, hlt.not_ge]

/-- **The engine is told of every change, and of nothing else.** After any calls: revisions count
up from one without a gap, the sink got exactly what was passed on, and a state is passed on next
exactly when it has at most 64 edges and nothing was passed on yet, or the bridge was told to forget
since, or its nodes or edges are not those of the state that was passed on last. A call that passes
nothing on leaves the bridge and the sink as they were. -/
theorem sync_emits_iff (emit : Sink → Emission → Sink) (start : Sink) (calls : List Call)
    (hcalls : ∀ s, Call.sync s ∈ calls → State.Reaches State.Opened s) :
    let f := ({ sink := start } : Feed Sink).run emit calls
    (emissions f.events).map (·.revision) = List.range' 1 (emissions f.events).length ∧
    f.bridge.revision = (emissions f.events).length ∧
    f.sink = (emissions f.events).foldl emit start ∧
    ∀ s, State.Reaches State.Opened s →
      ((∃ e, (f.bridge.sync s).2 = some e) ↔
        s.edges.length ≤ 64 ∧
          (lastSent? f.events = none ∨ forgotten f.events = true ∨
            ∃ t e, lastSent? f.events = some (t, e) ∧ ¬s.SameParts t)) ∧
      ((f.bridge.sync s).2 = none →
        (f.call emit (.sync s)).bridge = f.bridge ∧ (f.call emit (.sync s)).sink = f.sink) := by
  intro f
  have hf : Inv emit start (State.Reaches State.Opened) f := (inv_start emit start _).run hcalls
  refine ⟨hf.revisions, hf.revision, hf.sink, fun s hs => ⟨hf.emits_iff hs, fun hnone => ?_⟩⟩
  rw [call_of_skipped hnone]
  exact ⟨rfl, rfl⟩

/-- After a board was passed on, the same graph made in another order is not, and another is. -/
theorem sync_emits_iff_reordered :
    let emit := fun (sent : List Emission) e => e :: sent
    let f := ({ sink := [] } : Feed (List Emission)).run emit [.sync Payload.firstThenSecond]
    (emissions f.events).length = 1 ∧ (f.bridge.sync Payload.secondThenFirst).2 = none ∧
      ∃ e, (f.bridge.sync Payload.quotedAdded).2 = some e := by
  intro emit f
  have hfirst : State.Reaches State.Opened Payload.firstThenSecond :=
    State.reaches_applyAll_initial 3 _
  have hsecond : State.Reaches State.Opened Payload.secondThenFirst :=
    State.reaches_applyAll_initial 9 _
  have hquoted : State.Reaches State.Opened Payload.quotedAdded := State.reaches_applyAll_initial 3 _
  obtain ⟨-, -, -, hfresh⟩ := sync_emits_iff emit [] [] (by simp)
  obtain ⟨e, he⟩ := (hfresh _ hfirst).1.2 ⟨by decide, .inl rfl⟩
  have hevents : f.events = [.sent Payload.firstThenSecond e] := by
    change (call emit (run emit { sink := [] } []) (.sync Payload.firstThenSecond)).events = _
    rw [call_of_sent he]
    rfl
  obtain ⟨-, -, -, hemits⟩ :=
    sync_emits_iff emit [] [.sync Payload.firstThenSecond] (by simpa using hfirst)
  have hchanged : ∀ {s}, State.Reaches State.Opened s →
      ((∃ e, (f.bridge.sync s).2 = some e) ↔
        s.edges.length ≤ 64 ∧ ¬s.SameParts Payload.firstThenSecond) := by
    intro s hs
    rw [(hemits s hs).1, hevents]
    simp [Bridge.lastSent?_sent, forgotten]
  refine ⟨by rw [hevents]; rfl, ?_, (hchanged hquoted).2 ⟨by decide, ?_⟩⟩
  · rw [← Option.not_isSome_iff_eq_none, Option.isSome_iff_exists, hchanged hsecond,
      Payload.sameParts_iff_perm hsecond.wellFormed_of_opened hfirst.wellFormed_of_opened]
    decide
  · rw [Payload.sameParts_iff_perm hquoted.wellFormed_of_opened hfirst.wellFormed_of_opened]
    decide

end Feed

end Pedalboard
