import Mathlib
import Pedalboard.Proofs.Bridge.Runs
import Pedalboard.Proofs.Engine.Bank

/-!
# The engine mirrors the editor

A bridge in front of a bank sink. Every text that the bridge passes on is read back by the sink as
the payload that it was made of, so the sink drops nothing and counts what the bridge counts.

**Sinks** (`BankSink.Holds`). After texts that are all read, the bank shows the graph of the last
one under its revision, and the host's places are as they were.

**Theorem (`bank_mirrors`).** So after every call the bank shows the last graph that was passed on,
and right after a look at a state that has a payload, whether it was passed on or not, it shows
that state's graph.
-/

namespace Pedalboard

/-! ## A sink that reads everything -/

namespace BankSink

variable {k : BankSink Bank} {e : Emission} {p : Payload}

theorem emit_of_deserialize (h : Payload.deserialize e.text = .ok p) :
    k.emit Bank.write e = { k with
      host := k.host.apply (encode (compile p) e.revision), applied := k.applied + 1 } := by
  rw [emit, writes, h]
  rfl

/-- What a sink holds that began as `start` and was given texts that can be read. -/
structure Holds (start : BankSink Bank) (given : List Emission) (k : BankSink Bank) : Prop where
  rejected : k.rejected = start.rejected
  applied : k.applied = start.applied + given.length
  host : ∀ i < Bank.hostSize, k.host.get? i = start.host.get? i
  shows : ∀ e p, given.getLast? = some e → Payload.deserialize e.text = .ok p →
    k.host.Shows (compile p) e.revision

theorem holds_foldl_emit (start : BankSink Bank) {given : List Emission}
    (hread : ∀ e ∈ given, ∃ p, Payload.deserialize e.text = .ok p) :
    Holds start given (given.foldl (emit Bank.write) start) := by
  induction given using List.reverseRecOn with
  | nil => exact ⟨rfl, rfl, fun _ _ => rfl, by simp⟩
  | append_singleton given e ih =>
    obtain ⟨hgiven, hlast⟩ := List.forall_mem_append.1 hread
    obtain ⟨p, hp⟩ := hlast e (List.mem_singleton_self e)
    have hbefore := ih hgiven
    rw [List.foldl_append, List.foldl_cons, List.foldl_nil, emit_of_deserialize hp]
    refine ⟨hbefore.rejected, ?_, fun i hi => ?_, fun e' q he' hq => ?_⟩
    · rw [List.length_append, List.length_singleton, ← Nat.add_assoc, hbefore.applied]
    · exact (Bank.get?_apply_encode_host _ _ _ hi).trans (hbefore.host i hi)
    · rw [List.getLast?_concat] at he'
      obtain rfl := Option.some.inj he'
      obtain rfl := Except.ok.inj (hp.symm.trans hq)
      exact Bank.shows_apply_encode _ _ _

end BankSink

/-! ## Behind a bridge -/

namespace Feed

open Bridge (Call emissions)

variable {start : BankSink Bank} {f : Feed (BankSink Bank)} {s : State} {e : Emission}
  {P : State → Prop}

theorem Inv.exists_payload (hf : Inv (BankSink.emit Bank.write) start P f)
    (he : e ∈ emissions f.events) : ∃ p, Payload.deserialize e.text = .ok p := by
  obtain ⟨⟨s, e⟩, hsent, rfl⟩ := List.mem_map.1 he
  obtain ⟨p, -, hp⟩ := Payload.exists_payload_of_text (hf.sent s e hsent).2
  exact ⟨p, hp⟩

theorem Inv.holds (hf : Inv (BankSink.emit Bank.write) start P f) :
    BankSink.Holds start (emissions f.events) f.sink :=
  hf.sink ▸ BankSink.holds_foldl_emit start fun _ => hf.exists_payload

/-- The last revision is that of the bridge. -/
theorem Inv.revision_getLast (hf : Inv (BankSink.emit Bank.write) start P f)
    (he : (emissions f.events).getLast? = some e) : e.revision = f.bridge.revision := by
  have hlast := congrArg List.getLast? hf.revisions
  rw [List.getLast?_map, he, List.getLast?_range', ← hf.revision] at hlast
  split_ifs at hlast with hnone
  · cases hlast
  · rw [Option.map_some, Nat.add_sub_cancel_left] at hlast
    exact Option.some.inj hlast

/-- **The bank shows what was passed on last**, under the revision of the bridge. -/
theorem Inv.shows_last (hf : Inv (BankSink.emit Bank.write) start P f)
    (he : (emissions f.events).getLast? = some e) :
    ∃ p, Payload.deserialize e.text = .ok p ∧ f.sink.host.Shows (compile p) f.bridge.revision := by
  obtain ⟨p, hp⟩ := hf.exists_payload (List.mem_of_getLast? he)
  exact ⟨p, hp, hf.revision_getLast he ▸ hf.holds.shows e p he hp⟩

/-- **The bank shows the text that the bridge remembers.** -/
theorem Inv.shows_lastText {text : String} {p : Payload}
    (hf : Inv (BankSink.emit Bank.write) start P f) (htext : f.bridge.lastText = some text)
    (hp : Payload.deserialize text = .ok p) :
    f.sink.host.Shows (compile p) f.bridge.revision := by
  rw [hf.lastText] at htext
  split_ifs at htext
  obtain ⟨⟨t, e⟩, hlast, rfl⟩ := Option.map_eq_some_iff.1 htext
  have he : (emissions f.events).getLast? = some e := by
    rw [Bridge.getLast?_emissions, hlast]
    rfl
  obtain ⟨q, hq, hshows⟩ := hf.shows_last he
  obtain rfl := Except.ok.inj (hp.symm.trans hq)
  exact hshows

/-- **The bank follows the editor.** Whatever a bridge in front of a bank is asked to do: no text
is dropped, as many are applied as the revision says, the host's places keep what they held, and
the others hold exactly what is encoded for the text that was passed on last. After a look at a
state with at most 64 edges this is the encoding of that state's payload. -/
theorem bank_mirrors (bank : Bank) (calls : List Call)
    (hcalls : ∀ s, Call.sync s ∈ calls → State.Reaches State.Opened s) :
    let f := ({ sink := { host := bank } } : Feed (BankSink Bank)).run
      (BankSink.emit Bank.write) calls
    f.sink.rejected = 0 ∧ f.sink.applied = f.bridge.revision ∧
    (∀ i < 6, f.sink.host.get? i = bank.get? i) ∧
    (∀ e, (emissions f.events).getLast? = some e →
      ∃ p, Payload.deserialize e.text = .ok p ∧
        f.sink.host.Shows (compile p) f.bridge.revision) ∧
    ∀ s, State.Reaches State.Opened s → s.edges.length ≤ 64 →
      let g := f.call (BankSink.emit Bank.write) (.sync s)
      ∃ p, Payload.normalize s = .ok p ∧ g.sink.host.Shows (compile p) g.bridge.revision := by
  intro f
  have hf : Inv (BankSink.emit Bank.write) { host := bank } (State.Reaches State.Opened) f :=
    (inv_start _ _ _).run hcalls
  refine ⟨hf.holds.rejected, ?_, hf.holds.host, fun e he => hf.shows_last he, fun s hs hedges => ?_⟩
  · rw [hf.holds.applied, hf.revision, Nat.zero_add]
  · intro g
    have hg : Inv (BankSink.emit Bank.write) { host := bank } (State.Reaches State.Opened) g :=
      hf.call fun t ht => by
        cases ht
        exact hs
    -- Passed on now or before, the text of `s` is what the bridge remembers, so `g` shows it.
    have htext := Payload.serializeState_of_reaches hs hedges
    obtain ⟨p, hp, hread⟩ := Payload.exists_payload_of_text htext
    exact ⟨p, hp, hg.shows_lastText (lastText_call_sync htext) hread⟩

/-- The bank of a host that has set one of its own parameters, after a graph that was passed on
twice. -/
theorem bank_mirrors_reordered :
    let calls := [.sync Payload.firstThenSecond, .invalidate, .sync Payload.secondThenFirst]
    let f := ({ sink := { host := Bank.empty.set 2 7 } } : Feed (BankSink Bank)).run
      (BankSink.emit Bank.write) calls
    f.sink.host.get? 2 = some 7 ∧ f.sink.rejected = 0 ∧
    ∃ p, Payload.normalize Payload.quotedAdded = .ok p ∧
      (f.call (BankSink.emit Bank.write) (.sync Payload.quotedAdded)).sink.host.Shows (compile p)
        (f.call (BankSink.emit Bank.write) (.sync Payload.quotedAdded)).bridge.revision := by
  intro calls f
  have hcalls : ∀ s, Call.sync s ∈ calls → State.Reaches State.Opened s := by
    intro s hs
    simp only [calls, List.mem_cons, Call.sync.injEq, reduceCtorEq, List.not_mem_nil, false_or,
      or_false] at hs
    rcases hs with rfl | rfl
    · exact State.reaches_applyAll_initial 3 _
    · exact State.reaches_applyAll_initial 9 _
  obtain ⟨hrejected, -, hhost, -, hsync⟩ := bank_mirrors (Bank.empty.set 2 7) calls hcalls
  have hset : (Bank.empty.set 2 7).get? 2 = some 7 :=
    (Bank.get?_set _ 2 2 7 (by decide)).trans (if_pos rfl)
  exact ⟨(hhost 2 (by decide)).trans hset, hrejected,
    hsync _ (State.reaches_applyAll_initial 3 _) (by decide)⟩

end Feed

end Pedalboard
