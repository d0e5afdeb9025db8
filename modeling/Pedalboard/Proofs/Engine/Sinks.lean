import Mathlib
import Pedalboard.Proofs.Bridge.Mirror
import Pedalboard.Proofs.Engine.Messages
import Pedalboard.Proofs.Wire.Reading

/-!
# Two sinks behind one stream

A bank sink and a message sink are given the same texts, and nothing is known of the texts.

**One emission** (`Delivered`). A text that is read is written as a whole encoding and posted as one
message that carries the same graph; a text that is not read is neither written nor posted. What is
written does not depend on the host (`BankSink.host_emit`).

**A stream** (`InStep`). After any number of emissions the sinks count the same texts, the bank shows
the graph of the last text that was read, and the messages carry the graphs of all of them in order.

**Theorem (`sinks_agree`).** So the two sinks stay in step on every stream.
-/

namespace Pedalboard

open Json

/-! ## One emission -/

namespace BankSink

variable {Host : Type} {e : Emission}

/-- The writes for an emission, as a host sees them that does nothing but note them. -/
def log (e : Emission) : List ParamWrite :=
  (emit (fun ws w => ws ++ [w]) { host := [] } e).host

theorem log_eq (e : Emission) : log e = (writes e).toOption.getD [] := by
  unfold log emit
  cases writes e <;> simp [Except.toOption, ← List.flatMap_def]

/-- **Every host gets the same writes**, in the same order. -/
theorem host_emit (write : Host → ParamWrite → Host) (s : BankSink Host) (e : Emission) :
    (s.emit write e).host = (log e).foldl write s.host := by
  rw [log_eq]
  unfold emit
  cases writes e <;> simp [Except.toOption]

theorem emit_of_error {k : BankSink Bank} {err : WireError}
    (h : Payload.deserialize e.text = .error err) :
    k.emit Bank.write e = { k with rejected := k.rejected + 1 } := by
  rw [emit, writes, h]
  rfl

end BankSink

/-- What the two sinks make of an emission: the writes of one and the message of the other. -/
inductive Delivered (e : Emission) : List ParamWrite → Option String → Prop
  | accepted {p : Payload} {text : String} {v : Json} :
      Payload.deserialize e.text = .ok p → parse? text = some v →
      (compile p).CarriedBy e.revision v →
      Delivered e (encode (compile p) e.revision) (some text)
  | rejected {err : WireError} : Payload.deserialize e.text = .error err → Delivered e [] none

theorem delivered {e : Emission} (h : e.revision < naturalBound) :
    Delivered e (BankSink.log e) (messageOf? e) := by
  rw [BankSink.log_eq, BankSink.writes, messageOf?, messageText]
  cases hread : Payload.deserialize e.text with
  | error err => exact .rejected hread
  | ok p =>
    have hsmall : (compile p).Small := small_compile (Payload.problem?_of_deserialize hread)
    obtain ⟨v, hparse, hcarried⟩ := carriedBy_message hsmall h
    exact .accepted hread hparse hcarried

/-! ## A stream of emissions -/

/-- The emissions whose texts are read, with what is read. -/
def accepted (given : List Emission) : List (Payload × Nat) :=
  given.filterMap fun e => (Payload.deserialize e.text).toOption.map fun p => (p, e.revision)

theorem accepted_concat_ok (given : List Emission) {e : Emission} {p : Payload}
    (h : Payload.deserialize e.text = .ok p) :
    accepted (given ++ [e]) = accepted given ++ [(p, e.revision)] := by
  simp [accepted, h, Except.toOption]

theorem accepted_concat_error (given : List Emission) {e : Emission} {err : WireError}
    (h : Payload.deserialize e.text = .error err) : accepted (given ++ [e]) = accepted given := by
  simp [accepted, h, Except.toOption]

/-- What holds of a bank sink that began on `bank` and of the messages posted, after the given
emissions. -/
structure InStep (bank : Bank) (given : List Emission) (k : BankSink Bank)
    (posted : List String) : Prop where
  count : k.applied + k.rejected = given.length
  applied : k.applied = posted.length
  host : ∀ i < Bank.hostSize, k.host.get? i = bank.get? i
  untouched : accepted given = [] → k.host = bank
  shows : ∀ p revision, (accepted given).getLast? = some (p, revision) →
    k.host.Shows (compile p) revision
  carried : List.Forall₂ (fun (a : Payload × Nat) text =>
    ∃ v, parse? text = some v ∧ (compile a.1).CarriedBy a.2 v) (accepted given) posted

namespace InStep

variable {bank : Bank} {given : List Emission} {k : BankSink Bank} {posted : List String}

theorem start (bank : Bank) : InStep bank [] { host := bank } [] := by
  constructor <;> simp [accepted]

/-- **One more emission** keeps the sinks in step. -/
theorem concat {e : Emission} (h : InStep bank given k posted) (he : e.revision < naturalBound) :
    InStep bank (given ++ [e]) (k.emit Bank.write e) (posted ++ (messageOf? e).toList) := by
  have hdelivered := delivered he
  generalize messageOf? e = message? at hdelivered
  generalize BankSink.log e = ws at hdelivered
  cases hdelivered with
  | @accepted p text v hread hparse hcarried =>
    rw [BankSink.emit_of_deserialize hread]
    have haccepted := accepted_concat_ok given hread
    refine ⟨?_, ?_, fun i hi => ?_, fun hnil => ?_, fun q revision hlast => ?_, ?_⟩
    · rw [List.length_append, ← h.count]
      simp only [List.length_singleton]
      omega
    · simp [h.applied]
    · exact (Bank.get?_apply_encode_host _ _ _ hi).trans (h.host i hi)
    · simp [haccepted] at hnil
    · rw [haccepted, List.getLast?_concat, Option.some_inj, Prod.mk.injEq] at hlast
      obtain ⟨rfl, rfl⟩ := hlast
      exact Bank.shows_apply_encode _ _ _
    · rw [haccepted]
      exact List.rel_append h.carried (.cons ⟨v, hparse, hcarried⟩ .nil)
  | @rejected err hread =>
    rw [BankSink.emit_of_error hread, Option.toList_none, List.append_nil]
    have haccepted := accepted_concat_error given hread
    refine ⟨?_, h.applied, h.host, fun hnil => ?_, fun q revision hlast => ?_, ?_⟩
    · rw [List.length_append, ← h.count]
      simp only [List.length_singleton]
      omega
    · exact h.untouched (haccepted ▸ hnil)
    · exact h.shows q revision (haccepted ▸ hlast)
    · exact haccepted ▸ h.carried

/-- **Any number of emissions.** -/
theorem foldl_emit (bank : Bank) {given : List Emission} (h : ∀ e ∈ given, e.revision < naturalBound) :
    InStep bank given (given.foldl (BankSink.emit Bank.write) { host := bank })
      (given.filterMap messageOf?) := by
  induction given using List.reverseRecOn with
  | nil => exact start bank
  | append_singleton given e ih =>
    obtain ⟨hgiven, hlast⟩ := List.forall_mem_append.1 h
    have hnext := (ih hgiven).concat (hlast e (List.mem_singleton_self e))
    have hmessage : [e].filterMap messageOf? = (messageOf? e).toList := by
      cases hm : messageOf? e <;> simp [hm]
    rw [List.foldl_append, List.filterMap_append, hmessage]
    exact hnext

end InStep

/-! ## The sinks agree -/

theorem log_ne_nil_iff {e : Emission} :
    BankSink.log e ≠ [] ↔ ∃ p, Payload.deserialize e.text = .ok p := by
  rw [BankSink.log_eq, BankSink.writes]
  cases hread : Payload.deserialize e.text with
  | error err => simp [Except.map, Except.toOption]
  | ok p => simp [Except.map, Except.toOption, encode, bankValues, headerValues]

theorem messageOf?_isSome_iff {e : Emission} :
    (messageOf? e).isSome ↔ ∃ p, Payload.deserialize e.text = .ok p := by
  unfold messageOf? messageText
  cases Payload.deserialize e.text <;> simp [Except.map, Except.toOption]

/-- **The two sinks agree on every stream of texts.** A text is written to the bank exactly if it is
posted, which is so exactly if it can be read; after every emission the sinks have counted the same
texts, the bank shows the last text that was read under its revision and is as it was if there is
none, the host's places keep what they held, and the messages carry the graphs of the texts that were
read, in their order and under their revisions. -/
theorem sinks_agree (bank : Bank) {given : List Emission} (h : ∀ e ∈ given, e.revision < 2 ^ 64) :
    (∀ e : Emission,
      (BankSink.log e ≠ [] ↔ ∃ p, Payload.deserialize e.text = .ok p) ∧
      ((messageOf? e).isSome ↔ ∃ p, Payload.deserialize e.text = .ok p) ∧
      ∀ k : BankSink Bank, (k.emit Bank.write e).host = k.host.apply (BankSink.log e)) ∧
    ∀ es, es <+: given →
      let k := es.foldl (BankSink.emit Bank.write) { host := bank }
      let posted := es.filterMap messageOf?
      k.applied + k.rejected = es.length ∧ k.applied = posted.length ∧
      (∀ i < 6, k.host.get? i = bank.get? i) ∧
      (accepted es = [] → k.host = bank) ∧
      (∀ p revision, (accepted es).getLast? = some (p, revision) →
        k.host.Shows (compile p) revision) ∧
      List.Forall₂ (fun (a : Payload × Nat) text =>
        ∃ v, parse? text = some v ∧ (compile a.1).CarriedBy a.2 v) (accepted es) posted := by
  refine ⟨fun e => ⟨log_ne_nil_iff, messageOf?_isSome_iff, fun k => ?_⟩, fun es hes => ?_⟩
  · exact BankSink.host_emit Bank.write k e
  · have hstep := InStep.foldl_emit bank fun e he => h e (hes.subset he)
    exact ⟨hstep.count, hstep.applied, hstep.host, hstep.untouched, hstep.shows, hstep.carried⟩

/-- Two texts that are refused, one that is no JSON and one that is no payload, around one that is
read; the host has set a parameter of its own. -/
theorem sinks_agree_mixedStream :
    let given : List Emission := [⟨"\x7bnot json", 1⟩, ⟨Payload.quotedSaved.serialize, 2⟩, ⟨"[]", 3⟩]
    let k := given.foldl (BankSink.emit Bank.write) { host := Bank.empty.set 2 7 }
    (∀ e ∈ given, e.revision < 2 ^ 64) ∧ k.applied = 1 ∧ k.rejected = 2 ∧
    k.host.get? 2 = some 7 ∧ k.host.Shows (compile Payload.quotedSaved) 2 := by
  intro given k
  have hgiven : ∀ e ∈ given, e.revision < 2 ^ 64 := by
    simp [given]
  have hread : (Payload.deserialize Payload.quotedSaved.serialize).toOption = some _ :=
    congrArg _ (Payload.deserialize_of_normalize Payload.deserialize_of_normalize_quoted.1)
  have hnotJson : (Payload.deserialize "\x7bnot json").toOption = none :=
    Option.isNone_iff_eq_none.1 (by decide +kernel)
  have hnotPayload : (Payload.deserialize "[]").toOption = none :=
    Option.isNone_iff_eq_none.1 (by decide +kernel)
  have haccepted : accepted given = [(Payload.quotedSaved, 2)] := by
    simp [accepted, given, hread, hnotJson, hnotPayload]
  obtain ⟨-, hrun⟩ := sinks_agree (Bank.empty.set 2 7) hgiven
  obtain ⟨hcount, hposted, hhost, -, hshows, hcarried⟩ := hrun given (List.prefix_refl given)
  have happlied : k.applied = 1 := by
    rw [hposted, ← hcarried.length_eq, haccepted]
    rfl
  have hrejected : k.rejected = 2 := by
    rw [happlied] at hcount
    exact Nat.add_left_cancel hcount
  have hown : (Bank.empty.set 2 7).get? 2 = some 7 := by
    rw [Bank.get?_set _ _ _ _ (by decide), if_pos rfl]
  refine ⟨hgiven, happlied, hrejected, (hhost 2 (by decide)).trans hown, hshows _ _ ?_⟩
  rw [haccepted]
  rfl

end Pedalboard
