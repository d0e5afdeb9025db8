import Mathlib
import Pedalboard.Cli.Operation
import Pedalboard.Proofs.History.Bounds

/-!
# What an operation reports

**No stale error** (`History.lastError_dispatch`). The report of an edit is read off the present that
the history has after it. An edit that changes nothing may leave the old present in place, but only
if that shows no error; so the present shows an error exactly when this very edit was refused.

**Outcomes** (`Operation.Outcome`). An operation is an edit that is carried out or refused, a step
in the history that is there or not, or a fresh start.

**Histories that occur** (`Reached`). Those that commands and operations make of a new history. They
are bounded, so a step in the history brings back no error either.

**Theorem (`rejection_law`).** After any run, an operation reports a problem exactly when it is
refused itself, the message names the cause, and an operation that reports none leaves no error.
-/

namespace Pedalboard

namespace History

variable {h : History} {a : Action} {t : State}

/-- **The present shows the error of the last edit**, whatever error it showed before. -/
theorem lastError_dispatch (h : History) (a : Action) :
    (h.dispatch a).present.lastError = (h.present.apply a).lastError := by
  rw [dispatch, edit]
  split_ifs with hskip hsame herror
  · rfl
  · rfl
  · -- The edit is skipped: it was carried out, and there was no error to clear.
    simp only [Bool.or_eq_true, not_or, Bool.not_eq_true, Option.isSome_eq_false_iff,
      Option.isNone_iff_eq_none] at hskip herror
    rw [hskip.1.1, herror]
  · rfl

/-- An edit that is refused changes the error of the present and nothing else. -/
theorem dispatch_of_error {e : GraphError} (herror : h.present.attempt a = .error e) :
    h.dispatch a = { h with present := h.present.withError e } := by
  simp [dispatch, edit, State.apply_of_error herror, State.withError]

/-- An edit that is carried out and changes nothing is not recorded, and leaves no error. -/
theorem dispatch_of_sameGraph (hok : h.present.attempt a = .ok t) (hsame : t.sameGraph h.present) :
    ∃ next, (next = t ∨ next = h.present) ∧ next.lastError = none ∧
      h.dispatch a = { h with present := next } := by
  have hclear := State.lastError_of_attempt hok
  rw [dispatch, edit, State.apply_of_ok hok]
  split_ifs with hskip herror
  · exact ⟨t, .inl rfl, hclear, rfl⟩
  · exact ⟨t, .inl rfl, hclear, rfl⟩
  · exact ⟨h.present, .inr rfl, by simpa using herror, rfl⟩

end History

namespace Cli

variable {h g : History} {op : Operation} {a : Action} {t : State} {e : GraphError}

namespace Operation

/-! ## Outcomes -/

/-- What an operation makes of a history, and what it reports. -/
inductive Outcome (h : History) : Operation → History × Option Rejection → Prop
  | done {op : Operation} {a : Action} {t : State} : op.action? h.present = some a →
      h.present.attempt a = .ok t → Outcome h op (h.dispatch a, none)
  | refused {op : Operation} {a : Action} {e : GraphError} : op.action? h.present = some a →
      h.present.attempt a = .error e → Outcome h op (h.dispatch a, some (.refused e))
  | undone {g : History} : h.undo = some g → Outcome h .undo (g, none)
  | redone {g : History} : h.redo = some g → Outcome h .redo (g, none)
  | nothingToUndo : h.past = [] → Outcome h .undo (h, some .nothingToUndo)
  | nothingToRedo : h.future = [] → Outcome h .redo (h, some .nothingToRedo)
  | reset : Outcome h .reset (h.reset, none)

/-- An operation that stands for an edit. -/
theorem apply_of_action (ha : op.action? h.present = some a) :
    op.apply h = (h.dispatch a, (h.present.apply a).lastError.map .refused) := by
  simp only [apply, ha, History.lastError_dispatch]

theorem apply_of_ok (ha : op.action? h.present = some a) (hok : h.present.attempt a = .ok t) :
    op.apply h = (h.dispatch a, none) := by
  rw [apply_of_action ha, State.apply_of_ok hok, State.lastError_of_attempt hok, Option.map_none]

theorem apply_of_error (ha : op.action? h.present = some a) (herror : h.present.attempt a = .error e) :
    op.apply h = (h.dispatch a, some (.refused e)) := by
  rw [apply_of_action ha, State.apply_of_error herror]
  rfl

theorem apply_undo (hpast : h.past = []) : undo.apply h = (h, some .nothingToUndo) := by
  simp [apply, action?, History.undo, hpast]

theorem apply_redo (hfuture : h.future = []) : redo.apply h = (h, some .nothingToRedo) := by
  simp [apply, action?, History.redo, hfuture]

theorem outcome_apply (h : History) (op : Operation) : Outcome h op (op.apply h) := by
  cases ha : op.action? h.present with
  | some a =>
    cases hattempt : h.present.attempt a with
    | ok t => exact apply_of_ok ha hattempt ▸ .done ha hattempt
    | error e => exact apply_of_error ha hattempt ▸ .refused ha hattempt
  | none =>
    cases op with
    | undo =>
      cases hpast : h.past with
      | nil => exact apply_undo hpast ▸ .nothingToUndo hpast
      | cons previous rest =>
        simp only [apply, action?, History.undo, hpast]
        exact .undone (by simp [History.undo, hpast])
    | redo =>
      cases hfuture : h.future with
      | nil => exact apply_redo hfuture ▸ .nothingToRedo hfuture
      | cons next rest =>
        simp only [apply, action?, History.redo, hfuture]
        exact .redone (by simp [History.redo, hfuture])
    | reset => exact .reset
    | _ => cases ha

/-- **An operation reports a problem exactly when it is refused itself.** -/
theorem report_iff {r : Rejection} : (op.apply h).2 = some r ↔
    (∃ a e, op.action? h.present = some a ∧ h.present.attempt a = .error e ∧ r = .refused e) ∨
    (op = .undo ∧ h.past = [] ∧ r = .nothingToUndo) ∨
    (op = .redo ∧ h.future = [] ∧ r = .nothingToRedo) := by
  constructor
  · intro hr
    have hout := outcome_apply h op
    generalize op.apply h = result at hout hr
    cases hout with
    | refused ha herror =>
      cases hr
      exact .inl ⟨_, _, ha, herror, rfl⟩
    | nothingToUndo hpast =>
      cases hr
      exact .inr (.inl ⟨rfl, hpast, rfl⟩)
    | nothingToRedo hfuture =>
      cases hr
      exact .inr (.inr ⟨rfl, hfuture, rfl⟩)
    | _ => cases hr
  · rintro (⟨a, e, ha, herror, rfl⟩ | ⟨rfl, hpast, rfl⟩ | ⟨rfl, hfuture, rfl⟩)
    · rw [apply_of_error ha herror]
    · rw [apply_undo hpast]
    · rw [apply_redo hfuture]

/-! ## Steps -/

theorem Outcome.bounded {r : Option Rejection} (hb : h.Bounded) (hout : Outcome h op (g, r)) :
    g.Bounded := by
  cases hout with
  | @done _ a _ _ _ => exact hb.step (History.step_apply h (.edit a true))
  | @refused _ a _ _ _ => exact hb.step (History.step_apply h (.edit a true))
  | undone hg => exact hb.step (.undone hg)
  | redone hg => exact hb.step (.redone hg)
  | nothingToUndo | nothingToRedo => exact hb
  | reset => exact hb.step (History.step_apply h .reset)

/-- An operation that reports nothing leaves no error: an edit clears it, and neither a stacked
state nor the initial one has any. -/
theorem Outcome.lastError (hb : h.Bounded) (hout : Outcome h op (g, none)) :
    g.present.lastError = none := by
  cases hout with
  | done _ hok =>
    rw [History.lastError_dispatch, State.apply_of_ok hok, State.lastError_of_attempt hok]
  | undone hg =>
    obtain ⟨previous, rest, hpast, rfl⟩ := hb.undo_eq_some hg
    exact hb.settled previous (by simp [hpast])
  | redone hg =>
    obtain ⟨next, rest, hfuture, rfl⟩ := hb.redo_eq_some hg
    exact hb.settled next (by simp [hfuture])
  | reset => rfl

end Operation

/-! ## Histories that occur -/

/-- A history that commands and operations make of a new one. -/
inductive Reached : History → Prop
  | new (initial : State) (limit : Nat) : Reached (.new initial limit)
  | command {h : History} (c : Pedalboard.Command) : Reached h → Reached (h.apply c)
  | operation {h : History} (op : Operation) : Reached h → Reached (op.apply h).1

theorem Reached.bounded (hh : Reached h) : h.Bounded := by
  induction hh with
  | new initial limit => exact History.bounded_new initial limit
  | command c _ ih => exact ih.step (History.step_apply _ c)
  | operation op _ ih => exact (Operation.outcome_apply _ op).bounded ih

/-- **Errors are never stale.** In every history that occurs, an operation reports a message
exactly when this very operation is refused: the present refuses its edit, and the message shows the
code of the cause; or there is nothing to undo or redo. An edit that is refused changes nothing but
the error of the present; an operation that reports nothing leaves no error there; and an operation
that is carried out but changes nothing reports nothing and clears the error, without a trace in the
stacks. -/
theorem rejection_law (hh : Reached h) (op : Operation) :
    (∀ text, (op.apply h).2.map Rejection.message = some text ↔
      (∃ a e, op.action? h.present = some a ∧ h.present.attempt a = .error e ∧
        text = e.code ++ ": " ++ e.description) ∨
      (op = .undo ∧ h.past = [] ∧ text = "nothing to undo") ∨
      (op = .redo ∧ h.future = [] ∧ text = "nothing to redo")) ∧
    (∀ a e, op.action? h.present = some a → h.present.attempt a = .error e →
      (op.apply h).1 = { h with present := h.present.withError e }) ∧
    ((op.apply h).2 = none → (op.apply h).1.present.lastError = none) ∧
    (∀ a t, op.action? h.present = some a → h.present.attempt a = .ok t → t.sameGraph h.present →
      ∃ next, (next = t ∨ next = h.present) ∧ next.lastError = none ∧
        op.apply h = ({ h with present := next }, none)) := by
  refine ⟨fun text => ?_, fun a e ha herror => ?_, fun hnone => ?_, fun a t ha hok hsame => ?_⟩
  · simp only [Option.map_eq_some_iff, Operation.report_iff]
    constructor
    · rintro ⟨r, ⟨a, e, ha, herror, rfl⟩ | ⟨rfl, hpast, rfl⟩ | ⟨rfl, hfuture, rfl⟩, rfl⟩
      · exact .inl ⟨a, e, ha, herror, rfl⟩
      · exact .inr (.inl ⟨rfl, hpast, rfl⟩)
      · exact .inr (.inr ⟨rfl, hfuture, rfl⟩)
    · rintro (⟨a, e, ha, herror, rfl⟩ | ⟨rfl, hpast, rfl⟩ | ⟨rfl, hfuture, rfl⟩)
      · exact ⟨.refused e, .inl ⟨a, e, ha, herror, rfl⟩, rfl⟩
      · exact ⟨.nothingToUndo, .inr (.inl ⟨rfl, hpast, rfl⟩), rfl⟩
      · exact ⟨.nothingToRedo, .inr (.inr ⟨rfl, hfuture, rfl⟩), rfl⟩
  · rw [Operation.apply_of_error ha herror]
    exact History.dispatch_of_error herror
  · have hout := Operation.outcome_apply h op
    rw [← Prod.mk.eta (p := op.apply h), hnone] at hout
    exact hout.lastError hh.bounded
  · obtain ⟨next, hnext, hclear, hdispatch⟩ := History.dispatch_of_sameGraph hok hsame
    refine ⟨next, hnext, hclear, ?_⟩
    rw [Operation.apply_of_ok ha hok, hdispatch]

/-- A history whose last operation is refused, with a state to undo to. -/
def backEdgeRefused : History :=
  ((Operation.connect outputId inputId).apply
    ((Operation.bypass inputId).apply (.new (State.initial 8) 200)).1).1

/-- After an operation that was refused: one that changes nothing, one that is refused for another
reason, and one that has nothing to redo. -/
theorem rejection_law_backEdgeRefused :
    Reached backEdgeRefused ∧ backEdgeRefused.present.lastError = some .cycleDetected ∧
    (∃ next, (Operation.move inputId 80 120).apply backEdgeRefused =
        ({ backEdgeRefused with present := next }, none) ∧ next.lastError = none) ∧
    ((Operation.connect inputId outputId).apply backEdgeRefused).2.map Rejection.message =
      some "ERR_EDGE_ALREADY_EXISTS: edge already exists" ∧
    (Operation.undo.apply backEdgeRefused).1.present.lastError = none ∧
    (Operation.redo.apply backEdgeRefused).2.map Rejection.message = some "nothing to redo" := by
  have hreached : Reached backEdgeRefused := ((Reached.new _ 200).operation _).operation _
  obtain ⟨-, -, -, hsame⟩ := rejection_law hreached (.move inputId 80 120)
  obtain ⟨hconnect, -, -, -⟩ := rejection_law hreached (.connect inputId outputId)
  obtain ⟨-, -, hundo, -⟩ := rejection_law hreached .undo
  obtain ⟨hredo, -, -, -⟩ := rejection_law hreached .redo
  obtain ⟨next, -, hclear, hmove⟩ := hsame _ (backEdgeRefused.present.apply (.moveNode inputId 80 120))
    rfl rfl (by decide)
  refine ⟨hreached, by decide, ⟨next, hmove, hclear⟩, (hconnect _).2 (.inl ?_), hundo rfl,
    (hredo _).2 (.inr (.inr ⟨rfl, rfl, rfl⟩))⟩
  exact ⟨.connect inputId outputId, .edgeAlreadyExists, rfl, rfl, rfl⟩

end Cli

end Pedalboard
