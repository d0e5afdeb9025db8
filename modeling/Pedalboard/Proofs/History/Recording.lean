import Mathlib
import Pedalboard.Proofs.History.Bounds

/-!
# What a history records

**Recorded steps** (`History.Records`). An edit is recorded if it is tracked, carried out, not a
selection, and changes the graph; starting over is recorded always, replacing the state if it is
tracked.

**What recording does.** The old present goes on top of the past, without its error, and the future
is emptied. If the past is full its oldest state gives way (`History.kept`), so an undoing right
after gives back the old present and what was kept of the past.

**Theorem (`recording_law`).** At every point of every run the recorded steps do this, and the other
commands that are neither undoing nor redoing leave the past alone; those that are edits leave the
future alone as well.
-/

namespace Pedalboard

theorem Action.isNavigation_eq_false_iff {a : Action} :
    a.isNavigation = false ↔ ∀ id, a ≠ .selectNode id := by
  cases a <;> simp [isNavigation]

namespace History

variable {h : History} {c : Command} {s next : State}

/-! ## Which commands record -/

/-- The commands that record a step, each with the present that it brings. -/
inductive Records (h : History) : Command → State → Prop
  | edit {a : Action} {next : State} : h.present.attempt a = .ok next → (∀ id, a ≠ .selectNode id) →
      next.sameGraph h.present = false → Records h (.edit a true) next
  | reset : Records h .reset (State.initial h.present.nodeLimit)
  | replace (s : State) : Records h (.replace s true) s.withoutError

theorem recorded?_eq_some_iff : h.recorded? c = some next ↔ h.Records c next := by
  constructor
  · intro hc
    cases c with
    | edit a tracked =>
      simp only [recorded?] at hc
      split_ifs at hc with hskip
      simp only [Bool.or_eq_true, not_or, Bool.not_eq_true, Bool.not_eq_true', Bool.not_eq_false,
        Option.isSome_eq_false_iff, Option.isNone_iff_eq_none] at hskip
      obtain ⟨⟨⟨herror, rfl⟩, hnavigation⟩, hsame⟩ := hskip
      obtain rfl := Option.some.inj hc
      exact .edit (State.attempt_eq_ok_iff.2 ⟨herror, rfl⟩)
        (Action.isNavigation_eq_false_iff.1 hnavigation) hsame
    | undo | redo => cases hc
    | reset =>
      cases hc
      exact .reset
    | replace s tracked =>
      cases tracked <;> cases hc
      exact .replace s
  · rintro (⟨hok, hselect, hsame⟩ | _ | _)
    · obtain ⟨herror, rfl⟩ := State.attempt_eq_ok_iff.1 hok
      simp [recorded?, herror, Action.isNavigation_eq_false_iff.2 hselect, hsame]
    · rfl
    · rfl

/-! ## What recording does -/

/-- What a past keeps when a state is put on top of it: all, or all but the oldest state if there is
no room. -/
def kept (h : History) : List State :=
  if h.past.length < h.limit then h.past else h.past.dropLast

theorem Bounded.push_eq (hb : h.Bounded) (s : State) : h.push s = s.withoutError :: h.kept := by
  have hfits : h.past.length ≤ h.limit := (Nat.le_add_right _ _).trans hb.fits
  rcases hfits.lt_or_eq with hlt | hfull
  · rw [push_of_lt hlt, kept, if_pos hlt]
  · obtain ⟨rest, oldest, hpast, hpush⟩ := exists_push_of_full hb.limit_pos hfull s
    rw [hpush, kept, if_neg hfull.not_lt, hpast, List.dropLast_concat]

/-- Undoing a recorded step gives back the old present and what was kept of the past. -/
theorem Bounded.undo_record (hb : h.Bounded) (next : State) :
    (h.record next).undo = some
      { past := h.kept, present := h.present.withoutError, future := [next.withoutError],
        limit := h.limit } := by
  have hroom : [next.withoutError].take h.limit = [next.withoutError] :=
    List.take_of_length_le hb.limit_pos
  simp [undo, record, hb.push_eq, hroom]

/-- **An edit that is not recorded** leaves both stacks alone. -/
theorem apply_edit_of_not_records {a : Action} {tracked : Bool}
    (hc : ¬∃ next, h.Records (.edit a tracked) next) :
    ∃ next, h.apply (.edit a tracked) = { h with present := next } := by
  have hnone : h.recorded? (.edit a tracked) = none := by
    simpa [← recorded?_eq_some_iff, Option.eq_none_iff_forall_ne_some] using hc
  obtain ⟨next, -, hedit⟩ := edit_of_not_recorded hnone
  exact ⟨next, hedit h rfl⟩

/-- **Exactly the recorded steps can be undone.** At every point of every run: a command that
records puts the old present on the past without its error, drops the oldest state only if there is
no room, and empties the future, so that undoing it gives back the old present and what was kept of
the past; an edit that is not recorded leaves both stacks as they were; and a replacement that is
not tracked leaves the past as it was and empties the future. -/
theorem recording_law (initial : State) (limit : Nat) (commands : List Command) :
    let h := (new initial limit).applyAll commands
    (∀ c next, h.Records c next →
      h.apply c =
        { past := h.present.withoutError :: h.kept, present := next, future := [],
          limit := h.limit } ∧
      (h.apply c).undo = some
        { past := h.kept, present := h.present.withoutError, future := [next.withoutError],
          limit := h.limit }) ∧
    (∀ a tracked, (¬∃ next, h.Records (.edit a tracked) next) →
      (h.apply (.edit a tracked)).past = h.past ∧ (h.apply (.edit a tracked)).future = h.future) ∧
    ∀ s, (h.apply (.replace s false)).past = h.past ∧ (h.apply (.replace s false)).future = [] := by
  intro h
  have hb : h.Bounded := (bounded_new initial limit).applyAll commands
  refine ⟨fun c next hc => ?_, fun a tracked hc => ?_, fun s => ⟨rfl, rfl⟩⟩
  · rw [apply_of_recorded (recorded?_eq_some_iff.2 hc)]
    exact ⟨by rw [record, hb.push_eq], hb.undo_record next⟩
  · obtain ⟨next, hedit⟩ := apply_edit_of_not_records hc
    rw [hedit]
    exact ⟨rfl, rfl⟩

/-- Two recorded moves, which fill a past of two, and an edit that is refused. -/
def fullRun : List Command :=
  [.edit (.moveNode inputId 1 0) true, .edit (.moveNode inputId 2 0) true,
    .edit (.removeNode inputId) true]

/-- A third move takes the place of the oldest one; a selection is not recorded. -/
theorem recording_law_fullRun :
    let h := (new (State.initial 3) 2).applyAll fullRun
    let moved := h.apply (.edit (.moveNode inputId 3 0) true)
    let selected := h.apply (.edit (.selectNode (some inputId)) true)
    h.past.length = 2 ∧ h.present.lastError = some .ioNodeRequired ∧
    moved.undo = some { past := h.past.dropLast, present := h.present.withoutError,
                        future := [moved.present.withoutError], limit := 2 } ∧
    selected.past = h.past ∧ selected.future = h.future := by
  intro h moved selected
  obtain ⟨hrecorded, hother, -⟩ := recording_law (State.initial 3) 2 fullRun
  have hmove : h.Records (.edit (.moveNode inputId 3 0) true)
      (h.present.apply (.moveNode inputId 3 0)) :=
    .edit (State.attempt_eq_ok_iff.2 ⟨by decide, rfl⟩) (by simp) (by decide)
  have hselect : ¬∃ next, h.Records (.edit (.selectNode (some inputId)) true) next := by
    rintro ⟨next, _ | _⟩
    simp_all
  obtain ⟨happly, hundo⟩ := hrecorded _ _ hmove
  refine ⟨by decide, by decide, hundo.trans ?_, hother _ _ hselect⟩
  rw [show moved.present = _ from congrArg History.present happly]
  rfl

end History

end Pedalboard
