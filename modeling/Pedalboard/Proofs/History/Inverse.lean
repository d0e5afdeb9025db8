import Mathlib
import Pedalboard.Proofs.History.Bounds

/-!
# Going back and forth in a history

**Moves** (`History.times`). Undoing and redoing are partial moves: each is possible as long as its
stack has a state. A move is made `k` times in a row exactly when its stack holds `k` states.

**Taking a move back** (`History.Quiet`). In a bounded history whose present shows no error, redoing
takes one undoing back, and undoing takes one redoing back; the history is the same to the last
stacked state, because a move drops nothing and stacks only what is without an error already. What
takes each single move back takes back any number of them (`times_reverse`).

**Theorem (`undo_redo_inverse`).** So `k` redoings take `k` undoings back, and the other way round,
at every point of every run. The one thing that does not come back is the error of the present,
which the first move drops.
-/

namespace Pedalboard.History

variable {h g : History} {move back : History → Option History} {k : Nat}

/-! ## Moves made several times -/

/-- The history after a move is made `k` times, if it is possible each time. -/
def times (move : History → Option History) : Nat → History → Option History
  | 0, h => some h
  | k + 1, h => (move h).bind (times move k)

/-- The last of several moves, set apart from those before it. -/
theorem times_succ_last (move : History → Option History) (k : Nat) (h : History) :
    times move (k + 1) h = (times move k h).bind move := by
  induction k generalizing h with
  | zero => simp [times]
  | succ k ih =>
    rw [times]
    cases hmove : move h with
    | none => simp [times, hmove]
    | some next => simpa [times, hmove] using ih next

/-- **What takes a move back takes back any number of them.** -/
theorem times_reverse {P : History → Prop} (hkeep : ∀ {h g}, P h → move h = some g → P g)
    (hback : ∀ {h g}, P h → move h = some g → back g = some h) (hh : P h)
    (hg : times move k h = some g) : times back k g = some h := by
  induction k generalizing h with
  | zero =>
    cases hg
    rfl
  | succ k ih =>
    obtain ⟨next, hnext, hrest⟩ := Option.bind_eq_some_iff.1 hg
    rw [times_succ_last, ih (hkeep hh hnext) hrest]
    exact hback hh hnext

/-- A move that takes one state off a stack is possible as often as the stack has states. -/
theorem exists_times_iff {P : History → Prop} (stack : History → List State)
    (hempty : ∀ {h}, stack h = [] → move h = none)
    (hmove : ∀ {h s rest}, P h → stack h = s :: rest → ∃ g, move h = some g ∧ P g ∧ stack g = rest)
    (hh : P h) : (∃ g, times move k h = some g) ↔ k ≤ (stack h).length := by
  induction k generalizing h with
  | zero => simp [times]
  | succ k ih =>
    cases hstack : stack h with
    | nil => simp [times, hempty hstack]
    | cons s rest =>
      obtain ⟨next, hnext, hkept, rfl⟩ := hmove hh hstack
      rw [times, hnext, Option.bind_some, ih hkept, List.length_cons, Nat.add_le_add_iff_right]

/-! ## Single moves -/

/-- The history with the error of the present dropped. -/
def settle (h : History) : History := { h with present := h.present.withoutError }

/-- A bounded history whose present shows no error. -/
structure Quiet (h : History) : Prop where
  bounded : h.Bounded
  present : h.present.lastError = none

theorem Bounded.quiet_settle (hb : h.Bounded) : h.settle.Quiet :=
  ⟨⟨hb.limit_pos, hb.fits, hb.settled⟩, rfl⟩

/-- A move stacks the present without its error, so it does not see whether there was one. -/
theorem times_settle (hmove : ∀ h : History, move h.settle = move h) (hk : 0 < k) :
    times move k h.settle = times move k h := by
  obtain ⟨k, rfl⟩ := Nat.exists_eq_add_one_of_ne_zero hk.ne'
  rw [times, times, hmove]

/-- **Redoing takes an undoing back.** -/
theorem Quiet.undo (hq : h.Quiet) (hg : h.undo = some g) : g.Quiet ∧ g.redo = some h := by
  have hbounded : g.Bounded := hq.bounded.step (.undone hg)
  obtain ⟨previous, rest, hpast, rfl⟩ := hq.bounded.undo_eq_some hg
  have hprevious : previous.lastError = none := hq.bounded.settled _ (by simp [hpast])
  refine ⟨⟨hbounded, hprevious⟩, ?_⟩
  rw [hbounded.redo_cons rfl, State.withoutError_eq_self hprevious,
    State.withoutError_eq_self hq.present, ← hpast]

/-- **Undoing takes a redoing back.** -/
theorem Quiet.redo (hq : h.Quiet) (hg : h.redo = some g) : g.Quiet ∧ g.undo = some h := by
  have hbounded : g.Bounded := hq.bounded.step (.redone hg)
  obtain ⟨next, rest, hfuture, rfl⟩ := hq.bounded.redo_eq_some hg
  have hnext : next.lastError = none := hq.bounded.settled _ (by simp [hfuture])
  refine ⟨⟨hbounded, hnext⟩, ?_⟩
  rw [hbounded.undo_cons rfl, State.withoutError_eq_self hnext,
    State.withoutError_eq_self hq.present, ← hfuture]

/-! ## Several moves -/

/-- Any number of undoings is taken back by as many redoings. -/
theorem Bounded.redo_times_undo (hb : h.Bounded) (hk : 0 < k) (hg : times undo k h = some g) :
    times redo k g = some h.settle := by
  rw [← times_settle (fun _ => rfl) hk] at hg
  exact times_reverse (fun hq hg => (hq.undo hg).1) (fun hq hg => (hq.undo hg).2) hb.quiet_settle hg

/-- Any number of redoings is taken back by as many undoings. -/
theorem Bounded.undo_times_redo (hb : h.Bounded) (hk : 0 < k) (hg : times redo k h = some g) :
    times undo k g = some h.settle := by
  rw [← times_settle (fun _ => rfl) hk] at hg
  exact times_reverse (fun hq hg => (hq.redo hg).1) (fun hq hg => (hq.redo hg).2) hb.quiet_settle hg

theorem Bounded.exists_times_undo_iff (hb : h.Bounded) :
    (∃ g, times undo k h = some g) ↔ k ≤ h.past.length := by
  refine exists_times_iff past (fun hpast => by simp [undo, hpast]) ?_ hb
  intro h previous rest hb hpast
  have hundo := hb.undo_cons hpast
  exact ⟨_, hundo, hb.step (.undone hundo), rfl⟩

theorem Bounded.exists_times_redo_iff (hb : h.Bounded) :
    (∃ g, times redo k h = some g) ↔ k ≤ h.future.length := by
  refine exists_times_iff future (fun hfuture => by simp [redo, hfuture]) ?_ hb
  intro h next rest hb hfuture
  have hredo := hb.redo_cons hfuture
  exact ⟨_, hredo, hb.step (.redone hredo), rfl⟩

/-- **Undoing and redoing are inverse**, any number of times, at every point of every run: both
stacks, the limit and the present come back as they were, but for the error of the present. Each is
possible as often as its stack has states. -/
theorem undo_redo_inverse (initial : State) (limit : Nat) (commands : List Command) (k : Nat)
    (hk : 0 < k) :
    let h := (new initial limit).applyAll commands
    ((∃ g, times undo k h = some g) ↔ k ≤ h.past.length) ∧
    (∀ g, times undo k h = some g →
      times redo k g = some { h with present := h.present.withoutError }) ∧
    ((∃ g, times redo k h = some g) ↔ k ≤ h.future.length) ∧
    ∀ g, times redo k h = some g →
      times undo k g = some { h with present := h.present.withoutError } := by
  intro h
  have hb : h.Bounded := (bounded_new initial limit).applyAll commands
  exact ⟨hb.exists_times_undo_iff, fun g hg => hb.redo_times_undo hk hg,
    hb.exists_times_redo_iff, fun g hg => hb.undo_times_redo hk hg⟩

/-- Three recorded moves, one more than the past can hold, and an edit that is refused. -/
def overfullRun : List Command :=
  [.edit (.moveNode inputId 1 0) true, .edit (.moveNode inputId 2 0) true,
    .edit (.moveNode inputId 3 0) true, .edit (.removeNode inputId) true]

theorem undo_redo_inverse_overfullRun :
    let h := (new (State.initial 3) 2).applyAll overfullRun
    let u := (new (State.initial 3) 2).applyAll
      (overfullRun ++ [.undo, .undo, .edit (.removeNode inputId) true])
    h.present.lastError = some .ioNodeRequired ∧ u.present.lastError = some .ioNodeRequired ∧
    (∃ g, times undo 2 h = some g ∧
      times redo 2 g = some { h with present := h.present.withoutError }) ∧
    ∃ g, times redo 2 u = some g ∧
      times undo 2 g = some { u with present := u.present.withoutError } := by
  intro h u
  obtain ⟨hundo, hredone, -, -⟩ :=
    undo_redo_inverse (State.initial 3) 2 overfullRun 2 (by decide)
  obtain ⟨-, -, hredo, hundone⟩ := undo_redo_inverse (State.initial 3) 2
    (overfullRun ++ [.undo, .undo, .edit (.removeNode inputId) true]) 2 (by decide)
  obtain ⟨g, hg⟩ := hundo.2 (by decide)
  obtain ⟨g', hg'⟩ := hredo.2 (by decide)
  exact ⟨by decide, by decide, ⟨g, hg, hredone g hg⟩, g', hg', hundone g' hg'⟩

end Pedalboard.History
