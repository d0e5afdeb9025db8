import Mathlib
import Pedalboard.History
import Pedalboard.Proofs.Graph.Invariant

/-!
# The stacks of a history

**Commands** (`History.Step`). What a command does: it replaces the present only, it records, it
moves one state between the stacks, or it does nothing. `recorded?` tells which commands record.

**The joint bound** (`History.Bounded`). The two stacks *together* hold at most `limit` states, and
no stacked state carries an error. Recording empties the future and trims the past; undoing and
redoing take a state from one stack and put one on the other, so the sum stays and the stack that
grows is never trimmed.

**Room** (`withRoom`). What a history loses for lack of room is what it would keep if its limit
were greater. `apply_withRoom` compares the two: a command does the same in both, unless it records
while the past is full, and then the oldest state of the past is all that differs.

**Theorem (`stacks_bounded`).** All this holds at every point of every run, and a run keeps the
invariant of graph states in the present and in both stacks.
-/

namespace Pedalboard.History

/-- The history after a list of commands. -/
def applyAll (h : History) (commands : List Command) : History := commands.foldl apply h

/-! ## What a command does -/

/-- The present that a command records over the old one, if it records. -/
def recorded? (h : History) : Command → Option State
  | .edit a tracked =>
    let next := h.present.apply a
    if next.lastError.isSome || !tracked || a.isNavigation || next.sameGraph h.present then none
    else some next
  | .reset => some (State.initial h.present.nodeLimit)
  | .replace s true => some s.withoutError
  | .replace _ false | .undo | .redo => none

/-- What a command makes of a history. -/
inductive Step (h : History) : Command → History → Prop
  | recorded {c : Command} {next : State} : h.recorded? c = some next → Step h c (h.record next)
  /-- An edit that is not recorded changes the present, or nothing. -/
  | edited {a : Action} {tracked : Bool} {next : State} :
      next = h.present ∨ next = h.present.apply a → Step h (.edit a tracked) { h with present := next }
  | replaced (s : State) :
      Step h (.replace s false) { h with present := s.withoutError, future := [] }
  | undone {g : History} : h.undo = some g → Step h .undo g
  | redone {g : History} : h.redo = some g → Step h .redo g
  | idle {c : Command} : c = .undo ∧ h.undo = none ∨ c = .redo ∧ h.redo = none → Step h c h

variable {h g : History} {c : Command} {s next : State}

theorem edit_of_recorded {a : Action} {tracked : Bool} (hc : h.recorded? (.edit a tracked) = some next) :
    h.edit a tracked = h.record next := by
  simp only [recorded?] at hc
  split_ifs at hc with hskip
  obtain rfl := Option.some.inj hc
  simp only [Bool.or_eq_true, not_or, Bool.not_eq_true] at hskip
  obtain ⟨⟨⟨herror, htracked⟩, hnavigation⟩, hsame⟩ := hskip
  simp [edit, herror, htracked, hnavigation, hsame]

/-- An edit that is not recorded looks at the present only, and changes nothing else. -/
theorem edit_of_not_recorded {a : Action} {tracked : Bool}
    (hc : h.recorded? (.edit a tracked) = none) :
    ∃ next, (next = h.present ∨ next = h.present.apply a) ∧
      ∀ g : History, g.present = h.present → g.edit a tracked = { g with present := next } := by
  simp only [recorded?] at hc
  split_ifs at hc with hskip
  -- Either the edit is not of the kind that is recorded, or it left the graph as it was; then it is
  -- of use only if it cleared an error.
  by_cases hreplace : (h.present.apply a).lastError.isSome || !tracked || a.isNavigation
  · exact ⟨_, .inr rfl, fun g hg => by rw [edit, hg, if_pos hreplace]⟩
  · have hsame : (h.present.apply a).sameGraph h.present := by simp_all
    by_cases herror : h.present.lastError.isSome
    · exact ⟨_, .inr rfl, fun g hg => by rw [edit, hg, if_neg hreplace, if_pos hsame, if_pos herror]⟩
    · refine ⟨_, .inl rfl, fun g hg => ?_⟩
      rw [edit, hg, if_neg hreplace, if_pos hsame, if_neg herror, ← hg]

/-- **A command that records does nothing else.** -/
theorem apply_of_recorded (hc : h.recorded? c = some next) : h.apply c = h.record next := by
  cases c with
  | edit a tracked => exact edit_of_recorded hc
  | undo | redo => cases hc
  | reset =>
    cases hc
    rfl
  | replace s tracked =>
    cases tracked <;> cases hc
    rfl

theorem step_apply (h : History) (c : Command) : Step h c (h.apply c) := by
  cases hc : h.recorded? c with
  | some next => exact apply_of_recorded hc ▸ .recorded hc
  | none =>
    cases c with
    | edit a tracked =>
      obtain ⟨next, hnext, heq⟩ := edit_of_not_recorded hc
      rw [apply, heq h rfl]
      exact .edited hnext
    | undo =>
      rw [apply]
      cases hg : h.undo with
      | none => exact .idle (.inl ⟨rfl, hg⟩)
      | some g => exact .undone hg
    | redo =>
      rw [apply]
      cases hg : h.redo with
      | none => exact .idle (.inr ⟨rfl, hg⟩)
      | some g => exact .redone hg
    | reset => cases hc
    | replace s tracked =>
      cases tracked
      · exact .replaced s
      · cases hc

/-! ## The joint bound -/

structure Bounded (h : History) : Prop where
  limit_pos : 0 < h.limit
  fits : h.past.length + h.future.length ≤ h.limit
  settled : ∀ s ∈ h.past ++ h.future, s.lastError = none

theorem bounded_new (initial : State) (limit : Nat) : (new initial limit).Bounded :=
  ⟨Nat.le_max_right limit 1, Nat.zero_le _, by simp [new]⟩

theorem length_push_le (h : History) (s : State) : (h.push s).length ≤ h.limit :=
  List.length_take_le _ _

theorem mem_push (hs : s ∈ h.push next) : s = next.withoutError ∨ s ∈ h.past :=
  List.mem_cons.1 (List.mem_of_mem_take hs)

/-- There is room on the past for one more state. -/
theorem push_of_lt (hroom : h.past.length < h.limit) (s : State) :
    h.push s = s.withoutError :: h.past := List.take_of_length_le hroom

/-- **Undoing drops nothing.** The state that it takes off the past makes the room. -/
theorem Bounded.undo_cons {previous : State} {rest : List State} (hb : h.Bounded)
    (hpast : h.past = previous :: rest) :
    h.undo = some { h with
      past := rest, present := previous, future := h.present.withoutError :: h.future } := by
  have hfits := hb.fits
  rw [hpast, List.length_cons] at hfits
  have hkeep : (h.present.withoutError :: h.future).take h.limit =
      h.present.withoutError :: h.future :=
    List.take_of_length_le (by rw [List.length_cons]; omega)
  simp [undo, hpast, hkeep]

/-- **Redoing drops nothing.** -/
theorem Bounded.redo_cons {rest : List State} (hb : h.Bounded) (hfuture : h.future = next :: rest) :
    h.redo = some { h with
      past := h.present.withoutError :: h.past, present := next, future := rest } := by
  have hfits := hb.fits
  rw [hfuture, List.length_cons] at hfits
  have hkeep := push_of_lt (h := h) (by omega) h.present
  simp [redo, hfuture, hkeep]

/-- What undoing does, in a bounded history. -/
theorem Bounded.undo_eq_some (hb : h.Bounded) (hg : h.undo = some g) :
    ∃ previous rest, h.past = previous :: rest ∧ g = { h with
      past := rest, present := previous, future := h.present.withoutError :: h.future } := by
  cases hpast : h.past with
  | nil => simp [undo, hpast] at hg
  | cons previous rest =>
    rw [hb.undo_cons hpast] at hg
    exact ⟨previous, rest, rfl, (Option.some.inj hg).symm⟩

/-- What redoing does, in a bounded history. -/
theorem Bounded.redo_eq_some (hb : h.Bounded) (hg : h.redo = some g) :
    ∃ next rest, h.future = next :: rest ∧ g = { h with
      past := h.present.withoutError :: h.past, present := next, future := rest } := by
  cases hfuture : h.future with
  | nil => simp [redo, hfuture] at hg
  | cons next rest =>
    rw [hb.redo_cons hfuture] at hg
    exact ⟨next, rest, rfl, (Option.some.inj hg).symm⟩

/-- It is enough that what is stacked was stacked before, or is the old present. -/
theorem Bounded.of_stacked (hb : h.Bounded) (hlimit : g.limit = h.limit)
    (hfits : g.past.length + g.future.length ≤ g.limit)
    (hstacked : ∀ s ∈ g.past ++ g.future, s = h.present.withoutError ∨ s ∈ h.past ++ h.future) :
    g.Bounded := by
  refine ⟨hlimit ▸ hb.limit_pos, hfits, fun s hs => ?_⟩
  rcases hstacked s hs with rfl | hs
  · rfl
  · exact hb.settled s hs

theorem Bounded.step (hb : h.Bounded) (hstep : Step h c g) : g.Bounded := by
  have hfits := hb.fits
  cases hstep with
  | recorded =>
    -- The future is empty now, so that trimming the past is enough.
    refine hb.of_stacked rfl (length_push_le h h.present) fun s hs => ?_
    exact (mem_push (List.append_nil (h.push h.present) ▸ hs)).imp_right (List.mem_append_left _)
  | edited => exact ⟨hb.limit_pos, hfits, hb.settled⟩
  | replaced =>
    refine hb.of_stacked rfl ((Nat.le_add_right _ _).trans hfits) fun s hs => ?_
    exact .inr (List.mem_append_left _ (List.append_nil h.past ▸ hs))
  | undone hg =>
    obtain ⟨previous, rest, hpast, rfl⟩ := hb.undo_eq_some hg
    rw [hpast, List.length_cons] at hfits
    refine hb.of_stacked rfl (by simp only [List.length_cons]; omega) fun s hs => ?_
    simp only [List.mem_append, List.mem_cons, hpast] at hs ⊢
    tauto
  | redone hg =>
    obtain ⟨next, rest, hfuture, rfl⟩ := hb.redo_eq_some hg
    rw [hfuture, List.length_cons] at hfits
    refine hb.of_stacked rfl (by simp only [List.length_cons]; omega) fun s hs => ?_
    simp only [List.mem_append, List.mem_cons, hfuture] at hs ⊢
    tauto
  | idle => exact hb

/-! ## Room -/

/-- The same history with another limit. -/
def withRoom (h : History) (limit : Nat) : History := { h with limit }

@[simp] theorem recorded?_withRoom (h : History) (limit : Nat) (c : Command) :
    (h.withRoom limit).recorded? c = h.recorded? c := by
  cases c with
  | replace s tracked => cases tracked <;> rfl
  | _ => rfl

/-- With more room, recording keeps the whole past. -/
theorem record_withRoom {limit : Nat} (hb : h.Bounded) (hroom : h.limit < limit) (next : State) :
    (h.withRoom limit).record next =
      { (h.record next).withRoom limit with past := h.present.withoutError :: h.past } := by
  have hlt : (h.withRoom limit).past.length < (h.withRoom limit).limit :=
    (Nat.le_add_right _ _).trans_lt (hb.fits.trans_lt hroom)
  rw [record, push_of_lt hlt]
  rfl

/-- **More room makes no difference** to a command that does not record. -/
theorem apply_withRoom_of_not_recorded {limit : Nat} (hb : h.Bounded) (hroom : h.limit < limit)
    (hc : h.recorded? c = none) : (h.withRoom limit).apply c = (h.apply c).withRoom limit := by
  have hwide : (h.withRoom limit).Bounded :=
    ⟨hb.limit_pos.trans hroom, hb.fits.trans hroom.le, hb.settled⟩
  cases c with
  | edit a tracked =>
    obtain ⟨next, -, heq⟩ := edit_of_not_recorded hc
    rw [apply, apply, heq h rfl, heq (h.withRoom limit) rfl]
    rfl
  | undo =>
    cases hpast : h.past with
    | nil => simp [apply, undo, withRoom, hpast]
    | cons previous rest =>
      rw [apply, apply, hb.undo_cons hpast, hwide.undo_cons hpast]
      rfl
  | redo =>
    cases hfuture : h.future with
    | nil => simp [apply, redo, withRoom, hfuture]
    | cons next rest =>
      rw [apply, apply, hb.redo_cons hfuture, hwide.redo_cons hfuture]
      rfl
  | reset => cases hc
  | replace s tracked =>
    cases tracked
    · rfl
    · cases hc

/-- The past is full, and a state is pushed: the oldest state gives way, and no other. -/
theorem exists_push_of_full (hpos : 0 < h.limit) (hfull : h.past.length = h.limit) (s : State) :
    ∃ rest oldest, h.past = rest ++ [oldest] ∧ h.push s = s.withoutError :: rest := by
  have hne : h.past ≠ [] := List.ne_nil_of_length_pos (hfull ▸ hpos)
  refine ⟨h.past.dropLast, h.past.getLast hne, (List.dropLast_append_getLast hne).symm, ?_⟩
  rw [push, List.take_cons hpos, ← hfull, List.dropLast_eq_take]

/-- **Only the oldest state of the past is ever lost for lack of room**, and only when a command
records. -/
theorem Bounded.apply_withRoom {limit : Nat} (hb : h.Bounded) (hroom : h.limit < limit)
    (c : Command) :
    (h.withRoom limit).apply c = (h.apply c).withRoom limit ∨
    ∃ next rest oldest, h.recorded? c = some next ∧ h.apply c = h.record next ∧
      h.past.length = h.limit ∧ h.past = rest ++ [oldest] ∧
      (h.apply c).past = h.present.withoutError :: rest ∧
      (h.withRoom limit).apply c =
        { (h.apply c).withRoom limit with past := h.present.withoutError :: h.past } := by
  cases hc : h.recorded? c with
  | none => exact .inl (apply_withRoom_of_not_recorded hb hroom hc)
  | some next =>
    have hwide : (h.withRoom limit).apply c =
        { (h.record next).withRoom limit with past := h.present.withoutError :: h.past } := by
      rw [apply_of_recorded ((recorded?_withRoom h limit c).trans hc), record_withRoom hb hroom]
    rw [apply_of_recorded hc, hwide]
    have hfits : h.past.length ≤ h.limit := (Nat.le_add_right _ _).trans hb.fits
    rcases hfits.lt_or_eq with hlt | hfull
    · left
      simp [record, withRoom, push_of_lt hlt]
    · obtain ⟨rest, oldest, hpast, hpush⟩ := exists_push_of_full hb.limit_pos hfull h.present
      exact .inr ⟨next, rest, oldest, rfl, rfl, hfull, hpast, hpush, rfl⟩

/-! ## Properties of every state in a history -/

/-- A property of states that new boards have, and that edits and clearing the error keep. -/
structure Kept (P : State → Prop) : Prop where
  initial : ∀ limit, P (State.initial limit)
  edit : ∀ s a, P s → P (s.apply a)
  withoutError : ∀ s, P s → P s.withoutError

theorem kept_wellFormed : Kept State.WellFormed :=
  ⟨State.wellFormed_initial, fun _ a hs => hs.apply a, fun _ hs => { hs with }⟩

/-- The present and every stacked state have a property. -/
def All (P : State → Prop) (h : History) : Prop := P h.present ∧ ∀ s ∈ h.past ++ h.future, P s

variable {P : State → Prop}

theorem recorded_of_all (hk : Kept P) (hall : h.All P)
    (hreplace : ∀ s tracked, c = .replace s tracked → P s) (hc : h.recorded? c = some next) :
    P next := by
  cases c with
  | edit a tracked =>
    simp only [recorded?] at hc
    split_ifs at hc
    exact Option.some.inj hc ▸ hk.edit _ a hall.1
  | undo | redo => cases hc
  | reset =>
    cases hc
    exact hk.initial _
  | replace s tracked =>
    cases tracked <;> cases hc
    exact hk.withoutError s (hreplace s true rfl)

/-- **A command keeps a property of all states**, if the state that it brings in has it. -/
theorem Step.all (hk : Kept P) (hb : h.Bounded) (hall : h.All P)
    (hreplace : ∀ s tracked, c = .replace s tracked → P s) (hstep : Step h c g) : g.All P := by
  obtain ⟨hpresent, hstacked⟩ := hall
  have hsettled : P h.present.withoutError := hk.withoutError _ hpresent
  cases hstep with
  | recorded hc =>
    refine ⟨recorded_of_all hk ⟨hpresent, hstacked⟩ hreplace hc, fun s hs => ?_⟩
    rcases mem_push (List.append_nil (h.push h.present) ▸ hs) with rfl | hs
    · exact hsettled
    · exact hstacked s (List.mem_append_left _ hs)
  | edited hnext =>
    refine ⟨?_, hstacked⟩
    rcases hnext with rfl | rfl
    · exact hpresent
    · exact hk.edit _ _ hpresent
  | replaced s =>
    refine ⟨hk.withoutError s (hreplace s false rfl), fun t ht => ?_⟩
    exact hstacked t (List.mem_append_left _ (List.append_nil h.past ▸ ht))
  | undone hg =>
    obtain ⟨previous, rest, hpast, rfl⟩ := hb.undo_eq_some hg
    simp only [All, List.forall_mem_append, hpast, List.forall_mem_cons] at hstacked ⊢
    tauto
  | redone hg =>
    obtain ⟨next, rest, hfuture, rfl⟩ := hb.redo_eq_some hg
    simp only [All, List.forall_mem_append, hfuture, List.forall_mem_cons] at hstacked ⊢
    tauto
  | idle => exact ⟨hpresent, hstacked⟩

/-! ## Runs -/

theorem Bounded.applyAll (hb : h.Bounded) (commands : List Command) :
    (h.applyAll commands).Bounded := by
  induction commands generalizing h with
  | nil => exact hb
  | cons c commands ih => exact ih (hb.step (step_apply h c))

theorem Step.limit_eq (hb : h.Bounded) (hstep : Step h c g) : g.limit = h.limit := by
  cases hstep with
  | undone hg =>
    obtain ⟨_, _, -, rfl⟩ := hb.undo_eq_some hg
    rfl
  | redone hg =>
    obtain ⟨_, _, -, rfl⟩ := hb.redo_eq_some hg
    rfl
  | _ => rfl

theorem Bounded.limit_applyAll (hb : h.Bounded) (commands : List Command) :
    (h.applyAll commands).limit = h.limit := by
  induction commands generalizing h with
  | nil => rfl
  | cons c commands ih =>
    have hstep := step_apply h c
    exact (ih (hb.step hstep)).trans (hstep.limit_eq hb)

theorem All.applyAll (hk : Kept P) (hb : h.Bounded) (hall : h.All P) {commands : List Command}
    (hreplace : ∀ s tracked, Command.replace s tracked ∈ commands → P s) :
    (h.applyAll commands).All P := by
  induction commands generalizing h with
  | nil => exact hall
  | cons c commands ih =>
    have hstep := step_apply h c
    refine ih (hb.step hstep) (hstep.all hk hb hall fun s tracked hc => ?_) fun s tracked hs => ?_
    · exact hreplace s tracked (hc ▸ List.mem_cons_self)
    · exact hreplace s tracked (List.mem_cons_of_mem _ hs)

/-- **The stacks together respect the limit, and lose nothing but the oldest past.** At every point
of every run: no stacked state carries an error; undoing and redoing drop nothing; what a command
would keep with more room is what it keeps, but for the oldest state of a full past when it
records; and graphs stay graphs. -/
theorem stacks_bounded (initial : State) (limit : Nat) (commands : List Command) :
    let h := (new initial limit).applyAll commands
    h.limit = max limit 1 ∧
    h.past.length + h.future.length ≤ h.limit ∧
    (∀ s ∈ h.past ++ h.future, s.lastError = none) ∧
    (∀ g, h.undo = some g → g.future = h.present.withoutError :: h.future) ∧
    (∀ g, h.redo = some g → g.past = h.present.withoutError :: h.past) ∧
    (∀ c room, h.limit < room →
      (h.withRoom room).apply c = (h.apply c).withRoom room ∨
      ∃ next rest oldest, h.recorded? c = some next ∧ h.apply c = h.record next ∧
        h.past.length = h.limit ∧ h.past = rest ++ [oldest] ∧
        (h.apply c).past = h.present.withoutError :: rest ∧
        (h.withRoom room).apply c =
          { (h.apply c).withRoom room with past := h.present.withoutError :: h.past }) ∧
    (initial.WellFormed → (∀ s tracked, Command.replace s tracked ∈ commands → s.WellFormed) →
      h.present.WellFormed ∧ ∀ s ∈ h.past ++ h.future, s.WellFormed) := by
  intro h
  have hnew := bounded_new initial limit
  have hb : h.Bounded := hnew.applyAll commands
  refine ⟨hnew.limit_applyAll commands, hb.fits, hb.settled, fun g hg => ?_, fun g hg => ?_,
    fun c room hroom => hb.apply_withRoom hroom c, fun hinitial hreplace => ?_⟩
  · obtain ⟨_, _, -, rfl⟩ := hb.undo_eq_some hg
    rfl
  · obtain ⟨_, _, -, rfl⟩ := hb.redo_eq_some hg
    rfl
  · refine All.applyAll kept_wellFormed hnew ⟨kept_wellFormed.withoutError _ hinitial, ?_⟩ hreplace
    simp [new]

/-- Two recorded moves, a tracked replacement that finds the past full, a step back, and an edit
that is refused. -/
def crowdedRun : List Command :=
  [.edit (.moveNode inputId 1 0) true, .edit (.moveNode inputId 2 0) true,
    .replace (State.initial 9) true, .undo, .edit (.removeNode inputId) true]

theorem stacks_bounded_crowdedRun :
    let h := (new (State.initial 3) 2).applyAll crowdedRun
    h.past.length = 1 ∧ h.future.length = 1 ∧ h.present.lastError = some .ioNodeRequired ∧
    (∀ s ∈ h.past ++ h.future, s.lastError = none ∧ s.WellFormed) := by
  intro h
  obtain ⟨-, -, hsettled, -, -, -, hgraphs⟩ := stacks_bounded (State.initial 3) 2 crowdedRun
  obtain ⟨-, hstacked⟩ := hgraphs (State.wellFormed_initial 3) fun s tracked hs => by
    simp only [crowdedRun, List.mem_cons, Command.replace.injEq, reduceCtorEq, false_or, or_false,
      List.not_mem_nil] at hs
    exact hs.1 ▸ State.wellFormed_initial 9
  exact ⟨by decide, by decide, by decide, fun s hs => ⟨hsettled s hs, hstacked s hs⟩⟩

end Pedalboard.History
