import Mathlib
import Pedalboard.Proofs.Preset.Records

/-!
# Requests to a stored list of presets

**Requests** (`Preset.Request`). To save a state under a name, or to delete a name: the list is
loaded, changed, and stored unless the change is refused.

**One request** (`Preset.change`). What a request makes of a list, in six cases; later proofs split on
these and do not look into the functions on lists.

**Requests on a memory** (`Preset.listAfter_of_ok`). What is loaded after any requests is what the
last of them made of the list before it, because no list in between is too long to be stored. The
answer to a request (`Preset.answer`) is that it was carried out, or the cause of the refusal.
-/

namespace Pedalboard.Preset

open Payload (serializeState)

/-! ## One request -/

/-- What is asked of a stored list of presets. -/
inductive Request
  | save (name : String) (s : State) (now : Nat)
  | delete (name : String)

namespace Request

/-- The list after a request, or the cause for which it is refused. -/
def on (presets : List Preset) : Request → Except StoreError (List Preset)
  | save name s now => upsert presets name s now
  | delete name => remove presets name

/-- Loads the list, and stores what the request makes of it. -/
def perform {m : Type → Type} [Monad m] (store : Store m) (r : Request) :
    ExceptT StoreError m Unit := ExceptT.mk do
  match r.on (← load store) with
  | .ok next => (Preset.save store next).run
  | .error e => return .error e

/-- The request is a save, at a time of 64 bits, of a state that occurs; or a deletion. -/
def Proper : Request → Prop
  | save _ s now => State.Reaches State.Opened s ∧ now < 2 ^ 64
  | delete _ => True

/-- The request saves a state with the given text under the given name. -/
def Saves (r : Request) (name text : String) (now : Nat) : Prop :=
  ∃ given s, r = .save given s now ∧ trimmed given = name ∧ serializeState s = .ok text

end Request

def names (presets : List Preset) : List String := presets.map (·.name)

variable {presets next : List Preset} {r : Request} {name given : String}

/-- A preset that is saved for the first time. -/
def fresh (name graph : String) (now : Nat) : Preset :=
  { id := "preset-" ++ toString now, name, createdAt := now, updatedAt := now, graph }

/-- What a request makes of a list. -/
inductive Change (presets : List Preset) : Request → Except StoreError (List Preset) → Prop
  | blank {given : String} {s : State} {now : Nat} :
      trimmed given = "" → Change presets (.save given s now) (.ok presets)
  | refused {given : String} {s : State} {now : Nat} {e : WireError} :
      trimmed given ≠ "" → serializeState s = .error e →
      Change presets (.save given s now) (.error (.contract e))
  | updated {given text : String} {s : State} {now : Nat} :
      trimmed given ≠ "" → serializeState s = .ok text → trimmed given ∈ names presets →
      Change presets (.save given s now) (.ok (replaceGraph (trimmed given) text now presets))
  | added {given text : String} {s : State} {now : Nat} :
      trimmed given ≠ "" → serializeState s = .ok text → trimmed given ∉ names presets →
      Change presets (.save given s now)
        (.ok ((fresh (trimmed given) text now :: presets).take maxPresets))
  | deleted {given : String} : trimmed given ∈ names presets →
      Change presets (.delete given) (.ok (presets.filter (·.name ≠ trimmed given)))
  | unknown {given : String} : trimmed given ∉ names presets →
      Change presets (.delete given) (.error (.presetNotFound (trimmed given)))

theorem any_name_eq : (presets.any fun p => p.name = name) = decide (name ∈ names presets) := by
  simp [names, List.any_eq]

/-- **A request does what one of the cases says.** -/
theorem change (presets : List Preset) (r : Request) : Change presets r (r.on presets) := by
  cases r with
  | save given s now =>
    simp only [Request.on, upsert, any_name_eq, String.isEmpty_iff]
    by_cases hblank : trimmed given = ""
    · rw [if_pos hblank]
      exact .blank hblank
    rw [if_neg hblank]
    cases htext : serializeState s with
    | error e => exact .refused hblank htext
    | ok text =>
      by_cases hname : trimmed given ∈ names presets
      · simp only [hname, decide_true, if_true]
        exact .updated hblank htext hname
      · simp only [hname, decide_false, Bool.false_eq_true, if_false]
        exact .added hblank htext hname
  | delete given =>
    simp only [Request.on, remove, any_name_eq]
    by_cases hname : trimmed given ∈ names presets
    · simpa [hname] using Change.deleted hname
    · simpa [hname] using Change.unknown hname

/-- A new graph leaves the names alone. -/
theorem names_replaceGraph (name text : String) (now : Nat) (presets : List Preset) :
    names (replaceGraph name text now presets) = names presets := by
  induction presets with
  | nil => rfl
  | cons p rest ih =>
    rw [replaceGraph]
    split
    · rfl
    · simpa [names] using ih

/-- If names differ, the first preset with a name is the only one. -/
theorem replaceGraph_eq_map {text : String} {now : Nat} (hnames : (names presets).Nodup) :
    replaceGraph name text now presets =
      presets.map fun p => if p.name = name then { p with graph := text, updatedAt := now } else p := by
  induction presets with
  | nil => rfl
  | cons p rest ih =>
    obtain ⟨hp, hrest⟩ := List.nodup_cons.1 hnames
    rw [replaceGraph, List.map_cons]
    split
    · rename_i hname
      refine congrArg _ ((List.map_id' rest).symm.trans (List.map_congr_left fun q hq => ?_))
      rw [if_neg]
      exact fun hq' => hp (List.mem_map.2 ⟨q, hq, hq'.trans hname.symm⟩)
    · rw [ih hrest]

theorem mem_replaceGraph {text : String} {now : Nat} {p : Preset}
    (h : p ∈ replaceGraph name text now presets) :
    p ∈ presets ∨ ∃ q ∈ presets, p = { q with graph := text, updatedAt := now } := by
  induction presets with
  | nil => exact .inl h
  | cons q rest ih =>
    rw [replaceGraph] at h
    split at h
    · rcases List.mem_cons.1 h with rfl | h
      · exact .inr ⟨q, List.mem_cons_self, rfl⟩
      · exact .inl (List.mem_cons_of_mem _ h)
    · rcases List.mem_cons.1 h with rfl | h
      · exact .inl List.mem_cons_self
      · refine (ih h).imp (List.mem_cons_of_mem _) ?_
        rintro ⟨q, hq, rfl⟩
        exact ⟨q, List.mem_cons_of_mem _ hq, rfl⟩

/-- The preset of a name in the list has the new graph and the new time. -/
theorem exists_mem_replaceGraph (text : String) (now : Nat) (h : name ∈ names presets) :
    ∃ p ∈ replaceGraph name text now presets, p.name = name ∧ p.graph = text ∧ p.updatedAt = now := by
  induction presets with
  | nil => simp [names] at h
  | cons q rest ih =>
    rw [replaceGraph]
    split
    · rename_i hname
      exact ⟨_, List.mem_cons_self, hname, rfl, rfl⟩
    · rename_i hname
      obtain ⟨p, hp, hsaved⟩ := ih ((List.mem_cons.1 h).resolve_left (Ne.symm hname))
      exact ⟨p, List.mem_cons_of_mem _ hp, hsaved⟩

/-- **What a request makes of a list can be stored**, if the list could be. -/
theorem Storable.on (h : Storable presets) (hr : r.Proper) (hok : r.on presets = .ok next) :
    Storable next := by
  have hchange := change presets r
  rw [hok] at hchange
  cases hchange with
  | blank => exact h
  | @updated given text s now _ _ _ =>
    have hnow : now < naturalBound := hr.2
    refine ⟨?_, fun p hp => ?_⟩
    · have hlength := congrArg List.length (names_replaceGraph (trimmed given) text now presets)
      simp only [names, List.length_map] at hlength
      exact hlength ▸ h.fits
    · rcases mem_replaceGraph hp with hp | ⟨q, hq, rfl⟩
      · exact h.timed p hp
      · exact ⟨(h.timed q hq).1, hnow⟩
  | @added given text s now _ _ _ =>
    have hnow : now < naturalBound := hr.2
    refine ⟨List.length_take_le _ _, fun p hp => ?_⟩
    rcases List.mem_cons.1 (List.mem_of_mem_take hp) with rfl | hp
    · exact ⟨hnow, hnow⟩
    · exact h.timed p hp
  | deleted =>
    exact ⟨(List.length_filter_le _ _).trans h.fits, fun p hp => h.timed p (List.mem_of_mem_filter hp)⟩

/-! ## Requests on a memory -/

/-- The memory after requests, which is empty at first. -/
def memoryAfter (requests : List Request) : Memory :=
  requests.foldl (fun memory r => ((r.perform Store.memory).run.run memory).2) .empty

/-- The answer to one more request. -/
def answer (requests : List Request) (r : Request) : Except StoreError Unit :=
  ((r.perform Store.memory).run.run (memoryAfter requests)).1

/-- The list that is loaded after requests. -/
def listAfter (requests : List Request) : List Preset := loaded (memoryAfter requests)

theorem run_perform (memory : Memory) (r : Request) :
    (r.perform Store.memory).run.run memory =
      match r.on (loaded memory) with
      | .ok next => (.ok (), memory.insert presetsKey (text next))
      | .error e => (.error e, memory) := by
  rw [Request.perform, ExceptT.run_mk, StateT.run_bind, run_load, ← loaded_eq]
  simp only [bind]
  cases r.on (loaded memory) <;> rfl

variable {requests : List Request}

theorem memoryAfter_concat (requests : List Request) (r : Request) :
    memoryAfter (requests ++ [r]) = ((r.perform Store.memory).run.run (memoryAfter requests)).2 := by
  rw [memoryAfter, List.foldl_append]
  rfl

theorem answer_of_ok (hok : r.on (listAfter requests) = .ok next) : answer requests r = .ok () := by
  rw [answer, run_perform, ← listAfter, hok]

theorem answer_of_error {e : StoreError} (he : r.on (listAfter requests) = .error e) :
    answer requests r = .error e := by
  rw [answer, run_perform, ← listAfter, he]

/-- A request that is refused leaves everything as it is. -/
theorem memoryAfter_of_error {e : StoreError} (he : r.on (listAfter requests) = .error e) :
    memoryAfter (requests ++ [r]) = memoryAfter requests := by
  rw [memoryAfter_concat, run_perform, ← listAfter, he]

theorem listAfter_of_error {e : StoreError} (he : r.on (listAfter requests) = .error e) :
    listAfter (requests ++ [r]) = listAfter requests := by
  rw [listAfter, memoryAfter_of_error he, listAfter]

/-- What a request makes of the list that is loaded is what is loaded next, if it can be stored. -/
theorem Storable.listAfter_of_ok (h : Storable next) (hok : r.on (listAfter requests) = .ok next) :
    listAfter (requests ++ [r]) = next := by
  rw [listAfter, memoryAfter_concat, run_perform, ← listAfter, hok]
  exact h.loaded_insert (memoryAfter requests)

theorem storable_listAfter (hproper : ∀ r ∈ requests, r.Proper) : Storable (listAfter requests) := by
  induction requests using List.reverseRecOn with
  | nil => exact ⟨Nat.zero_le _, by simp [listAfter, loaded_eq, memoryAfter, Keyed.get?, Keyed.empty]⟩
  | append_singleton requests r ih =>
    have hbefore := ih fun q hq => hproper q (List.mem_append_left _ hq)
    cases hon : r.on (listAfter requests) with
    | error e => exact listAfter_of_error hon ▸ hbefore
    | ok next =>
      have hnext := hbefore.on (hproper r (by simp)) hon
      exact (hnext.listAfter_of_ok hon).symm ▸ hnext

/-- **What is loaded is what the last request made of it**, unless that was refused. -/
theorem listAfter_of_ok (hproper : ∀ q ∈ requests ++ [r], q.Proper)
    (hok : r.on (listAfter requests) = .ok next) : listAfter (requests ++ [r]) = next := by
  have hbefore := storable_listAfter fun q hq => hproper q (List.mem_append_left _ hq)
  exact (hbefore.on (hproper r (by simp)) hok).listAfter_of_ok hok

end Pedalboard.Preset
