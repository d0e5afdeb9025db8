import Mathlib
import Pedalboard.Proofs.Preset.Requests
import Pedalboard.Proofs.Wire.Loading
import Pedalboard.Proofs.Wire.RoundTrip

/-!
# What becomes of a list of presets

**Entries** (`Preset.Entry`). A preset with the two requests that it comes from: the save that made
it, and the latest save under its name. `Entry.Stands` says what the preset has from each of them, and
that its name has been in the list since it was made.

**The invariant** (`Preset.Inv`). After any requests the list is a list of presets that stand, under
different names and with the latest made first. One lemma for each way in which a request changes
a list: entries stay, one gets a new graph, one comes in front, or one goes.

**Theorem (`runs_law`).** The invariant, what it says about names and loading, and what the next
request does.
-/

namespace Pedalboard.Preset

open Payload (serializeState)

variable {requests : List Request} {presets next : List Preset} {r : Request} {name given : String}

/-! ## Where a preset comes from -/

/-- A preset with the requests that it comes from, by their places. -/
structure Entry where
  preset : Preset
  /-- The save that made it. -/
  created : Nat
  /-- The latest save under its name. -/
  updated : Nat

/-- A preset holds the time of the save that made it, and the time and the text of the latest save
under its name; and its name is in the list since it was made. -/
structure Entry.Stands (requests : List Request) (e : Entry) : Prop where
  name_ne : e.preset.name ≠ ""
  id : e.preset.id = "preset-" ++ toString e.preset.createdAt
  created : ∃ r text, requests[e.created]? = some r ∧
    r.Saves e.preset.name text e.preset.createdAt
  updated : ∃ r, requests[e.updated]? = some r ∧
    r.Saves e.preset.name e.preset.graph e.preset.updatedAt
  latest : ∀ k r text now, requests[k]? = some r → r.Saves e.preset.name text now → k ≤ e.updated
  absent : e.preset.name ∉ names (listAfter (requests.take e.created))
  since : ∀ k, e.created < k → k ≤ requests.length →
    e.preset.name ∈ names (listAfter (requests.take k))

namespace Entry

variable {e : Entry}

theorem Stands.created_lt (h : e.Stands requests) : e.created < requests.length := by
  obtain ⟨r, text, hr, -⟩ := h.created
  exact (List.getElem?_eq_some_iff.1 hr).1

theorem getElem?_concat {k : Nat} {q : Request} (h : requests[k]? = some q) (r : Request) :
    (requests ++ [r])[k]? = some q := by
  rw [List.getElem?_append_left (List.getElem?_eq_some_iff.1 h).1, h]

theorem le_length_of_getElem?_concat {k : Nat} {q : Request}
    (h : (requests ++ [r])[k]? = some q) : k ≤ requests.length := by
  have hbound := (List.getElem?_eq_some_iff.1 h).1
  simp only [List.length_append, List.length_singleton] at hbound
  omega

theorem eq_last_of_getElem?_concat {k : Nat} {q : Request} (h : (requests ++ [r])[k]? = some q) :
    requests[k]? = some q ∨ k = requests.length ∧ q = r := by
  rcases (le_length_of_getElem?_concat h).lt_or_eq with hlt | rfl
  · exact .inl (List.getElem?_append_left hlt ▸ h)
  · exact .inr ⟨rfl, by simpa [eq_comm] using h⟩

/-- The name is still there after one more request. -/
theorem Stands.since_concat (h : e.Stands requests)
    (hthere : e.preset.name ∈ names (listAfter (requests ++ [r]))) {k : Nat} (hk : e.created < k)
    (_ : k ≤ (requests ++ [r]).length) :
    e.preset.name ∈ names (listAfter ((requests ++ [r]).take k)) := by
  rcases Nat.lt_or_ge requests.length k with hlast | hbefore
  · rwa [List.take_of_length_le (by simpa using hlast)]
  · rw [List.take_append_of_le_length hbefore]
    exact h.since k hk hbefore

theorem Stands.absent_concat (h : e.Stands requests) (r : Request) :
    e.preset.name ∉ names (listAfter ((requests ++ [r]).take e.created)) := by
  rw [List.take_append_of_le_length h.created_lt.le]
  exact h.absent

/-- **A preset stays as it is** if the next request is no save under its name. -/
theorem Stands.concat (h : e.Stands requests)
    (hthere : e.preset.name ∈ names (listAfter (requests ++ [r])))
    (hother : ∀ text now, ¬r.Saves e.preset.name text now) : e.Stands (requests ++ [r]) where
  name_ne := h.name_ne
  id := h.id
  created := by
    obtain ⟨q, text, hq, hsaves⟩ := h.created
    exact ⟨q, text, getElem?_concat hq r, hsaves⟩
  updated := by
    obtain ⟨q, hq, hsaves⟩ := h.updated
    exact ⟨q, getElem?_concat hq r, hsaves⟩
  latest k q text now hq hsaves := by
    rcases eq_last_of_getElem?_concat hq with hq | ⟨rfl, rfl⟩
    · exact h.latest k q text now hq hsaves
    · exact absurd hsaves (hother text now)
  absent := h.absent_concat r
  since _ := h.since_concat hthere

/-- **A save under its name** gives a preset a new graph and a new time. -/
theorem Stands.update {text : String} {now : Nat} (h : e.Stands requests)
    (hthere : e.preset.name ∈ names (listAfter (requests ++ [r])))
    (hsaves : r.Saves e.preset.name text now) :
    Stands (requests ++ [r])
      { preset := { e.preset with graph := text, updatedAt := now }
        created := e.created
        updated := requests.length } where
  name_ne := h.name_ne
  id := h.id
  created := by
    obtain ⟨q, text, hq, hsaves⟩ := h.created
    exact ⟨q, text, getElem?_concat hq r, hsaves⟩
  updated := ⟨r, List.getElem?_concat_length, hsaves⟩
  latest _ _ _ _ hq _ := le_length_of_getElem?_concat hq
  absent := h.absent_concat r
  since _ := h.since_concat hthere

/-- **A save under a new name** makes a preset. -/
theorem stands_fresh {text : String} {now : Nat} (hne : name ≠ "")
    (habsent : name ∉ names (listAfter requests))
    (hthere : name ∈ names (listAfter (requests ++ [r]))) (hsaves : r.Saves name text now) :
    Stands (requests ++ [r])
      { preset := fresh name text now, created := requests.length, updated := requests.length } where
  name_ne := hne
  id := rfl
  created := ⟨r, text, List.getElem?_concat_length, hsaves⟩
  updated := ⟨r, List.getElem?_concat_length, hsaves⟩
  latest _ _ _ _ hq _ := le_length_of_getElem?_concat hq
  absent := by
    rw [List.take_left]
    exact habsent
  since k hk _ := by
    rw [List.take_of_length_le (by simpa using hk)]
    exact hthere

end Entry

/-! ## Runs -/

/-- What is so after any requests. -/
structure Inv (requests : List Request) (entries : List Entry) : Prop where
  list : listAfter requests = entries.map (·.preset)
  fits : entries.length ≤ maxPresets
  names_nodup : (entries.map (·.preset.name)).Nodup
  stands : ∀ e ∈ entries, e.Stands requests
  newest_first : entries.Pairwise fun d e => e.created < d.created

variable {entries : List Entry}

theorem names_map (entries : List Entry) :
    names (entries.map (·.preset)) = entries.map (·.preset.name) := List.map_map

/-- A request that is no save under a name in the list, and leaves the list as it is. -/
theorem Inv.concat_same (h : Inv requests entries)
    (hsame : listAfter (requests ++ [r]) = listAfter requests)
    (hother : ∀ e ∈ entries, ∀ text now, ¬r.Saves e.preset.name text now) :
    Inv (requests ++ [r]) entries where
  list := hsame.trans h.list
  fits := h.fits
  names_nodup := h.names_nodup
  stands e he := by
    refine (h.stands e he).concat ?_ (hother e he)
    rw [hsame, h.list, names_map]
    exact List.mem_map_of_mem he
  newest_first := h.newest_first

/-- The entry after a save, at its place among the requests. -/
def Entry.save (name text : String) (now place : Nat) (e : Entry) : Entry :=
  if e.preset.name = name then
    { e with preset := { e.preset with graph := text, updatedAt := now }, updated := place }
  else e

theorem Entry.name_save {text : String} {now place : Nat} (e : Entry) :
    (e.save name text now place).preset.name = e.preset.name := by
  rw [save]
  split <;> rfl

theorem Entry.created_save {text : String} {now place : Nat} (e : Entry) :
    (e.save name text now place).created = e.created := by
  rw [save]
  split <;> rfl

section Saves

variable {s : State} {text : String} {now : Nat}

theorem saves_iff {t : String} {m : Nat} : (Request.save given s now).Saves name t m ↔
    trimmed given = name ∧ serializeState s = .ok t ∧ now = m := by
  constructor
  · rintro ⟨_, _, heq, hname, htext⟩
    cases heq
    exact ⟨hname, htext, rfl⟩
  · rintro ⟨hname, htext, rfl⟩
    exact ⟨_, _, rfl, hname, htext⟩

theorem Inv.concat_updated (h : Inv requests entries) (htext : serializeState s = .ok text)
    (hlist : listAfter (requests ++ [.save given s now]) =
      replaceGraph (trimmed given) text now (listAfter requests)) :
    Inv (requests ++ [.save given s now])
      (entries.map (Entry.save (trimmed given) text now requests.length)) where
  list := by
    have hnodup : (names (entries.map (·.preset))).Nodup := names_map entries ▸ h.names_nodup
    rw [hlist, h.list, replaceGraph_eq_map hnodup, List.map_map, List.map_map]
    refine List.map_congr_left fun e _ => ?_
    simp only [Function.comp_apply, Entry.save]
    split <;> rfl
  fits := by
    rw [List.length_map]
    exact h.fits
  names_nodup := by
    have hname : (·.preset.name) ∘ Entry.save (trimmed given) text now requests.length =
        (·.preset.name) := funext Entry.name_save
    rw [List.map_map, hname]
    exact h.names_nodup
  stands e he := by
    obtain ⟨d, hd, rfl⟩ := List.mem_map.1 he
    have hthere : d.preset.name ∈ names (listAfter (requests ++ [.save given s now])) := by
      rw [hlist, names_replaceGraph, h.list, names_map]
      exact List.mem_map_of_mem hd
    rw [Entry.save]
    split
    · rename_i hname
      exact (h.stands d hd).update hthere (saves_iff.2 ⟨hname.symm, htext, rfl⟩)
    · rename_i hname
      exact (h.stands d hd).concat hthere fun _ _ hsaves => hname (saves_iff.1 hsaves).1.symm
  newest_first := List.pairwise_map.2 (h.newest_first.imp fun hlt => by
    rwa [Entry.created_save, Entry.created_save])

theorem Inv.concat_added (h : Inv requests entries) (hne : trimmed given ≠ "")
    (htext : serializeState s = .ok text) (habsent : trimmed given ∉ names (listAfter requests))
    (hlist : listAfter (requests ++ [.save given s now]) =
      (fresh (trimmed given) text now :: listAfter requests).take maxPresets) :
    Inv (requests ++ [.save given s now])
      ((Entry.mk (fresh (trimmed given) text now) requests.length requests.length :: entries).take
        maxPresets) := by
  have hnames : names (listAfter requests) = entries.map (·.preset.name) := by
    rw [h.list, names_map]
  have hpresets : listAfter (requests ++ [.save given s now]) =
      ((Entry.mk (fresh (trimmed given) text now) requests.length requests.length :: entries).take
        maxPresets).map (·.preset) := by
    rw [hlist, h.list, List.map_take, List.map_cons]
  refine ⟨hpresets, List.length_take_le _ _, ?_, fun e he => ?_, ?_⟩
  · rw [List.map_take, List.map_cons]
    exact (List.nodup_cons.2 ⟨hnames ▸ habsent, h.names_nodup⟩).sublist (List.take_sublist _ _)
  · have hthere : e.preset.name ∈ names (listAfter (requests ++ [.save given s now])) := by
      rw [hpresets, names_map]
      exact List.mem_map_of_mem he
    rcases List.mem_cons.1 (List.mem_of_mem_take he) with rfl | he
    · exact Entry.stands_fresh hne habsent hthere (saves_iff.2 ⟨rfl, htext, rfl⟩)
    · refine (h.stands e he).concat hthere fun _ _ hsaves => habsent ?_
      rw [(saves_iff.1 hsaves).1, hnames]
      exact List.mem_map_of_mem he
  · exact (List.pairwise_cons.2 ⟨fun e he => (h.stands e he).created_lt, h.newest_first⟩).sublist
      (List.take_sublist _ _)

end Saves

theorem not_saves_delete {text : String} {now : Nat} :
    ¬(Request.delete given).Saves name text now := by
  rintro ⟨_, _, heq, -⟩
  cases heq

theorem Inv.concat_deleted (h : Inv requests entries)
    (hlist : listAfter (requests ++ [.delete given]) =
      (listAfter requests).filter (·.name ≠ trimmed given)) :
    Inv (requests ++ [.delete given]) (entries.filter (·.preset.name ≠ trimmed given)) where
  list := by
    rw [hlist, h.list, List.filter_map]
    rfl
  fits := (List.length_filter_le _ _).trans h.fits
  names_nodup := h.names_nodup.sublist (List.filter_sublist.map _)
  stands e he := by
    refine (h.stands e (List.mem_of_mem_filter he)).concat ?_ fun _ _ => not_saves_delete
    rw [hlist, h.list]
    obtain ⟨he, hname⟩ := List.mem_filter.1 he
    exact List.mem_map.2 ⟨e.preset, List.mem_filter.2 ⟨List.mem_map_of_mem he, hname⟩, rfl⟩
  newest_first := h.newest_first.filter _

/-- **One request** keeps the invariant. -/
theorem Inv.concat (h : Inv requests entries) (hproper : ∀ q ∈ requests ++ [r], q.Proper) :
    ∃ entries, Inv (requests ++ [r]) entries := by
  have hok : ∀ next, r.on (listAfter requests) = .ok next → listAfter (requests ++ [r]) = next :=
    fun next => listAfter_of_ok hproper
  have herror : ∀ e, r.on (listAfter requests) = .error e →
      listAfter (requests ++ [r]) = listAfter requests := fun e => listAfter_of_error
  have hchange := change (listAfter requests) r
  generalize r.on (listAfter requests) = outcome at hok herror hchange
  cases hchange with
  | blank hblank =>
    refine ⟨entries, h.concat_same (hok _ rfl) fun e he text now hsaves => ?_⟩
    exact (h.stands e he).name_ne ((saves_iff.1 hsaves).1 ▸ hblank)
  | refused hne htext =>
    refine ⟨entries, h.concat_same (herror _ rfl) fun e he text now hsaves => ?_⟩
    rw [(saves_iff.1 hsaves).2.1] at htext
    cases htext
  | updated hne htext hmem => exact ⟨_, h.concat_updated htext (hok _ rfl)⟩
  | added hne htext habsent => exact ⟨_, h.concat_added hne htext habsent (hok _ rfl)⟩
  | deleted hmem => exact ⟨_, h.concat_deleted (hok _ rfl)⟩
  | unknown habsent =>
    exact ⟨entries, h.concat_same (herror _ rfl) fun _ _ _ _ => not_saves_delete⟩

/-- **Every run** keeps the invariant. -/
theorem exists_inv (hproper : ∀ r ∈ requests, r.Proper) : ∃ entries, Inv requests entries := by
  induction requests using List.reverseRecOn with
  | nil => exact ⟨[], rfl, Nat.zero_le _, by simp, by simp, by simp⟩
  | append_singleton requests r ih =>
    obtain ⟨entries, hentries⟩ := ih fun q hq => hproper q (List.mem_append_left _ hq)
    exact hentries.concat hproper

/-! ## What the list says -/

/-- A name in the list is trimmed, and it is not blank. -/
theorem Entry.Stands.name_trimmed {e : Entry} (h : e.Stands requests) :
    trimmed e.preset.name = e.preset.name ∧ onlyWhiteSpace e.preset.name = false := by
  obtain ⟨r, text, -, given, s, -, hname, -⟩ := h.created
  have htrimmed : trimmed e.preset.name = e.preset.name := by rw [← hname, trimmed_trimmed]
  refine ⟨htrimmed, ?_⟩
  rw [← Bool.not_eq_true, ← trimmed_eq_empty_iff, htrimmed]
  exact h.name_ne

/-- **A preset loads** under every limit, because its graph is the text of a state that occurs. -/
theorem Entry.Stands.hydrate {e : Entry} (h : e.Stands requests)
    (hproper : ∀ r ∈ requests, r.Proper) (limit : Nat) : ∃ t, e.preset.hydrate limit = .ok t := by
  obtain ⟨r, hr, given, s, rfl, -, htext⟩ := h.updated
  obtain ⟨hreaches, -⟩ := hproper _ (List.mem_of_getElem? hr)
  obtain ⟨p, hp, hread⟩ := Payload.exists_payload_of_text htext
  have hload := Payload.hydrate_eq_of_normalize hreaches.wellFormed_of_opened hp limit
  exact ⟨_, by rw [Preset.hydrate, hread, Payload.ok_bind, hload]; rfl⟩

/-- All but the last item of a full list stand in the front part of it. -/
theorem getLast?_of_not_mem_take {α : Type} {as : List α} {a : α} {n : Nat} (ha : a ∈ as)
    (hfits : as.length ≤ n + 1) (hlost : a ∉ as.take n) :
    as.length = n + 1 ∧ as.getLast? = some a := by
  have hsplit := List.take_append_drop n as
  have hback : a ∈ as.drop n := by
    rw [← hsplit] at ha
    exact (List.mem_append.1 ha).resolve_left hlost
  have hlength : (as.drop n).length = as.length - n := List.length_drop
  have hpos := List.length_pos_of_mem hback
  obtain ⟨b, hb⟩ := List.length_eq_one_iff.1 (show (as.drop n).length = 1 by omega)
  rw [hb, List.mem_singleton] at hback
  refine ⟨by omega, ?_⟩
  rw [← hsplit, hb, hback, List.getLast?_concat]

/-- **A preset disappears** if its name is deleted, or if it is the last of a full list and another
name is saved. -/
theorem eq_of_lost {p : Preset} (hp : p ∈ presets) (hfits : presets.length ≤ maxPresets)
    (hok : r.on presets = .ok next) (hlost : p.name ∉ names next) :
    (∃ given, r = .delete given ∧ trimmed given = p.name) ∨
    ∃ given s now, r = .save given s now ∧ trimmed given ∉ names presets ∧
      presets.length = maxPresets ∧ presets.getLast? = some p := by
  have hname : p.name ∈ names presets := List.mem_map_of_mem hp
  have hchange := change presets r
  rw [hok] at hchange
  cases hchange with
  | blank => exact absurd hname hlost
  | updated =>
    rw [names_replaceGraph] at hlost
    exact absurd hname hlost
  | @added given text s now _ _ habsent =>
    refine .inr ⟨given, s, now, rfl, habsent, getLast?_of_not_mem_take hp hfits fun hkept => ?_⟩
    exact hlost (List.mem_map_of_mem (List.mem_cons_of_mem _ hkept))
  | @deleted given _ =>
    refine .inl ⟨given, rfl, ?_⟩
    by_contra hne
    exact hlost (List.mem_map.2 ⟨p, List.mem_filter.2 ⟨hp, by simpa using Ne.symm hne⟩, rfl⟩)

/-- **A request that cannot change anything**: a save under a blank name or of too many edges. -/
theorem listAfter_of_idle_save {s : State} {now : Nat}
    (hproper : ∀ q ∈ requests ++ [.save given s now], q.Proper)
    (hidle : onlyWhiteSpace given ∨ 64 < s.edges.length) :
    listAfter (requests ++ [.save given s now]) = listAfter requests := by
  obtain ⟨hreaches, -⟩ := hproper (.save given s now) (by simp)
  have hrefused : ∀ text, trimmed given ≠ "" → serializeState s ≠ .ok text := by
    intro text hne htext
    rcases hidle with hblank | hedges
    · exact hne (trimmed_eq_empty_iff.2 hblank)
    · rw [Payload.serializeState_of_overflow hreaches hedges] at htext
      cases htext
  cases hon : (Request.save given s now).on (listAfter requests) with
  | error e => exact listAfter_of_error hon
  | ok next =>
    rw [listAfter_of_ok hproper hon]
    have hchange := change (listAfter requests) (.save given s now)
    rw [hon] at hchange
    cases hchange with
    | blank => rfl
    | updated hne htext => exact absurd htext (hrefused _ hne)
    | added hne htext => exact absurd htext (hrefused _ hne)

/-- **A save stores its name**, with its text and its time, if the name is not blank and the state has
no more edges than a payload holds. -/
theorem listAfter_of_save {s : State} {now : Nat}
    (hproper : ∀ q ∈ requests ++ [.save given s now], q.Proper)
    (hblank : onlyWhiteSpace given = false) (hedges : s.edges.length ≤ 64) :
    answer requests (.save given s now) = .ok () ∧
    names (listAfter (requests ++ [.save given s now])) =
      (if trimmed given ∈ names (listAfter requests) then names (listAfter requests)
        else (trimmed given :: names (listAfter requests)).take maxPresets) ∧
    ∃ p ∈ listAfter (requests ++ [.save given s now]), p.name = trimmed given ∧
      serializeState s = .ok p.graph ∧ p.updatedAt = now := by
  obtain ⟨hreaches, -⟩ := hproper (.save given s now) (by simp)
  have hwritten := Payload.serializeState_of_reaches hreaches hedges
  have hname : trimmed given ≠ "" := by
    rw [ne_eq, trimmed_eq_empty_iff, hblank]
    decide
  have hok : ∀ next, (Request.save given s now).on (listAfter requests) = .ok next →
      answer requests (.save given s now) = .ok () ∧
        listAfter (requests ++ [.save given s now]) = next := fun next hon =>
    ⟨answer_of_ok hon, listAfter_of_ok hproper hon⟩
  have hchange := change (listAfter requests) (.save given s now)
  generalize (Request.save given s now).on (listAfter requests) = outcome at hok hchange
  cases hchange with
  | blank h => exact absurd h hname
  | refused _ h =>
    rw [hwritten] at h
    cases h
  | updated _ htext hmem =>
    obtain ⟨hanswer, hlist⟩ := hok _ rfl
    obtain ⟨p, hp, hpname, hgraph, hnow⟩ := exists_mem_replaceGraph _ now hmem
    rw [hlist, if_pos hmem]
    exact ⟨hanswer, names_replaceGraph _ _ _ _, p, hp, hpname, hgraph ▸ htext, hnow⟩
  | added _ htext habsent =>
    obtain ⟨hanswer, hlist⟩ := hok _ rfl
    rw [hlist, if_neg habsent]
    exact ⟨hanswer, List.map_take, _, List.mem_cons_self, rfl, htext, rfl⟩

/-- **A deletion takes its name away**, and no other. -/
theorem listAfter_of_delete (hproper : ∀ q ∈ requests ++ [.delete given], q.Proper)
    (hmem : trimmed given ∈ names (listAfter requests)) :
    answer requests (.delete given) = .ok () ∧
    trimmed given ∉ names (listAfter (requests ++ [.delete given])) ∧
    listAfter (requests ++ [.delete given]) =
      (listAfter requests).filter (·.name ≠ trimmed given) := by
  have hon : (Request.delete given).on (listAfter requests) =
      .ok ((listAfter requests).filter (·.name ≠ trimmed given)) := by
    simp [Request.on, remove, any_name_eq, hmem]
  rw [listAfter_of_ok hproper hon]
  exact ⟨answer_of_ok hon, by simp [names], rfl⟩

/-- **A deletion of a name that is not there** is refused. -/
theorem listAfter_of_unknown (habsent : trimmed given ∉ names (listAfter requests)) :
    answer requests (.delete given) = .error (.presetNotFound (trimmed given)) ∧
    listAfter (requests ++ [.delete given]) = listAfter requests := by
  have hon : (Request.delete given).on (listAfter requests) =
      .error (.presetNotFound (trimmed given)) := by
    simp [Request.on, remove, any_name_eq, habsent]
  exact ⟨answer_of_error hon, listAfter_of_error hon⟩

/-- **What becomes of a stored list.** Start from an empty memory and let each request load the list,
change it and store it. After any requests, the list has at most 32 presets; their names are trimmed,
not blank and different; each stems from a save that made it and holds what the latest save under its
name was given, and the one that was made last stands first; and each loads under every limit.

The next request, whatever it is, makes of the list what is loaded then, or is refused and leaves the
memory as it is. A save stores its name, with its text and its time: where the name is, or in front
of the list if the name is new. A deletion takes its name away, and is refused if the name is not
there. A preset disappears only if its name is deleted, or if it is the last of 32 and a new name is
saved. A blank name, more than 64 edges and an unknown name leave the list as it is. -/
theorem runs_law (requests : List Request) (hproper : ∀ r ∈ requests, r.Proper) :
    listAfter [] = [] ∧
    ((listAfter requests).length ≤ 32 ∧ (names (listAfter requests)).Nodup ∧
      (∀ name ∈ names (listAfter requests), trimmed name = name ∧ onlyWhiteSpace name = false) ∧
      (∃ entries : List Entry, listAfter requests = entries.map (·.preset) ∧
        (∀ e ∈ entries, e.Stands requests) ∧ entries.Pairwise fun d e => e.created < d.created) ∧
      ∀ p ∈ listAfter requests, ∀ limit, ∃ t, p.hydrate limit = .ok t) ∧
    ∀ r : Request, r.Proper →
      (∀ next, r.on (listAfter requests) = .ok next →
        answer requests r = .ok () ∧ listAfter (requests ++ [r]) = next) ∧
      (∀ e, r.on (listAfter requests) = .error e →
        answer requests r = .error e ∧ memoryAfter (requests ++ [r]) = memoryAfter requests) ∧
      (∀ p ∈ listAfter requests, p.name ∉ names (listAfter (requests ++ [r])) →
        (∃ given, r = .delete given ∧ trimmed given = p.name) ∨
        ∃ given s now, r = .save given s now ∧ trimmed given ∉ names (listAfter requests) ∧
          (listAfter requests).length = 32 ∧ (listAfter requests).getLast? = some p) ∧
      (∀ given s now, r = .save given s now → onlyWhiteSpace given = false → s.edges.length ≤ 64 →
        answer requests r = .ok () ∧
        names (listAfter (requests ++ [r])) =
          (if trimmed given ∈ names (listAfter requests) then names (listAfter requests)
            else (trimmed given :: names (listAfter requests)).take 32) ∧
        ∃ p ∈ listAfter (requests ++ [r]), p.name = trimmed given ∧
          serializeState s = .ok p.graph ∧ p.updatedAt = now) ∧
      (∀ given s now, r = .save given s now → onlyWhiteSpace given ∨ 64 < s.edges.length →
        listAfter (requests ++ [r]) = listAfter requests) ∧
      (∀ given, r = .delete given → trimmed given ∈ names (listAfter requests) →
        answer requests r = .ok () ∧ trimmed given ∉ names (listAfter (requests ++ [r])) ∧
        listAfter (requests ++ [r]) = (listAfter requests).filter (·.name ≠ trimmed given)) ∧
      ∀ given, r = .delete given → trimmed given ∉ names (listAfter requests) →
        answer requests r = .error (.presetNotFound (trimmed given)) ∧
        listAfter (requests ++ [r]) = listAfter requests := by
  obtain ⟨entries, h⟩ := exists_inv hproper
  have hfits : (listAfter requests).length ≤ 32 := (storable_listAfter hproper).fits
  refine ⟨rfl, ⟨hfits, ?_, ?_, ⟨entries, h.list, h.stands, h.newest_first⟩, ?_⟩, fun r hr => ?_⟩
  · rw [h.list, names_map]
    exact h.names_nodup
  · rw [h.list, names_map, List.forall_mem_map]
    exact fun e he => (h.stands e he).name_trimmed
  · rw [h.list, List.forall_mem_map]
    exact fun e he => (h.stands e he).hydrate hproper
  · have hall : ∀ q ∈ requests ++ [r], q.Proper := by
      intro q hq
      rcases List.mem_append.1 hq with hq | hq
      · exact hproper q hq
      · exact List.mem_singleton.1 hq ▸ hr
    refine ⟨fun next hon => ⟨answer_of_ok hon, listAfter_of_ok hall hon⟩,
      fun e hon => ⟨answer_of_error hon, memoryAfter_of_error hon⟩, fun p hp hlost => ?_, ?_, ?_, ?_, ?_⟩
    · cases hon : r.on (listAfter requests) with
      | error e =>
        rw [listAfter_of_error hon] at hlost
        exact absurd (List.mem_map_of_mem hp) hlost
      | ok next =>
        rw [listAfter_of_ok hall hon] at hlost
        exact eq_of_lost hp hfits hon hlost
    · rintro given s now rfl hblank hedges
      exact listAfter_of_save hall hblank hedges
    · rintro given s now rfl hidle
      exact listAfter_of_idle_save hall hidle
    · rintro given rfl hmem
      exact listAfter_of_delete hall hmem
    · rintro given rfl habsent
      exact listAfter_of_unknown habsent

/-- A save of a new board, with white space before the name. -/
def leadSaved : Request := .save " lead" (State.initial 8) 5

/-- A save of an edited board under the same name, with white space after it. -/
def leadEdited : Request := .save "lead\n" ((State.initial 8).apply (.addNode .delay 0 0 none)) 7

/-- The second save replaces the graph and leaves the first time; a name that is not there cannot be
deleted, and one that is there can. -/
theorem runs_law_leadEdited :
    leadSaved.Proper ∧ leadEdited.Proper ∧
    ∃ first latest, listAfter [leadSaved] = [fresh "lead" first 5] ∧
      listAfter [leadSaved, leadEdited] =
        [{ fresh "lead" first 5 with graph := latest, updatedAt := 7 }] ∧
      answer [leadSaved, leadEdited] (.delete "solo") = .error (.presetNotFound "solo") ∧
      listAfter [leadSaved, leadEdited, .delete "solo"] = listAfter [leadSaved, leadEdited] ∧
      listAfter [leadSaved, leadEdited, .delete " lead"] = [] := by
  have hreaches : State.Reaches State.Opened (State.initial 8) := .start (.inl ⟨8, rfl⟩)
  have hsaved : leadSaved.Proper := ⟨hreaches, by decide⟩
  have hedited : leadEdited.Proper := ⟨hreaches.edit _, by decide⟩
  obtain ⟨first, hfirst⟩ : ∃ text, serializeState (State.initial 8) = .ok text :=
    ⟨_, Payload.serializeState_of_reaches hreaches (by decide)⟩
  obtain ⟨latest, hlatest⟩ :
      ∃ text, serializeState ((State.initial 8).apply (.addNode .delay 0 0 none)) = .ok text :=
    ⟨_, Payload.serializeState_of_reaches (hreaches.edit _) (by decide)⟩
  have hname : trimmed " lead" = "lead" ∧ trimmed "lead\n" = "lead" := by decide
  obtain ⟨hempty, -, hstart⟩ := runs_law [] (by simp)
  obtain ⟨-, -, hnext⟩ := runs_law [leadSaved] (by simp [hsaved])
  obtain ⟨-, -, hlast⟩ := runs_law [leadSaved, leadEdited] (by simp [hsaved, hedited])
  have hone : listAfter [leadSaved] = [fresh "lead" first 5] := by
    refine ((hstart leadSaved hsaved).1 _ ?_).2
    rw [hempty]
    simp only [leadSaved, Request.on, upsert, hname.1, hfirst]
    rfl
  have htwo : listAfter [leadSaved, leadEdited] =
      [{ fresh "lead" first 5 with graph := latest, updatedAt := 7 }] := by
    refine ((hnext leadEdited hedited).1 _ ?_).2
    rw [hone]
    simp only [leadEdited, Request.on, upsert, hname.2, hlatest]
    rfl
  have hnames : names (listAfter [leadSaved, leadEdited]) = ["lead"] := by
    rw [htwo]
    rfl
  obtain ⟨-, -, -, -, -, -, hunknown⟩ := hlast (.delete "solo") trivial
  obtain ⟨hrefused, hsame⟩ := hunknown "solo" rfl (by rw [hnames]; decide)
  obtain ⟨-, -, -, -, -, hdeleted, -⟩ := hlast (.delete " lead") trivial
  obtain ⟨-, -, hgone⟩ := hdeleted " lead" rfl (by rw [hnames]; decide)
  refine ⟨hsaved, hedited, first, latest, hone, htwo, hrefused, hsame, hgone.trans ?_⟩
  rw [htwo, hname.1]
  rfl

end Pedalboard.Preset
