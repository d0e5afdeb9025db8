import Mathlib
import Pedalboard.Proofs.Keyed
import Pedalboard.Store.Basic

/-!
# The store in a directory

**Disks** (`Disk`). Files that never fail: contents by path, and the directories that were made.

**Requests** (`Request`, `Store.serve`). Look-ups, changes and removals, one after the other, with the
answer to each and what is stored in the end.

**Shared files.** A key stands for a file through its safe name, so the files of two keys are the same
exactly when their safe names are (`fileFor_eq_iff`).

**Mirrors** (`Mirrors`). A disk shows a memory, each key under another one. A request is answered alike
on both sides and keeps them alike (`Mirrors.ask`), and so does a whole run (`Mirrors.serve`).

**Theorem (`directory_law`).** A directory is a store of safe names: it answers as the memory does that
is asked for the safe names in place of the keys. So it answers as a memory for exactly those sets of
keys in which no two share a safe name.
-/

namespace Pedalboard

/-! ## Files that never fail -/

structure Disk where
  /-- Contents by path. -/
  files : Keyed String := .empty
  directories : List String := []

instance : Files (StateM Disk) where
  read path := return match (← getThe Disk).files.get? path with
    | some content => .ok content
    | none => .error .notFound
  write path content := do
    modifyThe Disk fun d => { d with files := d.files.insert path content }
    return .ok ()
  remove path := do
    match (← getThe Disk).files.get? path with
    | some _ =>
      modifyThe Disk fun d => { d with files := d.files.erase path }
      return .ok ()
    | none => return .error .notFound
  makeDirectory path := do
    modifyThe Disk fun d => { d with directories := path :: d.directories }
    return .ok ()
  isDirectory path := return path ∈ (← getThe Disk).directories
  present path := do
    let d ← getThe Disk
    return path ∈ d.directories || (d.files.get? path).isSome

namespace Store

/-! ## Requests -/

/-- What can be asked of a store. -/
inductive Request
  | get (key : String)
  | set (key value : String)
  | remove (key : String)
deriving DecidableEq

/-- The text that was looked up, if one was, or the error. -/
abbrev Answer := Except StoreError (Option String)

namespace Request

def key : Request → String
  | get key | set key _ | remove key => key

/-- The same request for another key. -/
def mapKey (f : String → String) : Request → Request
  | get key => .get (f key)
  | set key value => .set (f key) value
  | remove key => .remove (f key)

end Request

variable {σ : Type}

/-- The answer to a request, and what is stored after it. -/
def ask (store : Store (StateM σ)) (s : σ) : Request → Answer × σ
  | .get key => (store.get key).run.run s
  | .set key value => ((store.set key value).run.run s).map (·.map fun _ => none) id
  | .remove key => ((store.remove key).run.run s).map (·.map fun _ => none) id

/-- The answers to requests, one after the other, and what is stored after them. -/
def serve (store : Store (StateM σ)) (s : σ) : List Request → List Answer × σ
  | [] => ([], s)
  | r :: requests =>
    ((store.ask s r).1 :: (serve store (store.ask s r).2 requests).1,
      (serve store (store.ask s r).2 requests).2)

/-- What a new store in memory answers, and the memory after it. -/
def serveMemory : List Request → List Answer × Memory := serve .memory .empty

/-- What a new directory answers, and the disk after it. -/
def serveDirectory (dir : String) : List Request → List Answer × Disk := serve (.directory dir) {}

/-- What a directory answers to a look-up after a run. -/
def found (dir : String) (requests : List Request) (key : String) : Answer :=
  ((directory dir).ask (serveDirectory dir requests).2 (.get key)).1

/-! ## One request -/

variable {memory : Memory} {disk : Disk} {dir : String}

theorem ask_memory_get (memory : Memory) (key : String) :
    Store.memory.ask memory (.get key) = (.ok (memory.get? key), memory) := rfl

theorem ask_memory_set (memory : Memory) (key value : String) :
    Store.memory.ask memory (.set key value) = (.ok none, memory.insert key value) := rfl

theorem ask_memory_remove (memory : Memory) (key : String) :
    Store.memory.ask memory (.remove key) = (.ok none, memory.erase key) := rfl

/-- A step of the files under a computation that can fail. -/
theorem run_lift_bind {α β : Type} (x : StateM σ α) (f : α → ExceptT StoreError (StateM σ) β) (s : σ) :
    (liftM x >>= f : ExceptT StoreError (StateM σ) β).run.run s = (f (x.run s).1).run.run (x.run s).2 :=
  rfl

theorem run_read (disk : Disk) (path : String) : (Files.read path : StateM Disk _).run disk =
    ((disk.files.get? path).elim (.error .notFound) .ok, disk) := by
  change ((match disk.files.get? path with | some content => Except.ok content | none => _), disk) = _
  cases disk.files.get? path <;> rfl

theorem run_removeFile (disk : Disk) (path : String) :
    (Files.remove path : StateM Disk _).run disk =
      ((disk.files.get? path).elim (.error .notFound) fun _ => .ok (),
        { disk with files := disk.files.erase path }) := by
  change (match disk.files.get? path with | some _ => _ | none => _ : StateM Disk _).run disk = _
  cases h : disk.files.get? path with
  | none =>
    rw [Keyed.erase_of_get?_eq_none h]
    rfl
  | some content => rfl

/-- Making directories keeps the files. -/
theorem run_createWithin (disk : Disk) (paths : List String) : ∃ directories,
    (Files.createWithin paths : StateM Disk _).run disk = (.ok (), { disk with directories }) := by
  cases paths with
  | nil => exact ⟨disk.directories, rfl⟩
  | cons path outer => exact ⟨path :: disk.directories, rfl⟩

theorem run_prepareDirectory (disk : Disk) (dir : String) : ∃ directories,
    (prepareDirectory dir : ExceptT StoreError (StateM Disk) Unit).run.run disk =
      (.ok (), { disk with directories }) := by
  rw [prepareDirectory, run_lift_bind]
  cases hpresent : ((Files.present dir : StateM Disk Bool).run disk).1 with
  | true => exact ⟨disk.directories, rfl⟩
  | false =>
    obtain ⟨directories, hmade⟩ := run_createWithin disk (Path.ancestors dir)
    refine ⟨directories, ?_⟩
    change (accessing .createDirectory dir (Files.createWithin (Path.ancestors dir)) :
      ExceptT StoreError (StateM Disk) Unit).run.run disk = _
    rw [accessing, run_lift_bind, hmade]
    rfl

theorem ask_directory_get (dir : String) (disk : Disk) (key : String) :
    (directory dir).ask disk (.get key) = (.ok (disk.files.get? (fileFor dir key)), disk) := by
  rw [ask, directory, run_lift_bind, run_read]
  cases disk.files.get? (fileFor dir key) <;> rfl

theorem ask_directory_set (dir : String) (disk : Disk) (key value : String) : ∃ directories,
    (directory dir).ask disk (.set key value) =
      (.ok none, ⟨disk.files.insert (fileFor dir key) value, directories⟩) := by
  obtain ⟨directories, hmade⟩ := run_prepareDirectory disk dir
  refine ⟨directories, ?_⟩
  rw [ask, directory, ExceptT.run_bind, StateT.run_bind, hmade]
  rfl

theorem ask_directory_remove (dir : String) (disk : Disk) (key : String) :
    (directory dir).ask disk (.remove key) =
      (.ok none, { disk with files := disk.files.erase (fileFor dir key) }) := by
  rw [ask, directory, run_lift_bind, run_removeFile]
  cases disk.files.get? (fileFor dir key) <;> rfl

end Store

/-! ## Shared files -/

theorem isAbsolute_fileName (key : String) : Path.isAbsolute (safeName key ++ ".json") = false := by
  have hsafe : ∀ c : Char, (if isSafe c then c else '_') ≠ '/' := by
    intro c
    split_ifs with h
    · rintro rfl
      exact absurd h (by decide)
    · decide
  rw [Path.isAbsolute, String.toList_append, safeName, String.toList_ofList]
  cases key.toList with
  | nil => decide
  | cons c cs => simpa using hsafe c

/-- **Keys share a file exactly when they share a safe name.** -/
theorem fileFor_eq_iff {dir key key' : String} :
    fileFor dir key = fileFor dir key' ↔ safeName key = safeName key' := by
  have hfile : ∃ base, ∀ key, fileFor dir key = base ++ (safeName key ++ ".json") := by
    by_cases hempty : dir.isEmpty
    · exact ⟨"", fun key => by simp [fileFor, Path.join, hempty]⟩
    · by_cases hslash : dir.toList.getLast? = some '/'
      · exact ⟨dir, fun key => by simp [fileFor, Path.join, hempty, hslash, isAbsolute_fileName]⟩
      · exact ⟨dir ++ "/", fun key => by simp [fileFor, Path.join, hempty, hslash, isAbsolute_fileName]⟩
  obtain ⟨base, hbase⟩ := hfile
  rw [hbase, hbase, String.append_right_inj, String.append_left_inj]

namespace Store

variable {dir : String} {rename : String → String} {keys : Set String}

/-! ## Mirrors -/

/-- The disk shows the memory, each of the keys under another one. -/
def Mirrors (dir : String) (rename : String → String) (keys : Set String) (disk : Disk)
    (memory : Memory) : Prop :=
  ∀ key ∈ keys, disk.files.get? (fileFor dir key) = memory.get? (rename key)

/-- A request is answered alike on both sides, and they stay alike. -/
theorem Mirrors.ask {disk : Disk} {memory : Memory} (h : Mirrors dir rename keys disk memory)
    (hrename : ∀ key ∈ keys, ∀ key' ∈ keys, safeName key = safeName key' ↔ rename key = rename key')
    {r : Request} (hr : r.key ∈ keys) :
    ((directory dir).ask disk r).1 = (Store.memory.ask memory (r.mapKey rename)).1 ∧
    Mirrors dir rename keys ((directory dir).ask disk r).2
      (Store.memory.ask memory (r.mapKey rename)).2 := by
  have hsame : ∀ key ∈ keys, fileFor dir key = fileFor dir r.key ↔ rename key = rename r.key :=
    fun key hkey => fileFor_eq_iff.trans (hrename key hkey _ hr)
  cases r with
  | get key =>
    rw [ask_directory_get]
    exact ⟨congrArg Except.ok (h key hr), h⟩
  | set key value =>
    obtain ⟨directories, hset⟩ := ask_directory_set dir disk key value
    rw [hset]
    refine ⟨rfl, fun k hk => ?_⟩
    have hfile : fileFor dir k = fileFor dir key ↔ rename k = rename key := hsame k hk
    change (disk.files.insert (fileFor dir key) value).get? (fileFor dir k) =
      (memory.insert (rename key) value).get? (rename k)
    simp only [Keyed.get?_insert, h k hk, hfile]
  | remove key =>
    rw [ask_directory_remove]
    refine ⟨rfl, fun k hk => ?_⟩
    have hfile : fileFor dir k = fileFor dir key ↔ rename k = rename key := hsame k hk
    change (disk.files.erase (fileFor dir key)).get? (fileFor dir k) =
      (memory.erase (rename key)).get? (rename k)
    simp only [Keyed.get?_erase, h k hk, hfile]

/-- **A run is answered alike on both sides.** -/
theorem Mirrors.serve {disk : Disk} {memory : Memory} (h : Mirrors dir rename keys disk memory)
    (hrename : ∀ key ∈ keys, ∀ key' ∈ keys, safeName key = safeName key' ↔ rename key = rename key')
    (requests : List Request) (hkeys : ∀ r ∈ requests, r.key ∈ keys) :
    ((directory dir).serve disk requests).1 =
      (Store.memory.serve memory (requests.map (·.mapKey rename))).1 ∧
    Mirrors dir rename keys ((directory dir).serve disk requests).2
      (Store.memory.serve memory (requests.map (·.mapKey rename))).2 := by
  induction requests generalizing disk memory with
  | nil => exact ⟨rfl, h⟩
  | cons r requests ih =>
    obtain ⟨hr, hrest⟩ := List.forall_mem_cons.1 hkeys
    obtain ⟨hanswer, hnext⟩ := h.ask hrename hr
    obtain ⟨hanswers, hlast⟩ := ih hnext hrest
    exact ⟨by rw [Store.serve, List.map_cons, Store.serve, hanswer, hanswers], hlast⟩

theorem mirrors_start (dir : String) (rename : String → String) (keys : Set String) :
    Mirrors dir rename keys {} .empty := fun _ _ => rfl

/-! ## Agreement -/

/-- **A directory is a store of safe names.** -/
theorem serveDirectory_eq (dir : String) (requests : List Request) :
    (serveDirectory dir requests).1 = (serveMemory (requests.map (·.mapKey safeName))).1 ∧
    ∀ key, found dir requests key =
      .ok ((serveMemory (requests.map (·.mapKey safeName))).2.get? (safeName key)) := by
  obtain ⟨hanswers, hlast⟩ := (mirrors_start dir safeName Set.univ).serve
    (fun _ _ _ _ => Iff.rfl) requests fun _ _ => Set.mem_univ _
  refine ⟨hanswers, fun key => ?_⟩
  rw [found, ask_directory_get]
  exact congrArg Except.ok (hlast key (Set.mem_univ key))

/-- Keys that share no safe name are kept as a memory keeps them. -/
theorem serveDirectory_eq_serveMemory (hkeys : keys.InjOn safeName) {requests : List Request}
    (h : ∀ r ∈ requests, r.key ∈ keys) :
    (serveDirectory dir requests).1 = (serveMemory requests).1 := by
  have hid : requests.map (·.mapKey id) = requests := by
    refine (List.map_congr_left fun r _ => ?_).trans requests.map_id
    cases r <;> rfl
  have hserve := (mirrors_start dir id keys).serve
    (fun key hkey key' hkey' => hkeys.eq_iff hkey hkey') requests h
  rw [hid] at hserve
  exact hserve.1

/-- A look-up finds the text of another key with the same safe name. -/
theorem serveDirectory_shared {key key' : String} (h : safeName key = safeName key') (dir value : String) :
    (serveDirectory dir [.set key value, .get key']).1 = [.ok none, .ok (some value)] := by
  rw [(serveDirectory_eq dir _).1]
  change [Except.ok none, .ok ((Keyed.empty.insert (safeName key) value).get? (safeName key'))] = _
  rw [Keyed.get?_insert, if_pos h.symm]

theorem serveMemory_set_get {key key' : String} (h : key ≠ key') (value : String) :
    (serveMemory [.set key value, .get key']).1 = [.ok none, .ok none] := by
  change [Except.ok none, .ok ((Keyed.empty.insert key value).get? key')] = _
  rw [Keyed.get?_insert, if_neg h.symm]
  rfl

theorem serve_concat {σ : Type} (store : Store (StateM σ)) (s : σ) (requests : List Request)
    (r : Request) :
    (store.serve s (requests ++ [r])).2 = (store.ask (store.serve s requests).2 r).2 := by
  induction requests generalizing s with
  | nil => rfl
  | cons _ _ ih => exact ih _

/-- A request leaves what is found under other safe names. -/
theorem found_concat {requests : List Request} {r : Request} {key : String}
    (h : safeName key ≠ safeName r.key) : found dir (requests ++ [r]) key = found dir requests key := by
  rw [(serveDirectory_eq dir _).2, (serveDirectory_eq dir _).2, List.map_append, List.map_singleton,
    serveMemory, serve_concat]
  cases r with
  | get key' => rw [Request.mapKey, ask_memory_get]
  | set key' value =>
    have hname : safeName key ≠ safeName key' := h
    rw [Request.mapKey, ask_memory_set, Keyed.get?_insert, if_neg hname]
  | remove key' =>
    have hname : safeName key ≠ safeName key' := h
    rw [Request.mapKey, ask_memory_remove, Keyed.get?_erase, if_neg hname]

/-- **A directory is a store of safe names.** It answers every run of requests as the memory does that
is asked for the safe names of the keys. So it answers as a memory for exactly those sets of keys in
which no two share a safe name. A request changes nothing that is found under a key with another safe
name, and keys with the same safe name always find the same. -/
theorem directory_law (dir : String) :
    (∀ requests : List Request, (serveDirectory dir requests).1 =
      (serveMemory (requests.map (·.mapKey safeName))).1) ∧
    (∀ keys : Set String, (∀ requests : List Request, (∀ r ∈ requests, r.key ∈ keys) →
      (serveDirectory dir requests).1 = (serveMemory requests).1) ↔ keys.InjOn safeName) ∧
    (∀ (requests : List Request) (r : Request) (key : String), safeName key ≠ safeName r.key →
      found dir (requests ++ [r]) key = found dir requests key) ∧
    ∀ (requests : List Request) (key key' : String), safeName key = safeName key' →
      found dir requests key = found dir requests key' := by
  refine ⟨fun requests => (serveDirectory_eq dir requests).1, fun keys => ⟨fun hagree => ?_, ?_⟩,
    fun requests r key h => found_concat h, fun requests key key' h => ?_⟩
  · -- Two keys with one safe name tell the stores apart.
    intro key hkey key' hkey' hname
    by_contra hne
    have hanswers := hagree [.set key "", .get key'] (by simp [Request.key, hkey, hkey'])
    rw [serveDirectory_shared hname, serveMemory_set_get hne] at hanswers
    simp at hanswers
  · exact fun hkeys requests h => serveDirectory_eq_serveMemory hkeys h
  · rw [(serveDirectory_eq dir requests).2, (serveDirectory_eq dir requests).2, h]

/-- The keys of this library share no safe name. -/
theorem directory_law_storeKeys :
    let keys : Set String := {"fxgraph:graph:v1", "fxgraph:ui-state:v1", "fxgraph:presets:v1"}
    keys.InjOn safeName ∧ ∀ requests : List Request, (∀ r ∈ requests, r.key ∈ keys) →
      (serveDirectory "state" requests).1 = (serveMemory requests).1 := by
  intro keys
  have hkeys : keys.InjOn safeName := by
    intro key hkey key' hkey' h
    simp only [keys, Set.mem_insert_iff, Set.mem_singleton_iff] at hkey hkey'
    rcases hkey with rfl | rfl | rfl <;> rcases hkey' with rfl | rfl | rfl <;>
      first | rfl | exact absurd h (by decide)
  exact ⟨hkeys, ((directory_law "state").2.1 keys).2 hkeys⟩

/-- **Two keys can share a file**: a text is found under a key for which none was set, and lost when
that key is removed. -/
theorem serve_sharedFile :
    let requests : List Request := [.set "a:b" "1", .get "a_b", .remove "a_b", .get "a:b"]
    (serveDirectory "state" requests).1 = [.ok none, .ok (some "1"), .ok none, .ok none] ∧
    (serveMemory requests).1 = [.ok none, .ok none, .ok none, .ok (some "1")] := by
  intro requests
  exact ⟨(serveDirectory_eq "state" requests).1.trans rfl, rfl⟩

end Store

end Pedalboard
