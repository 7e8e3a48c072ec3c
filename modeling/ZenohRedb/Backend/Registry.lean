import ZenohRedb.Lib.Exclusive
import ZenohRedb.Lib.Runs
import ZenohRedb.Backend.Clones

set_option autoImplicit false

/-! # The registry is a map, and storages are exclusive

The abstract registry is the map that the insertions, removals and clears of a run make of
the empty one, in the order in which they took the lock (`replay`). The invariant of the
backend (`Backend.Inv`) is that storages are registered under their names, and that the clones
there are, in the map, in calls in progress or with callers, have their files to themselves.
-/

namespace ZenohRedb

open TxStore

/-! ## What took the lock for writing -/

/-- A change of the registry. -/
inductive RegistryEvent
  | insert (name : String) (arc : StorageArc)
  | remove (name : String)
  | clear

/-- The change a result reports. -/
def BackendResult.event : BackendResult → Option RegistryEvent
  | .created name (.ok arc) => some (.insert name arc)
  | .removed name (.ok ()) => some (.remove name)
  | .closed => some .clear
  | _ => none

/-- A map from names to storages. -/
abbrev NameMap := String → Option StorageArc

namespace NameMap

/-- What a change does to the map. -/
def apply (m : NameMap) : RegistryEvent → NameMap
  | .insert name arc => Function.update m name (some arc)
  | .remove name => Function.update m name none
  | .clear => fun _ => none

/-- The changes some results report, in their order. -/
def applyAll (m : NameMap) (results : List BackendResult) : NameMap :=
  (results.filterMap BackendResult.event).foldl apply m

/-- The changes a run reports, made to the empty map. -/
def replay (results : List BackendResult) : NameMap := applyAll (fun _ => none) results

theorem applyAll_cons (m : NameMap) (r : BackendResult) (results : List BackendResult) :
    m.applyAll (r :: results) = (r.event.elim m m.apply).applyAll results := by
  unfold applyAll
  rw [List.filterMap_cons]
  cases r.event <;> rfl

end NameMap

/-! ## The invariant -/

namespace Backend

variable {b b' : Backend} {arc : StorageArc} {name : String}

/-- The file a storage has open. -/
def fileOf (b : Backend) (arc : StorageArc) : PathBuf := b.disk.resolve arc.storage.db

theorem fileOf_congr (h : b'.disk.resolve = b.disk.resolve) : b'.fileOf = b.fileOf := by
  funext arc
  unfold fileOf
  rw [h]

/-- The clones that are alive have their files to themselves. -/
def Owns (b : Backend) (live : Set StorageArc) : Prop := Exclusive b.fileOf b.disk.locked live

/-- Storages are registered under their names, and the clones there are have their files to
themselves. -/
structure Inv (b : Backend) : Prop where
  registeredName : ∀ (name : String) arc, b.storages[name]? = some arc → arc.storage.name = name
  openedName : ∀ p ∈ b.opened, p.2.storage.name = p.1
  owns : b.Owns {arc | arc ∈ b.live}

theorem inv_new (config : RedbBackendConfig) (disk : Disk) : (new config disk).Inv where
  registeredName _ _ h := by cases h
  openedName _ h := by cases h
  owns := Exclusive.empty.subset fun _ h => absurd h (notMem_live_new config disk)

/-! ## Dropping clones -/

section Drop

variable (b arc)

@[simp] theorem fileOf_dropArc : (b.dropArc arc).fileOf = b.fileOf := by
  unfold dropArc
  split
  · rfl
  · funext a
    simp only [fileOf, RedbStorage.drop, Disk.resolve_close]

variable {b arc}

/-- Dropping a clone keeps the files of the others locked. Either a clone of the same storage
is left, or nobody has its file. -/
theorem Owns.dropArc (h : b.Owns {a | a ∈ b.live})
    (harc : arc ∈ b.live ∨ b.fileOf arc ∉ b.fileOf '' {a | a ∈ b.live}) :
    (b.dropArc arc).Owns {a | a ∈ (b.dropArc arc).live} := by
  unfold Owns
  rw [fileOf_dropArc, live_dropArc]
  unfold Backend.dropArc
  split
  · exact h
  · next hlast =>
      -- the last clone of its storage: the lock that goes is nobody else's
      have hfree := harc.resolve_left hlast
      show Exclusive b.fileOf (b.disk.close arc.storage.db).locked _
      rw [Disk.locked_close]
      exact h.unlock hfree

/-- A clone that has gone, out of those there were: a clone of the same storage is left, or
nobody has its file. -/
theorem Owns.gone (h : b.Owns {a | a ∈ b.live}) (hdisk : b'.disk = b.disk)
    (hsub : ∀ a ∈ b'.live, a ∈ b.live) (harc : arc ∈ b.live) :
    arc ∈ b'.live ∨ b'.fileOf arc ∉ b'.fileOf '' {a | a ∈ b'.live} := by
  by_cases hleft : arc ∈ b'.live
  · exact Or.inl hleft
  · right
    rw [fileOf_congr (congrArg Disk.resolve hdisk)]
    exact h.notMem_image harc hsub hleft

theorem Inv.dropArc (h : b.Inv)
    (harc : arc ∈ b.live ∨ b.fileOf arc ∉ b.fileOf '' {a | a ∈ b.live}) :
    (b.dropArc arc).Inv where
  registeredName := by
    rw [storages_dropArc]
    exact h.registeredName
  openedName := by
    rw [opened_dropArc]
    exact h.openedName
  owns := h.owns.dropArc harc

/-- Dropping several clones, one after the other. -/
theorem Inv.foldl_dropArc (h : b.Inv) (arcs : List StorageArc)
    (harcs : ∀ arc ∈ arcs, arc ∈ b.live ∨ b.fileOf arc ∉ b.fileOf '' {a | a ∈ b.live}) :
    (arcs.foldl Backend.dropArc b).Inv := by
  induction arcs generalizing b with
  | nil => exact h
  | cons arc arcs ih =>
      refine ih (h.dropArc (harcs arc (by simp))) fun arc' harc' => ?_
      rw [live_dropArc, fileOf_dropArc]
      exact harcs arc' (List.mem_cons_of_mem _ harc')

theorem storages_foldl_dropArc (arcs : List StorageArc) :
    (arcs.foldl Backend.dropArc b).storages = b.storages := by
  induction arcs generalizing b with
  | nil => rfl
  | cons arc arcs ih => exact ih.trans (storages_dropArc b arc)

end Drop

/-! ## One step keeps the invariant -/

theorem Inv.openStorage (h : b.Inv) (name : String) (config : Option RedbStorageConfig)
    (fs : List (Option String)) : (b.openStorage name config fs).2.Inv := by
  unfold Backend.openStorage
  generalize config.getD b.config.defaultStorageConfig = storageConfig
  generalize hpath : storageConfig.effectiveDbPath name b.config = dbPath
  rcases RedbStorage.new_locks b.disk fs dbPath storageConfig name with
    ⟨e, d', hnew, hres, hlocked⟩ | ⟨d', hnew, hres, hfree, hlocked⟩
  · -- opening failed, and no lock was taken away
    simp only [hpath, hnew]
    refine ⟨h.registeredName, h.openedName, ?_⟩
    unfold Owns
    rw [fileOf_congr (b := b) hres]
    exact h.owns.lock hlocked
  · simp only [hpath, hnew]
    constructor
    case registeredName => exact h.registeredName
    case openedName =>
      intro p hp
      rcases List.mem_cons.mp hp with rfl | hp
      · rfl
      · exact h.openedName p hp
    case owns =>
      -- the new storage acquires a file that nobody had
      have hnew := Exclusive.acquire
        (x := (⟨b.nextId, ⟨dbPath, storageConfig, name⟩⟩ : StorageArc)) h.owns hfree
      unfold Owns
      rw [fileOf_congr (b := b) hres, hlocked]
      refine hnew.subset fun arc harc => ?_
      rcases mem_live.mp harc with hreg | ⟨name', hmem⟩ | hheld
      · exact Or.inr (mem_live.mpr (Or.inl hreg))
      · rcases List.mem_cons.mp hmem with heq | hmem
        · exact Or.inl (Prod.mk.inj heq).2
        · exact Or.inr (mem_live.mpr (Or.inr (Or.inl ⟨name', hmem⟩)))
      · exact Or.inr (mem_live.mpr (Or.inr (Or.inr hheld)))

theorem Inv.register (h : b.Inv) (hopened : (name, arc) ∈ b.opened) :
    (b.register name arc).Inv where
  registeredName name' a ha := by
    rw [Backend.register, getElem?_insert_eq_ite] at ha
    split at ha
    · next heq =>
        rw [← Option.some.inj ha, ← heq]
        exact h.openedName _ hopened
    · exact h.registeredName name' a ha
  openedName p hp := h.openedName p (List.mem_of_mem_erase hp)
  owns := h.owns.subset fun _ => mem_live_register hopened

theorem Inv.insertStorage (h : b.Inv) (id : Nat) : (b.insertStorage id).2.Inv := by
  unfold Backend.insertStorage
  cases hfind : b.opened.find? (·.2.id = id) with
  | none => exact h
  | some found =>
      obtain ⟨name, arc⟩ := found
      have hopened : (name, arc) ∈ b.opened := List.mem_of_find?_eq_some hfind
      cases hold : b.storages[name]? with
      | none =>
          simp only [hold]
          exact h.register hopened
      | some replaced =>
          -- the replaced storage goes unless a caller holds a clone of it
          simp only [hold]
          refine (h.register hopened).dropArc
            (h.owns.gone rfl (fun _ => mem_live_register hopened) ?_)
          exact mem_live.mpr (Or.inl ⟨name, hold⟩)

theorem Inv.getStorage (h : b.Inv) (name : String) : (b.getStorage name).2.Inv := by
  unfold Backend.getStorage
  cases hreg : b.storages[name]? with
  | none => exact h
  | some arc =>
      refine ⟨h.registeredName, h.openedName, h.owns.subset fun a ha => ?_⟩
      rcases mem_live.mp ha with hreg' | hopened | hheld
      · exact mem_live.mpr (Or.inl hreg')
      · exact mem_live.mpr (Or.inr (Or.inl hopened))
      · rcases List.mem_cons.mp hheld with rfl | hheld
        · exact mem_live.mpr (Or.inl ⟨name, hreg⟩)
        · exact mem_live.mpr (Or.inr (Or.inr hheld))

theorem Inv.removeStorage (h : b.Inv) (name : String) : (b.removeStorage name).2.Inv := by
  unfold Backend.removeStorage
  cases hreg : b.storages[name]? with
  | none => exact h
  | some arc =>
      have hsub := b.live_of_erase name
      refine Inv.dropArc ⟨fun name' a ha => h.registeredName name' a (getElem?_of_erase ha),
        h.openedName, h.owns.subset hsub⟩ (h.owns.gone rfl hsub ?_)
      exact mem_live.mpr (Or.inl ⟨name, hreg⟩)

theorem Inv.close (h : b.Inv) : b.close.2.Inv := by
  have hsub := b.live_of_clear
  have hcleared : { b with storages := ∅ }.Inv :=
    ⟨fun _ _ ha => (by cases ha), h.openedName, h.owns.subset hsub⟩
  -- what was registered is dropped after the map has been cleared
  refine hcleared.foldl_dropArc b.registered fun arc harc => h.owns.gone rfl hsub ?_
  exact mem_live.mpr (Or.inl (mem_registered.mp harc))

theorem Inv.dropStorage (h : b.Inv) (id : Nat) : (b.dropStorage id).2.Inv := by
  unfold Backend.dropStorage
  cases hfind : b.held.find? (·.id = id) with
  | none => exact h
  | some arc =>
      have hsub := b.live_of_release arc
      refine Inv.dropArc ⟨h.registeredName, h.openedName, h.owns.subset hsub⟩
        (h.owns.gone rfl hsub ?_)
      exact mem_live.mpr (Or.inr (Or.inr (List.mem_of_find?_eq_some hfind)))

theorem Inv.changeFile (h : b.Inv) (path : PathBuf) (entry : FileEntry) :
    (b.changeFile path entry).2.Inv := by
  unfold Backend.changeFile
  split
  · next hallowed =>
      refine ⟨h.registeredName, h.openedName, ?_⟩
      show Exclusive b.fileOf (b.disk.write path entry).locked _
      rw [Disk.locked_write]
      -- the file is open from now on, or no clone here has it
      cases ho : entry.isOpen with
      | true => exact h.owns.lock (Set.subset_insert _ _)
      | false =>
          rw [ho] at hallowed
          refine h.owns.unlock ?_
          rintro ⟨arc, harc, heq⟩
          exact (hallowed.resolve_left Bool.false_ne_true) arc harc heq
  · exact h

theorem Inv.step (h : b.Inv) (a : BackendAction) : (b.step a).2.Inv := by
  cases a with
  | openStorage name config faults => exact h.openStorage name config faults
  | insertStorage id => exact h.insertStorage id
  | getStorage name => exact h.getStorage name
  | removeStorage name => exact h.removeStorage name
  | listStorages => exact h
  | storageCount => exact h
  | hasStorage name => exact h
  | close => exact h.close
  | dropStorage id => exact h.dropStorage id
  | changeFile path entry => exact h.changeFile path entry

/-! ## The registry follows the changes -/

/-- The registry holds what the map holds. -/
def Holds (b : Backend) (m : NameMap) : Prop := ∀ name : String, b.storages[name]? = m name

variable {m : NameMap}

theorem Holds.register (h : b.Holds m) (name : String) (arc : StorageArc) :
    (b.register name arc).Holds (m.apply (.insert name arc)) := by
  intro name'
  rw [Backend.register, getElem?_insert_eq_ite, h name', NameMap.apply, Function.update_apply]
  simp only [eq_comm (a := name)]

/-- Dropping a clone is no change. -/
theorem Holds.dropArc (h : b.Holds m) (arc : StorageArc) : (b.dropArc arc).Holds m := by
  intro name
  rw [storages_dropArc]
  exact h name

theorem step_holds (h : b.Holds m) (a : BackendAction) :
    (b.step a).2.Holds ((b.step a).1.event.elim m m.apply) := by
  cases a with
  | openStorage name config faults =>
      simp only [step, openStorage]
      split <;> exact h
  | insertStorage id =>
      simp only [step, insertStorage]
      cases b.opened.find? (·.2.id = id) with
      | none => exact h
      | some found =>
          obtain ⟨name, arc⟩ := found
          have hinsert := h.register name arc
          cases hold : b.storages[name]? with
          | none =>
              simp only [hold]
              exact hinsert
          | some replaced =>
              simp only [hold]
              exact hinsert.dropArc replaced
  | getStorage name =>
      simp only [step, getStorage]
      split <;> exact h
  | removeStorage name =>
      simp only [step, removeStorage]
      cases hreg : b.storages[name]? with
      | none => exact h
      | some arc =>
          intro name'
          rw [storages_dropArc, getElem?_erase_eq_ite, h name']
          simp only [BackendResult.event, Option.elim, NameMap.apply, Function.update_apply,
            eq_comm (a := name)]
  | listStorages => exact h
  | storageCount => exact h
  | hasStorage name => exact h
  | close =>
      intro name
      simp only [step, close, storages_foldl_dropArc]
      rfl
  | dropStorage id =>
      simp only [step, dropStorage]
      cases b.held.find? (·.id = id) with
      | none => exact h
      | some arc => exact Holds.dropArc (b := { b with held := b.held.erase arc }) h arc
  | changeFile path entry =>
      simp only [step, changeFile]
      split <;> exact h

theorem run_holds (h : b.Holds m) (actions : List BackendAction) :
    (Runs.run step b actions).2.Holds (m.applyAll (Runs.run step b actions).1) := by
  induction actions generalizing b m with
  | nil => exact h
  | cons a actions ih =>
      show (Runs.run step (b.step a).2 actions).2.Holds
        (m.applyAll ((b.step a).1 :: (Runs.run step (b.step a).2 actions).1))
      rw [NameMap.applyAll_cons]
      exact ih (step_holds h a)

/-! ## Whole runs -/

/-- What the backend promises in a state whose registry is to be `m`. -/
structure Correct (b : Backend) (m : NameMap) : Prop where
  /-- The registry is `m`, and so are the answers about one name. -/
  registry : ∀ name : String, b.storages[name]? = m name
  get_ok : ∀ name arc, (b.step (.getStorage name)).1 = .found name (.ok arc) ↔ m name = some arc
  get_error : ∀ name, (∃ e, (b.step (.getStorage name)).1 = .found name (.error e)) ↔
    m name = none
  remove_error : ∀ name, (∃ e, (b.step (.removeStorage name)).1 = .removed name (.error e)) ↔
    m name = none
  /-- The other changes report what they do: opening a storage says why it has failed or which
  storage it has opened, that storage is then inserted, a name that is registered is removed, and
  `close` clears. -/
  open_reports : ∀ name config faults,
    (∃ e, (b.step (.openStorage name config faults)).1 = .created name (.error e)) ∨
    ∃ arc, (b.step (.openStorage name config faults)).1 = .opened arc.id ∧
      (name, arc) ∈ (b.step (.openStorage name config faults)).2.opened
  insert_ok : ∀ name arc, (name, arc) ∈ b.opened →
    (b.step (.insertStorage arc.id)).1 = .created name (.ok arc)
  remove_ok : ∀ name, (b.step (.removeStorage name)).1 = .removed name (.ok ()) ↔ m name ≠ none
  close_reports : (b.step .close).1 = .closed
  has : ∀ name, (b.step (.hasStorage name)).1 = .has name true ↔
    ∃ arc, (b.step (.getStorage name)).1 = .found name (.ok arc)
  /-- The names are listed once each, and counted. -/
  list : ∃ l, (b.step .listStorages).1 = .names l ∧ l.Nodup ∧
    (∀ name, name ∈ l ↔ m name ≠ none) ∧ (b.step .storageCount).1 = .count l.length
  /-- A call that fails leaves the registry as it is. -/
  unchanged : ∀ a name e, ((b.step a).1 = .created name (.error e) ∨
    (b.step a).1 = .removed name (.error e)) → (b.step a).2.storages = b.storages
  /-- Storages are registered under their names. -/
  named : ∀ name arc, m name = some arc → arc.storage.name = name
  /-- No two storages that are alive, registered or not, have one file. -/
  exclusive : ∀ arc ∈ b.live, ∀ arc' ∈ b.live,
    b.disk.resolve arc.storage.db = b.disk.resolve arc'.storage.db → arc = arc'

theorem getStorage_result (hm : b.Holds m) (name : String) :
    (b.step (.getStorage name)).1
      = .found name ((m name).elim (.error (.storageNotFound name)) .ok) := by
  simp only [step, getStorage, hm name]
  cases m name <;> rfl

theorem removeStorage_result (hm : b.Holds m) (name : String) :
    (b.step (.removeStorage name)).1
      = .removed name ((m name).elim (.error (.storageNotFound name)) fun _ => .ok ()) := by
  simp only [step, removeStorage, hm name]
  cases m name <;> rfl

theorem openStorage_result (b : Backend) (name : String) (config : Option RedbStorageConfig)
    (faults : List (Option String)) :
    (∃ e, (b.step (.openStorage name config faults)).1 = .created name (.error e)) ∨
    ∃ arc, (b.step (.openStorage name config faults)).1 = .opened arc.id ∧
      (name, arc) ∈ (b.step (.openStorage name config faults)).2.opened := by
  simp only [step, openStorage]
  split
  · exact Or.inl ⟨_, rfl⟩
  · next storage _ _ => exact Or.inr ⟨⟨b.nextId, storage⟩, rfl, List.mem_cons_self⟩

/-- An opened storage is found under its number. -/
theorem Inv.find_opened (h : b.Inv) (hids : b.Ids) (hopened : (name, arc) ∈ b.opened) :
    b.opened.find? (·.2.id = arc.id) = some (name, arc) := by
  cases hfind : b.opened.find? (·.2.id = arc.id) with
  | none => exact absurd (decide_eq_true rfl) (List.find?_eq_none.mp hfind (name, arc) hopened)
  | some found =>
      obtain ⟨name', arc'⟩ := found
      have hfound : (name', arc') ∈ b.opened := List.mem_of_find?_eq_some hfind
      have hid : arc'.id = arc.id := by simpa using List.find?_some hfind
      have hlive : ∀ p ∈ b.opened, p.2 ∈ b.live :=
        fun p hp => mem_live.mpr (Or.inr (Or.inl ⟨p.1, hp⟩))
      obtain rfl : arc' = arc := hids.unique arc' (hlive _ hfound) arc (hlive _ hopened) hid
      -- the storage has one name, and is entered under that
      obtain rfl : name' = name := (h.openedName _ hfound).symm.trans (h.openedName _ hopened)
      rfl

theorem insertStorage_result (h : b.Inv) (hids : b.Ids) (hopened : (name, arc) ∈ b.opened) :
    (b.step (.insertStorage arc.id)).1 = .created name (.ok arc) := by
  simp only [step, insertStorage, h.find_opened hids hopened]

/-- A call that fails reports no change, so there is none. -/
theorem storages_of_error (a : BackendAction) (name : String) (e : RedbBackendError)
    (he : (b.step a).1 = .created name (.error e) ∨ (b.step a).1 = .removed name (.error e)) :
    (b.step a).2.storages = b.storages := by
  have hevent : (b.step a).1.event = none := by
    rcases he with he | he <;> rw [he] <;> rfl
  have hstep := step_holds (b := b) (m := fun name => b.storages[name]?) (fun _ => rfl) a
  rw [hevent] at hstep
  exact Std.ExtTreeMap.ext_getElem? fun name => hstep name

theorem Inv.correct (h : b.Inv) (hids : b.Ids) (hm : b.Holds m) : b.Correct m where
  registry := hm
  get_ok name arc := by
    rw [getStorage_result hm]
    cases m name <;> simp
  get_error name := by
    rw [getStorage_result hm]
    cases m name <;> simp
  remove_error name := by
    rw [removeStorage_result hm]
    cases m name <;> simp
  open_reports := openStorage_result b
  insert_ok _ _ := insertStorage_result h hids
  remove_ok name := by
    rw [removeStorage_result hm]
    cases m name <;> simp
  close_reports := rfl
  has name := by
    rw [getStorage_result hm]
    have hmem : b.storages.contains name = (m name).isSome := by
      rw [Std.ExtTreeMap.contains_eq_isSome_getElem?, hm name]
    show BackendResult.has name (b.storages.contains name) = _ ↔ _
    rw [hmem]
    cases m name <;> simp
  list := by
    refine ⟨b.storages.keys, rfl, Std.ExtTreeMap.nodup_keys, fun name => ?_, ?_⟩
    · rw [Std.ExtTreeMap.mem_keys, Std.ExtTreeMap.mem_iff_isSome_getElem?, hm name]
      exact Option.isSome_iff_ne_none
    · rw [Std.ExtTreeMap.length_keys]
      rfl
  unchanged := storages_of_error
  named name arc hreg := h.registeredName name arc ((hm name).trans hreg)
  exclusive arc harc arc' harc' heq := h.owns.unique harc harc' heq

/-- **The registry is a map, whatever comes between.** Start with an empty registry on any
disk and let the steps of the calls of any threads come in any order. Then the registry is the
map that the insertions, removals and clears of the run make, and the promises hold. -/
theorem run_correct (config : RedbBackendConfig) (disk : Disk) (actions : List BackendAction) :
    (Runs.run step (new config disk) actions).2.Correct
      (.replay (Runs.run step (new config disk) actions).1) :=
  have hinv : (Runs.run step (new config disk) actions).2.Inv :=
    Runs.run_inv Inv (fun _ a _ h => h.step a) (inv_new config disk)
  have hids : (Runs.run step (new config disk) actions).2.Ids :=
    Runs.run_inv Ids (fun _ a _ h => h.step a) (ids_new config disk)
  hinv.correct hids (run_holds (fun _ => rfl) actions)

end Backend

end ZenohRedb
