import ZenohRedb.Backend.Locks

set_option autoImplicit false

/-! # A backend and the callers of its storages

The threads of a program take the steps of the backend's calls and call the operations of the
storages they hold, in any order (`act`). Calls on one database are linearizable
(`Storage/Concurrent.lean`), so a call is one step here.

What the system is for: every file is a map. The maps are changed by the calls that succeed and
by nothing else: not by creating, removing, replacing and closing storages, not by calls that
fail (`run_maps`). A file is locked exactly while a clone of its storage is alive
(`run_locked`), so a storage that everybody has dropped can be created again, and finds its
entries (`run_createStorage`).

A run starts without open databases, on files that stand for maps (`Disk.Keeps`): a database on
the disk has no tables yet or the two tables of a storage. That a call that fails has no effect
on what a later storage finds in the file rests on what is assumed of a failing commit
(`Lib/Store.lean`): it leaves the old contents, also on the disk.
-/

namespace ZenohRedb

open TxStore

/-- What the threads do. -/
inductive SystemAction
  | backend (a : BackendAction)
  /-- Call an operation of the storage that is held under the number, on a thread whose key
  buffer holds `buf`. -/
  | call (id : Nat) (c : StorageCall) (buf : Bytes) (faults : List (Option String))

/-- What it returns. -/
inductive SystemResult
  | backend (r : BackendResult)
  | reply (arc : StorageArc) (file : PathBuf) (c : StorageCall) (r : Except RedbBackendError Reply)
  | nothing

/-- A step that is not somebody else's doing. -/
def SystemAction.Ours : SystemAction → Prop
  | .backend a => a.Ours
  | .call _ _ _ _ => True

namespace Backend

/-- A caller calls an operation of a storage it holds. -/
def callStorage (z : ZExt) (b : Backend) (id : Nat) (c : StorageCall) (buf : Bytes)
    (faults : List (Option String)) : SystemResult × Backend :=
  match b.held.find? (·.id = id) with
  | none => (.nothing, b)
  | some arc =>
      match arc.storage.onDisk (c.prog z arc.storage) faults buf b.disk with
      | (r, _, disk) => (.reply arc (b.fileOf arc) c r, { b with disk })

/-- One step of any thread. -/
def act (z : ZExt) (b : Backend) : SystemAction → SystemResult × Backend
  | .backend a => (.backend (b.step a).1, (b.step a).2)
  | .call id c buf faults => b.callStorage z id c buf faults

end Backend

/-- The calls of a result that succeeded, made to the maps. -/
def FileMaps.apply (maps : FileMaps) : SystemResult → FileMaps
  | .reply _ file c (.ok _) => Function.update maps file ((maps file).call c).2
  | _ => maps

/-- The calls of a run that succeeded, made to the maps in their order. -/
def FileMaps.replay (maps : FileMaps) (results : List SystemResult) : FileMaps :=
  results.foldl FileMaps.apply maps

/-! ## One step -/

namespace Backend

variable {z : ZExt} {b : Backend} {maps : FileMaps}

theorem keeps_dropArc (h : b.disk.Keeps z maps) (arc : StorageArc) :
    (b.dropArc arc).disk.Keeps z maps := by
  unfold dropArc
  split
  · exact h
  · exact h.close arc.storage.db

theorem keeps_foldl_dropArc (h : b.disk.Keeps z maps) (arcs : List StorageArc) :
    (arcs.foldl dropArc b).disk.Keeps z maps := by
  induction arcs generalizing b with
  | nil => exact h
  | cons arc arcs ih => exact ih (keeps_dropArc h arc)

/-- The steps of the backend's calls keep the maps of all files. -/
theorem keeps_step (h : b.disk.Keeps z maps) {a : BackendAction} (ha : a.Ours) :
    (b.step a).2.disk.Keeps z maps := by
  cases a with
  | openStorage name config faults =>
      have hnew := h.new faults (b.createPath name config)
        (config.getD b.config.defaultStorageConfig) name
      unfold createPath at hnew
      simp only [step, openStorage]
      split <;> next heq => rw [heq] at hnew; exact hnew
  | insertStorage id =>
      simp only [step, insertStorage]
      split
      · exact h
      · split
        · refine keeps_dropArc ?_ _
          exact h
        · exact h
  | getStorage name =>
      simp only [step, getStorage]
      split <;> exact h
  | removeStorage name =>
      simp only [step, removeStorage]
      split
      · refine keeps_dropArc ?_ _
        exact h
      · exact h
  | listStorages => exact h
  | storageCount => exact h
  | hasStorage name => exact h
  | close => exact keeps_foldl_dropArc (b := { b with storages := ∅ }) h b.registered
  | dropStorage id =>
      simp only [step, dropStorage]
      split
      · exact h
      · refine keeps_dropArc ?_ _
        exact h
  | changeFile path entry => exact ha.elim

/-- The backend is sound, and its files stand for the maps. -/
structure Sound (z : ZExt) (b : Backend) (maps : FileMaps) : Prop where
  inv : b.Inv
  keeps : b.disk.Keeps z maps

/-- What a call on a storage that somebody holds does: in an error of redb nothing changes, and
otherwise it does what it does to the map of the file. -/
theorem Sound.callStorage (h : b.Sound z maps) {id : Nat} {arc : StorageArc}
    (hheld : b.held.find? (·.id = id) = some arc) (c : StorageCall) (buf : Bytes)
    (fs : List (Option String)) :
    ∃ r disk, b.callStorage z id c buf fs = (.reply arc (b.fileOf arc) c r, { b with disk }) ∧
      (∀ file ≠ b.fileOf arc, disk.files file = b.disk.files file) ∧
      disk.resolve = b.disk.resolve ∧ disk.locked = b.disk.locked ∧
      ((fs ≠ [] ∧ ∃ e, r = .error e ∧ e.isRedb = true ∧ disk = b.disk) ∨
        (r.map Reply.canon
            = ((maps (b.fileOf arc)).answer arc.storage.config.readOnly c).1.map Reply.canon ∧
          disk.Keeps z (Function.update maps (b.fileOf arc)
            ((maps (b.fileOf arc)).answer arc.storage.config.readOnly c).2))) := by
  have hlive : arc ∈ b.live :=
    mem_live.mpr (Or.inr (Or.inr (List.mem_of_find?_eq_some hheld)))
  have hcall := h.keeps.call arc.storage (h.inv.locked hlive) c fs buf
  obtain ⟨hres, hlocked, hframe⟩ :=
    Disk.onDisk_frame arc.storage (c.prog z arc.storage) fs buf b.disk
  refine ⟨_, _, ?_, hframe, hres, hlocked, hcall⟩
  unfold Backend.callStorage
  rw [hheld]

/-- The maps after a call are those its result says. -/
theorem update_answer {maps : FileMaps} {arc : StorageArc} {file : PathBuf} {c : StorageCall}
    {r : Except RedbBackendError Reply}
    (hr : r.map Reply.canon
      = ((maps file).answer arc.storage.config.readOnly c).1.map Reply.canon) :
    Function.update maps file ((maps file).answer arc.storage.config.readOnly c).2
      = maps.apply (.reply arc file c r) := by
  unfold EntryMap.answer at hr ⊢
  by_cases hrefused : (c.isWrite && arc.storage.config.readOnly) = true
  · rw [if_pos hrefused] at hr ⊢
    cases r with
    | ok reply => cases hr
    | error e => exact Function.update_eq_self file maps
  · rw [if_neg hrefused] at hr ⊢
    cases r with
    | ok reply => rfl
    | error e => cases hr

theorem Inv.of_disk {disk : Disk} (h : b.Inv) (hres : disk.resolve = b.disk.resolve)
    (hlocked : disk.locked = b.disk.locked) : { b with disk }.Inv where
  registeredName := h.registeredName
  openedName := h.openedName
  owns := by
    unfold Owns
    rw [fileOf_congr (b := b) hres, hlocked]
    exact h.owns

theorem Sound.act (h : b.Sound z maps) {a : SystemAction} (ha : a.Ours) :
    (b.act z a).2.Sound z (maps.apply (b.act z a).1) := by
  cases a with
  | backend a => exact ⟨h.inv.step a, keeps_step h.keeps ha⟩
  | call id c buf fs =>
      simp only [Backend.act]
      cases hheld : b.held.find? (·.id = id) with
      | none =>
          unfold Backend.callStorage
          rw [hheld]
          exact h
      | some arc =>
          obtain ⟨r, disk, hrun, -, hres, hlocked, herr | ⟨hr, hkeeps⟩⟩ :=
            h.callStorage hheld c buf fs
          · obtain ⟨-, e, rfl, -, rfl⟩ := herr
            rw [hrun]
            exact h
          · rw [hrun]
            refine ⟨h.inv.of_disk hres hlocked, ?_⟩
            rw [← update_answer hr]
            exact hkeeps

/-! ## Whole runs -/

section Run

variable (z : ZExt) (config : RedbBackendConfig) {disk : Disk} {actions : List SystemAction}
  {results : List SystemResult}

/-- In every state of a run the files stand for the maps that the calls so far have made. -/
theorem run_sound (hdisk : disk.Keeps z maps) (ha : ∀ a ∈ actions, a.Ours)
    (hrun : Runs.run (act z) (new config disk) actions = (results, b)) :
    b.Sound z (maps.replay results) := by
  have hnew : (new config disk).Sound z maps := ⟨inv_new config disk, hdisk⟩
  have hfold := Runs.run_fold (act z) FileMaps.apply (fun maps b => b.Sound z maps)
    (fun maps b a hmem h => h.act (ha a hmem)) hnew
  rw [hrun] at hfold
  exact hfold

/-- **Every file is a map.** Start on a disk whose files stand for some maps, and let any
threads take the steps of the backend's calls and call the storages they hold, in any order and
with any faults, a failing commit leaving the old contents. Then a call returns what the map of
its file says, where the maps are those that the calls so far have made that succeeded; or it
ends in an error of redb that has no effect, which does not happen without faults. Other files
stay as they are. -/
theorem run_maps (hdisk : disk.Keeps z maps) (ha : ∀ a ∈ actions, a.Ours)
    (hrun : Runs.run (act z) (new config disk) actions = (results, b)) {id : Nat}
    {arc : StorageArc} (hheld : b.held.find? (·.id = id) = some arc) (c : StorageCall)
    (buf : Bytes) (fs : List (Option String)) :
    ∃ r, (b.act z (.call id c buf fs)).1 = .reply arc (b.fileOf arc) c r ∧
      ((fs ≠ [] ∧ ∃ e, r = .error e ∧ e.isRedb = true ∧
          (b.act z (.call id c buf fs)).2 = b) ∨
        r.map Reply.canon = ((maps.replay results (b.fileOf arc)).answer
          arc.storage.config.readOnly c).1.map Reply.canon) ∧
      ∀ file ≠ b.fileOf arc,
        (b.act z (.call id c buf fs)).2.disk.files file = b.disk.files file := by
  obtain ⟨r, disk', hcall, hframe, -, -, hr⟩ :=
    (run_sound z config hdisk ha hrun).callStorage hheld c buf fs
  refine ⟨r, ?_, ?_, ?_⟩
  · simp only [act, hcall]
  · refine hr.imp ?_ And.left
    rintro ⟨hfs, e, he, hredb, rfl⟩
    simp only [act, hcall]
    exact ⟨hfs, e, he, hredb, trivial⟩
  · simp only [act, hcall]
    exact hframe

/-- Two storages have two maps. -/
theorem run_maps_other_file :
    let value : StoredValue := ⟨[1], .first, ⟨0, none⟩⟩
    let b := (Runs.run (act .layout) (new {} .blank)
      [.backend (.openStorage "s" none []), .backend (.insertStorage 0),
        .backend (.openStorage "t" none []), .backend (.insertStorage 1),
        .call 0 (.put "k" value) [] []]).2
    ∃ arc file r, (b.act .layout (.call 1 (.get "k") [] [])).1 = .reply arc file (.get "k") r ∧
      r.map Reply.canon = .ok (.value none) := by
  intro value b
  have hours : ∀ a ∈ [SystemAction.backend (.openStorage "s" none []),
      .backend (.insertStorage 0), .backend (.openStorage "t" none []),
      .backend (.insertStorage 1), .call 0 (.put "k" value) [] []], a.Ours := by
    simp [SystemAction.Ours, BackendAction.Ours]
  have hheld : ∃ arc, b.held.find? (·.id = 1) = some arc ∧
      b.fileOf arc = .ofString "./zenoh_redb_backend/t.redb" := ⟨_, by rfl, by rfl⟩
  obtain ⟨arc, hheld, hfile⟩ := hheld
  obtain ⟨r, hact, hr, -⟩ := run_maps .layout {} Disk.keeps_blank hours (b := b) (by rfl) hheld
    (.get "k") [] []
  refine ⟨arc, _, r, hact, ?_⟩
  rcases hr with ⟨hne, -⟩ | hr
  · exact absurd rfl hne
  · rw [hr, hfile]
    rfl

/-- What is locked after a run from a disk without open databases. -/
theorem locked_of_run (hdisk : disk.locked = ∅) (ha : ∀ a ∈ actions, a.Ours)
    (hrun : Runs.run (act z) (new config disk) actions = (results, b)) :
    b.disk.locked = b.fileOf '' {arc | arc ∈ b.live} := by
  have hkept : ∀ b : Backend, ∀ a ∈ actions, b.Inv ∧ b.Accounts [] →
      (b.act z a).2.Inv ∧ (b.act z a).2.Accounts [] := by
    rintro b a hmem ⟨hinv, hacc⟩
    cases a with
    | backend a => exact ⟨hinv.step a, hacc.step (ha _ hmem)⟩
    | call id c buf fs =>
        simp only [act, callStorage]
        cases b.held.find? (·.id = id) with
        | none => exact ⟨hinv, hacc⟩
        | some arc =>
            obtain ⟨hres, hlocked, -⟩ :=
              Disk.onDisk_frame arc.storage (c.prog z arc.storage) fs buf b.disk
            refine ⟨hinv.of_disk hres hlocked, ?_⟩
            unfold Accounts
            rw [fileOf_congr (b := b) hres]
            show Accounted b.fileOf (Disk.locked _) _
            rw [hlocked]
            exact hacc
  have hnew : (new config disk).Inv ∧ (new config disk).Accounts [] :=
    ⟨inv_new config disk, accounts_new config hdisk⟩
  obtain ⟨hinv, hacc⟩ := Runs.run_inv (fun b : Backend => b.Inv ∧ b.Accounts []) hkept hnew
  rw [hrun] at hinv hacc
  refine Accounted.locked_eq (hacc.mono ?_) hinv.owns
  exact fun arc harc => harc.resolve_left List.not_mem_nil

/-- **No lock is left behind.** Start on a disk without open databases. In every state of every
run a file is locked exactly if it is the file of a clone that is alive. -/
theorem run_locked (hdisk : disk.locked = ∅) (ha : ∀ a ∈ actions, a.Ours)
    (hrun : Runs.run (act z) (new config disk) actions = (results, b)) (file : PathBuf) :
    file ∈ b.disk.locked ↔ ∃ arc ∈ b.live, b.fileOf arc = file := by
  rw [locked_of_run z config hdisk ha hrun]
  rfl

/-- A storage that the caller drops first and the registry last. -/
theorem run_locked_dropped :
    (Runs.run (act .layout) (new {} .blank)
      [.backend (.openStorage "s" none []), .backend (.insertStorage 0),
        .backend (.dropStorage 0), .backend .close]).2.disk.locked = ∅ := by
  have hours : ∀ a ∈ [SystemAction.backend (.openStorage "s" none []),
      .backend (.insertStorage 0), .backend (.dropStorage 0), .backend .close], a.Ours := by
    simp [SystemAction.Ours, BackendAction.Ours]
  have hlocked := run_locked .layout {} Disk.locked_blank hours (by rfl)
  refine Set.eq_empty_of_forall_notMem fun file hfile => ?_
  obtain ⟨arc, harc, -⟩ := (hlocked file).mp hfile
  cases harc

end Run

/-! ## Creating a storage for a file -/

section Create

variable {name : String} {config : Option RedbStorageConfig}

/-- Where the database can be opened, the call keeps the maps, and the caller holds the new
storage. -/
theorem Sound.createStorage_ok (hb : b.Sound z maps) {storage : RedbStorage} {disk : Disk}
    (h : RedbStorage.new b.disk [] (b.createPath name config)
      (config.getD b.config.defaultStorageConfig) name = (.ok storage, disk)) :
    ∃ b', b.createStorage name config [] = (.ok ⟨b.nextId, storage⟩, b') ∧ b'.Sound z maps ∧
      b'.disk.resolve = b.disk.resolve ∧
      b'.held.find? (·.id = b.nextId) = some ⟨b.nextId, storage⟩ := by
  -- the call is two steps, of which the second finds what the first has opened
  let opened : Backend := (b.step (.openStorage name config [])).2
  have hopened : opened = { b with
      disk
      opened := (name, ⟨b.nextId, storage⟩) :: b.opened
      nextId := b.nextId + 1 } := by
    unfold createPath at h
    simp only [opened, step, openStorage, h]
  have hcreate : b.createStorage name config []
      = (.ok ⟨b.nextId, storage⟩, (opened.step (.insertStorage b.nextId)).2) := by
    rw [hopened]
    unfold createPath at h
    unfold createStorage openStorage
    simp only [h, step, insertStorage, List.find?_cons, decide_true]
  refine ⟨_, hcreate, ?_, ?_, ?_⟩
  · have hkept : opened.disk.Keeps z maps :=
      keeps_step hb.keeps (a := .openStorage name config []) trivial
    exact ⟨(hb.inv.step _).step _, keeps_step hkept (a := .insertStorage b.nextId) trivial⟩
  · exact (frame_step opened _).1.trans (frame_step b _).1
  · rw [hopened]
    simp only [step, insertStorage, List.find?_cons, decide_true]
    split
    · rw [held_dropArc]
      simp [register]
    · simp [register]

/-- The call succeeds if opening the database does, and has its error if it does not. -/
theorem createStorage_fst (b : Backend) (name : String) (config : Option RedbStorageConfig)
    (fs : List (Option String)) :
    (b.createStorage name config fs).1 = (RedbStorage.new b.disk fs (b.createPath name config)
      (config.getD b.config.defaultStorageConfig) name).1.map (StorageArc.mk b.nextId) := by
  cases hnew : RedbStorage.new b.disk fs (b.createPath name config)
      (config.getD b.config.defaultStorageConfig) name with
  | mk r disk =>
      cases r with
      | ok storage =>
          obtain ⟨b', hcreate, -⟩ := Backend.createStorage_ok hnew
          rw [hcreate]
          rfl
      | error e =>
          unfold createPath at hnew
          unfold createStorage openStorage
          simp only [hnew]
          rfl

/-- **A file can be had again.** In every state of every run that starts without open databases
on files that stand for maps, a storage can be created without faults exactly if no clone of a
storage for its file is alive, and the file is a database, or empty, or can be created. The new
storage finds what the calls so far have made of the file, also if its storages were removed,
replaced, closed or dropped in the meantime. -/
theorem run_createStorage (z : ZExt) (backendConfig : RedbBackendConfig) {disk : Disk}
    {maps : FileMaps} (hdisk : disk.Keeps z maps) (hlocked : disk.locked = ∅)
    {actions : List SystemAction} (ha : ∀ a ∈ actions, a.Ours) {results : List SystemResult}
    (hrun : Runs.run (act z) (new backendConfig disk) actions = (results, b)) (name : String)
    (config : Option RedbStorageConfig) :
    (∃ arc b', b.createStorage name config [] = (.ok arc, b') ∧
      ∀ c buf, ∃ r, (b'.act z (.call arc.id c buf [])).1
          = .reply arc (b.disk.resolve (b.createPath name config)) c r ∧
        r.map Reply.canon
          = ((maps.replay results (b.disk.resolve (b.createPath name config))).answer
            arc.storage.config.readOnly c).1.map Reply.canon) ↔
      (∀ arc ∈ b.live, b.fileOf arc ≠ b.disk.resolve (b.createPath name config)) ∧
        b.disk.read (b.createPath name config) ≠ some .other ∧
        (b.disk.read (b.createPath name config) = none →
          b.disk.creatable (b.disk.resolve (b.createPath name config)) = true) := by
  have hsound := run_sound z backendConfig hdisk ha hrun
  -- a file that nobody has is a file that is not locked
  have hfree : b.disk.resolve (b.createPath name config) ∉ b.disk.locked ↔
      ∀ arc ∈ b.live, b.fileOf arc ≠ b.disk.resolve (b.createPath name config) := by
    rw [locked_of_run z backendConfig hlocked ha hrun]
    simp only [Set.mem_image, Set.mem_ofPred_eq, not_exists, not_and, ne_eq]
  have hok := hsound.keeps.new_ok_iff (b.createPath name config)
    (config.getD b.config.defaultStorageConfig) name
  rw [← hfree, ← hok]
  constructor
  · rintro ⟨arc, b', hcreate, -⟩
    have hfst := b.createStorage_fst name config []
    rw [hcreate] at hfst
    obtain ⟨storage, hstorage, -⟩ := map_eq_ok.mp hfst.symm
    exact ⟨storage, hstorage⟩
  · rintro ⟨storage, hstorage⟩
    rcases hsound.keeps.new_cases [] (b.createPath name config)
      (config.getD b.config.defaultStorageConfig) name with ⟨e, d', hnew, -⟩ | ⟨T, -, -, hnew⟩
    · rw [hnew] at hstorage
      cases hstorage
    · obtain ⟨b', hcreate, hsound', hres, hheld⟩ := hsound.createStorage_ok hnew
      refine ⟨_, b', hcreate, fun c buf => ?_⟩
      obtain ⟨r, disk', hcall, -, -, -, hr⟩ := hsound'.callStorage hheld c buf []
      rw [fileOf_congr hres] at hcall hr
      refine ⟨r, ?_, ?_⟩
      · simp only [act, hcall]
        rfl
      · rcases hr with ⟨hne, -⟩ | ⟨hr, -⟩
        · exact absurd rfl hne
        · exact hr

/-- A storage that was removed while a caller held it is created again once the caller has
dropped it, and has its entry. -/
theorem run_createStorage_removed :
    let value : StoredValue := ⟨[1], .first, ⟨0, none⟩⟩
    let b := (Runs.run (act .layout) (new {} .blank)
      [.backend (.openStorage "s" none []), .backend (.insertStorage 0),
        .call 0 (.put "k" value) [] [], .backend (.removeStorage "s"),
        .backend (.dropStorage 0)]).2
    ∃ arc b', b.createStorage "s" none [] = (.ok arc, b') ∧
      ∃ r file, (b'.act .layout (.call arc.id (.get "k") [] [])).1 = .reply arc file (.get "k") r ∧
        r.map Reply.canon = .ok (.value (some value.canon)) := by
  intro value b
  have hours : ∀ a ∈ [SystemAction.backend (.openStorage "s" none []),
      .backend (.insertStorage 0), .call 0 (.put "k" value) [] [], .backend (.removeStorage "s"),
      .backend (.dropStorage 0)], a.Ours := by simp [SystemAction.Ours, BackendAction.Ours]
  have hlive : b.live = [] := by rfl
  have hread : ∃ db, b.disk.read (b.createPath "s" none) = some (.database db false) := ⟨_, by rfl⟩
  obtain ⟨db, hread⟩ := hread
  obtain ⟨arc, b', hcreate, hcall⟩ := (run_createStorage .layout {} Disk.keeps_blank
    Disk.locked_blank hours (b := b) (by rfl) "s" none).mpr (by
      rw [hlive, hread]
      exact ⟨fun _ h => absurd h List.not_mem_nil, nofun, nofun⟩)
  obtain ⟨r, hact, hr⟩ := hcall (.get "k") []
  refine ⟨arc, b', hcreate, r, _, hact, hr.trans ?_⟩
  rfl

end Create

end Backend

end ZenohRedb
