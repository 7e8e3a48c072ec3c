import ZenohRedb.Backend.Registry

set_option autoImplicit false

/-! # Creating a storage again

`create_storage` has a branch for a name that is registered already, which replaces the
registered storage. It opens the new database before it takes the lock, and the registry keeps
the old storage, with its database, until the new one is inserted. So the branch is reached
with another database file only (`createStorage_ok`): for the file of the registered storage,
opening it fails while the registry has it open (`createStorage_registered`).
-/

namespace ZenohRedb

open TxStore

namespace Backend

/-- A whole call of `create_storage` with nothing in between. -/
def createStorage (b : Backend) (name : String) (config : Option RedbStorageConfig)
    (faults : List (Option String)) : Except RedbBackendError StorageArc × Backend :=
  match b.openStorage name config faults with
  | (.opened id, b) =>
      match b.insertStorage id with
      | (.created _ r, b) => (r, b)
      -- not reached: the storage that was opened is there
      | (_, b) => (.error (.other "no such storage"), b)
  | (.created _ r, b) => (r, b)
  -- not reached: opening gives one of the two
  | (_, b) => (.error (.other "not opened"), b)

/-- The call replaces the storage that is registered: it returns a new one for the same file,
the file has the entries it had, the name is bound to the new storage, and the other names to
what they were bound to. -/
def Replaces (b : Backend) (name : String) (config : Option RedbStorageConfig)
    (faults : List (Option String)) : Prop :=
  ∃ arc b', b.createStorage name config faults = (.ok arc, b') ∧
    arc.storage.db = b.createPath name config ∧
    (∃ db, b.disk.read arc.storage.db = some (.database db true) ∧
      b'.disk.read arc.storage.db = some (.database db true)) ∧
    (b'.step (.getStorage name)).1 = .found name (.ok arc) ∧
    ∀ other ≠ name, b'.storages[other]? = b.storages[other]?

variable {b : Backend} {arc : StorageArc} {name : String} {config : Option RedbStorageConfig}
  {faults : List (Option String)}

/-- Where the database can be opened, the new storage is registered, in place of the one that
was registered under the name, if there was one. -/
theorem createStorage_ok {storage : RedbStorage} {disk : Disk}
    (h : RedbStorage.new b.disk faults (b.createPath name config)
      (config.getD b.config.defaultStorageConfig) name = (.ok storage, disk)) :
    ∃ b', b.createStorage name config faults = (.ok ⟨b.nextId, storage⟩, b') ∧
      b'.storages = b.storages.insert name ⟨b.nextId, storage⟩ := by
  have hopen : b.openStorage name config faults = (.opened b.nextId,
      { b with
        disk
        opened := (name, ⟨b.nextId, storage⟩) :: b.opened
        nextId := b.nextId + 1 }) := by
    unfold createPath at h
    unfold openStorage
    simp only [h]
  unfold createStorage
  rw [hopen]
  simp only [insertStorage, List.find?_cons, decide_true]
  refine ⟨_, rfl, ?_⟩
  split
  · rw [storages_dropArc]
    rfl
  · rfl

/-- A database that is open is opened by nobody else, whatever fails, and nothing changes. -/
theorem new_of_locked {d : Disk} {path : PathBuf} (h : d.resolve path ∈ d.locked)
    (faults : List (Option String)) (config : RedbStorageConfig) (name : String) :
    ∃ e, RedbStorage.new d faults path config name = (.error e, d) ∧
      (faults = [] → e = .databaseError .databaseAlreadyOpen) := by
  obtain ⟨e, he, hopen⟩ := h
  cases e with
  | other => cases hopen
  | database db isOpen =>
      obtain rfl : isOpen = true := hopen
      have hread : d.read path = some (.database db true) := he
      cases hf : faults.head?.join with
      | none => exact ⟨_, new_locked config name hf hread, fun _ => rfl⟩
      | some msg =>
          refine ⟨.databaseError (.storage msg), ?_, ?_⟩
          · unfold RedbStorage.new Disk.createDatabase
            rw [hf]
          · rintro rfl
            cases hf

/-- The file of a clone that is alive is locked. -/
theorem Inv.locked (h : b.Inv) (harc : arc ∈ b.live) : b.fileOf arc ∈ b.disk.locked :=
  h.owns.locked harc

/-- A call for a file that is locked fails, and nothing changes. -/
theorem createStorage_of_locked (h : b.disk.resolve (b.createPath name config) ∈ b.disk.locked)
    (faults : List (Option String)) :
    ∃ e, b.createStorage name config faults = (.error e, b) ∧
      (faults = [] → e = .databaseError .databaseAlreadyOpen) := by
  obtain ⟨e, hnew, he⟩ :=
    new_of_locked h faults (config.getD b.config.defaultStorageConfig) name
  unfold createPath at hnew
  refine ⟨e, ?_, he⟩
  unfold createStorage openStorage
  simp only [hnew]

theorem not_replaces_of_locked (h : b.disk.resolve (b.createPath name config) ∈ b.disk.locked)
    (faults : List (Option String)) : ¬ b.Replaces name config faults := by
  rintro ⟨arc, b', hcreate, -⟩
  obtain ⟨e, hfail, -⟩ := createStorage_of_locked h faults
  rw [hfail] at hcreate
  cases hcreate

/-- **A registered storage is not replaced.** In every state of every run, let a storage be
registered under a name, and let a configuration, or none, resolve to the file of that storage.
Then `create_storage` fails because the database is open, also if the registry has the only
clone of the storage; nothing changes, and whatever else fails, the storage is not replaced. -/
theorem createStorage_registered (backendConfig : RedbBackendConfig) (disk : Disk)
    (actions : List BackendAction) {b : Backend}
    (hb : b = (Runs.run step (new backendConfig disk) actions).2) {name : String}
    {arc : StorageArc} (hreg : b.storages[name]? = some arc) {config : Option RedbStorageConfig}
    (hpath : b.disk.resolve (b.createPath name config) = b.disk.resolve arc.storage.db) :
    b.createStorage name config [] = (.error (.databaseError .databaseAlreadyOpen), b) ∧
      ∀ faults, ¬ b.Replaces name config faults := by
  have hinv : b.Inv := by
    rw [hb]
    exact Runs.run_inv Inv (fun _ a _ h => h.step a) (inv_new backendConfig disk)
  -- the registry's own clone is what keeps the file locked
  have hlocked : b.disk.resolve (b.createPath name config) ∈ b.disk.locked := by
    rw [hpath]
    exact hinv.locked (mem_live.mpr (Or.inl ⟨name, hreg⟩))
  refine ⟨?_, not_replaces_of_locked hlocked⟩
  obtain ⟨e, hcreate, he⟩ := createStorage_of_locked hlocked []
  rw [hcreate, he rfl]

/-- The storage that was created last, with the path it has as an explicit one. -/
theorem createStorage_registered_path :
    let b := (Runs.run step (new {} .blank) [.openStorage "s" none [], .insertStorage 0]).2
    let path := PathBuf.ofString "./zenoh_redb_backend/s.redb"
    (b.createStorage "s" (some (RedbStorageConfig.new.withDbPath path)) []).1
      = .error (.databaseError .databaseAlreadyOpen) := by
  intro b path
  have hreg : b.storages["s"]? = some ⟨0, ⟨path, {}, "s"⟩⟩ := by rfl
  rw [(createStorage_registered {} .blank _ (b := b) rfl hreg (by rfl)).1]

/-- A storage that only the registry has is not replaced by one for the same file. -/
theorem not_replaces_registered :
    let b := (Runs.run step (new {} .blank)
      [.openStorage "s" none [], .insertStorage 0, .dropStorage 0]).2
    (∃ arc, b.storages["s"]? = some arc ∧ arc.storage.db = b.createPath "s" none) ∧
      b.opened = [] ∧ b.held = [] ∧ ¬ b.Replaces "s" none [] := by
  intro b
  have hlocked : b.disk.resolve (b.createPath "s" none) ∈ b.disk.locked := ⟨_, by rfl, by rfl⟩
  exact ⟨⟨_, by rfl, by rfl⟩, by rfl, by rfl, not_replaces_of_locked hlocked []⟩

end Backend

end ZenohRedb
