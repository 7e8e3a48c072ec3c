import ZenohRedb.Disk

set_option autoImplicit false

/-! # The backend and its registry (`backend.rs`)

`RedbBackend` keeps its storages in a map behind a lock. A call takes the lock once, so it is
one step here, but for `create_storage`: it opens the database without the lock and enters the
storage into the map later, and other calls come between the two steps. The lock is never
poisoned, since nothing that runs under it panics.

A storage is shared: the map, the calls of `create_storage` in progress and the callers hold
clones of one `Arc`, and the storage is dropped, and its database closed, with the last of
them. The map is ordered here and has no order in the source.
-/

namespace ZenohRedb

/-- `Arc<RedbStorage>`. Clones have the same number. -/
structure StorageArc where
  id : Nat
  storage : RedbStorage
  deriving DecidableEq

/-- The backend, between the steps of the calls in progress, with the files around it. -/
structure Backend where
  config : RedbBackendConfig
  disk : Disk
  /-- The registry. -/
  storages : Std.ExtTreeMap String StorageArc Str.compareBytes
  /-- The calls of `create_storage` that have opened their database: the name and the storage
  they are about to register. -/
  opened : List (String × StorageArc)
  /-- The clones callers hold. -/
  held : List StorageArc
  /-- The number of the next `Arc`. -/
  nextId : Nat

/-- What the steps return. -/
inductive BackendResult
  | opened (id : Nat)
  | created (name : String) (r : Except RedbBackendError StorageArc)
  | found (name : String) (r : Except RedbBackendError StorageArc)
  | removed (name : String) (r : Except RedbBackendError Unit)
  | names (l : List String)
  | count (n : Nat)
  | has (name : String) (b : Bool)
  | closed
  | dropped
  | changed
  | nothing

namespace Backend

/-- `RedbBackend::new`, whose base directory exists already. -/
def new (config : RedbBackendConfig) (disk : Disk) : Backend := ⟨config, disk, ∅, [], [], 0⟩

/-- The storages in the registry. -/
def registered (b : Backend) : List StorageArc := b.storages.toList.map (·.2)

/-- All clones there are. -/
def live (b : Backend) : List StorageArc := b.registered ++ b.opened.map (·.2) ++ b.held

/-- A clone has been dropped; when it was the last one, so is the storage. -/
def dropArc (b : Backend) (arc : StorageArc) : Backend :=
  if arc ∈ b.live then b else { b with disk := arc.storage.drop b.disk }

/-- `create_storage` up to where it takes the lock. -/
def openStorage (b : Backend) (name : String) (config : Option RedbStorageConfig)
    (faults : List (Option String)) : BackendResult × Backend :=
  let storageConfig := config.getD b.config.defaultStorageConfig
  let dbPath := storageConfig.effectiveDbPath name b.config
  match RedbStorage.new b.disk faults dbPath storageConfig name with
  | (.error e, disk) => (.created name (.error e), { b with disk })
  | (.ok storage, disk) =>
      (.opened b.nextId,
        { b with disk, opened := (name, ⟨b.nextId, storage⟩) :: b.opened, nextId := b.nextId + 1 })

/-- Enter one clone of an opened storage into the map, and give the other to the caller. -/
def register (b : Backend) (name : String) (storageArc : StorageArc) : Backend :=
  { b with
    storages := b.storages.insert name storageArc
    opened := b.opened.erase (name, storageArc)
    held := storageArc :: b.held }

/-- `create_storage` from there on. A storage that is registered under the name is replaced,
and the map's clone of it is dropped. -/
def insertStorage (b : Backend) (id : Nat) : BackendResult × Backend :=
  match b.opened.find? (·.2.id = id) with
  | none => (.nothing, b)
  | some (name, storageArc) =>
      (.created name (.ok storageArc),
        -- `insert` returns the storage it replaced, which is dropped on the spot
        match b.storages[name]? with
        | some replaced => (b.register name storageArc).dropArc replaced
        | none => b.register name storageArc)

/-- `get_storage`. -/
def getStorage (b : Backend) (name : String) : BackendResult × Backend :=
  match b.storages[name]? with
  | some storageArc => (.found name (.ok storageArc), { b with held := storageArc :: b.held })
  | none => (.found name (.error (.storageNotFound name)), b)

/-- `remove_storage`. -/
def removeStorage (b : Backend) (name : String) : BackendResult × Backend :=
  match b.storages[name]? with
  | some storageArc =>
      (.removed name (.ok ()),
        { b with storages := b.storages.erase name }.dropArc storageArc)
  | none => (.removed name (.error (.storageNotFound name)), b)

/-- `list_storages`. -/
def listStorages (b : Backend) : BackendResult × Backend := (.names b.storages.keys, b)

/-- `storage_count`. -/
def storageCount (b : Backend) : BackendResult × Backend := (.count b.storages.size, b)

/-- `has_storage`. -/
def hasStorage (b : Backend) (name : String) : BackendResult × Backend :=
  (.has name (b.storages.contains name), b)

/-- `close`. -/
def close (b : Backend) : BackendResult × Backend :=
  (.closed, b.registered.foldl dropArc { b with storages := ∅ })

/-- A caller drops a clone it holds. -/
def dropStorage (b : Backend) (id : Nat) : BackendResult × Backend :=
  match b.held.find? (·.id = id) with
  | none => (.nothing, b)
  | some storageArc => (.dropped, { b with held := b.held.erase storageArc }.dropArc storageArc)

/-- The file at a path comes to hold something else, through a storage or by someone else's
doing. A database that a clone here has open stays an open database. -/
def changeFile (b : Backend) (path : PathBuf) (entry : FileEntry) : BackendResult × Backend :=
  if entry.isOpen ∨ ∀ arc ∈ b.live, b.disk.resolve arc.storage.db ≠ b.disk.resolve path then
    (.changed, { b with disk := b.disk.write path entry })
  else (.nothing, b)

end Backend

/-- The steps of the calls, and what happens around them: callers drop clones, and files
change. -/
inductive BackendAction
  | openStorage (name : String) (config : Option RedbStorageConfig)
      (faults : List (Option String))
  | insertStorage (id : Nat)
  | getStorage (name : String)
  | removeStorage (name : String)
  | listStorages
  | storageCount
  | hasStorage (name : String)
  | close
  | dropStorage (id : Nat)
  | changeFile (path : PathBuf) (entry : FileEntry)

/-- One step of any thread. -/
def Backend.step (b : Backend) : BackendAction → BackendResult × Backend
  | .openStorage name config faults => b.openStorage name config faults
  | .insertStorage id => b.insertStorage id
  | .getStorage name => b.getStorage name
  | .removeStorage name => b.removeStorage name
  | .listStorages => b.listStorages
  | .storageCount => b.storageCount
  | .hasStorage name => b.hasStorage name
  | .close => b.close
  | .dropStorage id => b.dropStorage id
  | .changeFile path entry => b.changeFile path entry

end ZenohRedb
