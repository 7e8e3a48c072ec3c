import ZenohRedb.Json
import ZenohRedb.Plugin.Storage

set_option autoImplicit false

/-! # The volume of the plugin (`plugin.rs`, lines 99 to 226)

`RedbVolume::create_storage` reads the properties of a storage from the JSON object of its
configuration, determines the path of the database file, and opens the storage. The
properties are checked one after the other, and the first one of a wrong type is reported.

The flag `create_db` is read, checked and kept, and the storage is opened without a look at
it: `createStorage_honours_iff` says what comes of that.
-/

namespace ZenohRedb

/-! ## The properties of a storage -/

def PROP_STORAGE_DIR : String := "dir"
def PROP_STORAGE_DB_FILE : String := "db_file"
def PROP_STORAGE_CREATE_DB : String := "create_db"
def PROP_STORAGE_READ_ONLY : String := "read_only"
def PROP_STORAGE_CACHE_SIZE : String := "cache_size"
def PROP_STORAGE_FSYNC : String := "fsync"

/-- An optional boolean property with its default. -/
def boolProperty (volumeCfg : Json.Object) (property : String) (default : Bool) :
    Except ZError Bool :=
  match volumeCfg.get property with
  | none => .ok default
  | some (.bool b) => .ok b
  | _ => .error (.text ("Optional property `" ++ property ++
      "` of redb storage configurations must be a boolean"))

def readOnlyProperty (volumeCfg : Json.Object) : Except ZError Bool :=
  boolProperty volumeCfg PROP_STORAGE_READ_ONLY false

def createDbProperty (volumeCfg : Json.Object) : Except ZError Bool :=
  boolProperty volumeCfg PROP_STORAGE_CREATE_DB true

def fsyncProperty (volumeCfg : Json.Object) : Except ZError Bool :=
  boolProperty volumeCfg PROP_STORAGE_FSYNC true

/-- The optional cache size. -/
def cacheSizeProperty (volumeCfg : Json.Object) : Except ZError (Option Nat) :=
  match volumeCfg.get PROP_STORAGE_CACHE_SIZE with
  | none => .ok none
  | some (.number n) =>
      match n.asU64 with
      | some size => .ok (some size.toNat)
      | none => .error (.text ("Optional property `" ++ PROP_STORAGE_CACHE_SIZE ++
          "` of redb storage configurations must be a positive number"))
  | _ => .error (.text ("Optional property `" ++ PROP_STORAGE_CACHE_SIZE ++
      "` of redb storage configurations must be a number"))

/-- `StorageConfig` of `zenoh_backend_traits`: the name of the storage and what is specific to
the volume. -/
structure StorageConfig where
  name : String
  volumeCfg : Json

/-- `RedbVolume`, with the configuration of its backend. -/
structure RedbVolume where
  config : RedbBackendConfig

namespace RedbVolume

variable (self : RedbVolume)

/-- The path of the database file. A file name keeps its extension, and a directory name
takes `redb` for one. -/
def dbPath (volumeCfg : Json.Object) : Except ZError PathBuf :=
  match volumeCfg.get PROP_STORAGE_DIR with
  | some (.string dir) =>
      let path := self.config.baseDir.push (.ofString dir)
      .ok (path.setExtension "redb")
  -- a `dir` of another type is passed over
  | _ =>
      match volumeCfg.get PROP_STORAGE_DB_FILE with
      | some (.string filename) =>
          let path := self.config.baseDir.push (.ofString filename)
          if path.extension.isNone then .ok (path.setExtension "redb") else .ok path
      | _ => .error (.text ("Required property `" ++ PROP_STORAGE_DIR ++ "` or `" ++
          PROP_STORAGE_DB_FILE ++ "` for redb Storage must be a string"))

/-- What is specific to the volume has to be an object. -/
def volumeCfg (cfg : Json) : Except ZError Json.Object :=
  match cfg.asObject with
  | some v => .ok v
  | none => .error (.text "redb backed storages need volume-specific configurations")

/-- The path and the configuration of a storage. -/
def storageConfig (cfg : Json) : Except ZError (PathBuf × RedbStorageConfig) := do
  let volumeCfg ← volumeCfg cfg
  let readOnly ← readOnlyProperty volumeCfg
  let createDb ← createDbProperty volumeCfg
  let fsync ← fsyncProperty volumeCfg
  let cacheSize ← cacheSizeProperty volumeCfg
  let dbPath ← self.dbPath volumeCfg
  let storageConfig := (((RedbStorageConfig.new.withDbPath dbPath).withCreateDb createDb)
    |>.withReadOnly readOnly).withFsync fsync
  return (dbPath, cacheSize.elim storageConfig storageConfig.withCacheSize)

/-- `create_storage`. -/
def createStorage (d : Disk) (faults : List (Option String)) (config : StorageConfig) :
    Except ZError RedbStoragePlugin × Disk :=
  match self.storageConfig config.volumeCfg with
  | .error e => (.error e, d)
  | .ok (dbPath, storageConfig) =>
      match RedbStorage.new d faults dbPath storageConfig config.name with
      | (.error e, d) => (.error (.context "Failed to create redb storage" e), d)
      | (.ok redbStorage, d) => (.ok ⟨redbStorage, storageConfig⟩, d)

/-! ## What is accepted -/

/-- The optional properties other than `create_db` have the types they must have. -/
structure WellTyped (volumeCfg : Json.Object) : Prop where
  readOnly : ∀ v, volumeCfg.get PROP_STORAGE_READ_ONLY = some v → ∃ b, v = .bool b
  fsync : ∀ v, volumeCfg.get PROP_STORAGE_FSYNC = some v → ∃ b, v = .bool b
  cacheSize : ∀ v, volumeCfg.get PROP_STORAGE_CACHE_SIZE = some v → ∃ n, v = .number (.posInt n)

theorem boolProperty_ok_iff {o : Json.Object} {property : String} {default : Bool} :
    (∃ b, boolProperty o property default = .ok b) ↔
      ∀ v, o.get property = some v → ∃ b, v = .bool b := by
  unfold boolProperty
  cases h : o.get property with
  | none => simp
  | some v => cases v <;> simp

theorem cacheSizeProperty_ok_iff {o : Json.Object} :
    (∃ size, cacheSizeProperty o = .ok size) ↔
      ∀ v, o.get PROP_STORAGE_CACHE_SIZE = some v → ∃ n, v = .number (.posInt n) := by
  unfold cacheSizeProperty
  cases h : o.get PROP_STORAGE_CACHE_SIZE with
  | none => simp
  | some v =>
      cases v with
      | number n => cases n <;> simp [Json.Number.asU64]
      | _ => simp

theorem bind_eq_ok {α β : Type} {x : Except ZError α} {f : α → Except ZError β} {b : β} :
    (x >>= f) = .ok b ↔ ∃ a, x = .ok a ∧ f a = .ok b := by
  cases x <;> simp [bind, Except.bind]

/-- A configuration is accepted when all of its properties are. -/
theorem storageConfig_eq_ok {self : RedbVolume} {o : Json.Object} {path : PathBuf}
    {config : RedbStorageConfig} (h : self.storageConfig (.object o) = .ok (path, config)) :
    WellTyped o ∧ self.dbPath o = .ok path := by
  unfold storageConfig at h
  obtain ⟨_, ho, h⟩ := bind_eq_ok.mp h
  cases ho
  obtain ⟨readOnly, hro, h⟩ := bind_eq_ok.mp h
  obtain ⟨createDb, hcd, h⟩ := bind_eq_ok.mp h
  obtain ⟨fsync, hfs, h⟩ := bind_eq_ok.mp h
  obtain ⟨cacheSize, hcs, h⟩ := bind_eq_ok.mp h
  obtain ⟨path', hpath, h⟩ := bind_eq_ok.mp h
  cases h
  exact ⟨⟨boolProperty_ok_iff.mp ⟨_, hro⟩, boolProperty_ok_iff.mp ⟨_, hfs⟩,
    cacheSizeProperty_ok_iff.mp ⟨_, hcs⟩⟩, hpath⟩

/-- Where `create_db` is false, an accepted configuration keeps it. -/
theorem storageConfig_of_wellTyped {self : RedbVolume} {o : Json.Object} {path : PathBuf}
    (ho : WellTyped o) (hpath : self.dbPath o = .ok path)
    (hflag : o.get PROP_STORAGE_CREATE_DB = some (.bool false)) :
    ∃ config, self.storageConfig (.object o) = .ok (path, config) ∧ config.createDb = false := by
  obtain ⟨readOnly, hro⟩ := boolProperty_ok_iff.mpr ho.readOnly
  obtain ⟨fsync, hfs⟩ := boolProperty_ok_iff.mpr ho.fsync
  obtain ⟨cacheSize, hcs⟩ := cacheSizeProperty_ok_iff.mpr ho.cacheSize
  have hcd : createDbProperty o = .ok false := by
    unfold createDbProperty boolProperty
    rw [hflag]
  refine ⟨_, bind_eq_ok.mpr ⟨o, rfl, bind_eq_ok.mpr ⟨readOnly, hro, bind_eq_ok.mpr ⟨false, hcd,
    bind_eq_ok.mpr ⟨fsync, hfs, bind_eq_ok.mpr ⟨cacheSize, hcs, bind_eq_ok.mpr ⟨path, hpath,
      rfl⟩⟩⟩⟩⟩⟩, ?_⟩
  cases cacheSize <;> rfl

/-! ## Creating a storage -/

/-- The plugin has the database with the tables `T` open, and every call that reads, at either
layer, returns what they say. -/
structure Serves (z : ZExt) (K : ZKeyExpr) (plugin : RedbStoragePlugin) (d : Disk)
    (T : Tables) : Prop where
  tables : d.read plugin.storage.db = some (.database T.db true)
  read : ∀ (c : StorageCall) buf, c.isWrite = false →
    (plugin.storage.onDisk (c.prog z plugin.storage) [] buf d).1 = (c.spec z false T).1
  pluginRead : ∀ (c : PluginCall K) buf, c.isWrite = false →
    (plugin.onDisk (c.prog z plugin) [] buf d).1 = c.result (c.storageCall.spec z false T).1

theorem serves_of_read {z : ZExt} {K : ZKeyExpr} {plugin : RedbStoragePlugin} {d : Disk}
    {T : Tables} (h : d.read plugin.storage.db = some (.database T.db true)) :
    Serves z K plugin d T := by
  have hread : ∀ (c : StorageCall) buf, c.isWrite = false →
      ((c.prog z plugin.storage).exec [] buf T.db).1 = (c.spec z false T).1 := by
    intro c buf hc
    rw [(StorageCall.exec_tables z plugin.storage c buf T).1]
    exact StorageCall.spec_read_result hc z _ _ T
  refine ⟨h, fun c buf hc => ?_, fun c buf hc => ?_⟩
  · rw [RedbStorage.onDisk_eq plugin.storage _ [] buf h]
    exact hread c buf hc
  · unfold RedbStoragePlugin.onDisk
    rw [h]
    simp only [PluginCall.exec, hc, Bool.false_and, Bool.false_eq_true, if_false]
    rw [hread c.storageCall buf (c.isWrite_storageCall.trans hc)]

/-- What `create_db: false` is for. Where the path that is selected holds no file, creating
the storage fails and the files stay as they are; where it holds a closed database with both
tables, the storage serves them. A configuration with another property of a wrong type is
refused in any case. -/
structure HonoursCreateDb (z : ZExt) (K : ZKeyExpr) (volume : RedbVolume) (d : Disk)
    (name : String) (o : Json.Object) : Prop where
  missing : ∀ path, volume.dbPath o = .ok path → d.read path = none →
    ∃ e, volume.createStorage d [] ⟨name, .object o⟩ = (.error e, d)
  existing : ∀ path (T : Tables), WellTyped o → volume.dbPath o = .ok path →
    d.read path = some (.database T.db false) →
    ∃ plugin d', volume.createStorage d [] ⟨name, .object o⟩ = (.ok plugin, d') ∧
      Serves z K plugin d' T

/-- Opening where there is no file and none can be created fails. -/
theorem new_uncreatable {d : Disk} {path : PathBuf} (h : d.read path = none)
    (hc : d.creatable (d.resolve path) = false) (config : RedbStorageConfig) (name : String) :
    ∃ e, RedbStorage.new d [] path config name = (.error e, d) := by
  unfold RedbStorage.new Disk.createDatabase
  simp [h, hc]

/-- **`create_db: false` is honoured** unless the path that is selected holds no file and one
can be created there: then the storage is created all the same. -/
theorem createStorage_honours_iff (z : ZExt) (K : ZKeyExpr) (self : RedbVolume) (d : Disk)
    (name : String) (o : Json.Object)
    (hflag : o.get PROP_STORAGE_CREATE_DB = some (.bool false)) :
    HonoursCreateDb z K self d name o ↔
      ¬ (WellTyped o ∧ ∃ path, self.dbPath o = .ok path ∧ d.read path = none ∧
        d.creatable (d.resolve path) = true) := by
  constructor
  · -- the file is missing, and the storage is opened on a fresh database instead of refused
    rintro h ⟨ho, path, hpath, hnone, hcreatable⟩
    obtain ⟨e, he⟩ := h.missing path hpath hnone
    obtain ⟨config, hconfig, -⟩ := storageConfig_of_wellTyped ho hpath hflag
    unfold createStorage at he
    rw [hconfig] at he
    simp only [new_fresh config name (Or.inl ⟨hnone, hcreatable⟩)] at he
    cases he
  · intro h
    constructor
    case missing =>
      intro path hpath hnone
      unfold createStorage
      cases hconfig : self.storageConfig (.object o) with
      | error e => exact ⟨e, rfl⟩
      | ok accepted =>
          -- the configuration is fine, so it is the disk that does not let a file be created
          obtain ⟨path', config⟩ := accepted
          obtain ⟨ho, hpath'⟩ := storageConfig_eq_ok hconfig
          obtain rfl : path = path' := Except.ok.inj (hpath.symm.trans hpath')
          have huncreatable : d.creatable (d.resolve path) = false := by
            by_contra hc
            exact h ⟨ho, path, hpath, hnone, by simpa using hc⟩
          obtain ⟨e, he⟩ := new_uncreatable hnone huncreatable config name
          simp only [he]
          exact ⟨_, rfl⟩
    case existing =>
      intro path T ho hpath hread
      obtain ⟨config, hconfig, -⟩ := storageConfig_of_wellTyped ho hpath hflag
      refine ⟨⟨⟨path, config, name⟩, config⟩, d.write path (.database T.db true), ?_,
        serves_of_read (d.read_write path _)⟩
      unfold createStorage
      simp only [hconfig, new_existing config name hread]

/-- Where nothing can be created, nothing is. -/
theorem createStorage_honours_uncreatable :
    HonoursCreateDb .layout .plain ⟨{}⟩ { Disk.blank with creatable := fun _ => false } "s"
      [(PROP_STORAGE_DIR, .string "x"), (PROP_STORAGE_CREATE_DB, .bool false)] :=
  (createStorage_honours_iff .layout .plain ⟨{}⟩ _ "s" _ rfl).mpr fun ⟨_, _, _, _, h⟩ =>
    Bool.false_ne_true h

/-- On a disk without files the storage is created. -/
theorem not_honoursCreateDb_blank :
    ¬ HonoursCreateDb .layout .plain ⟨{}⟩ .blank "s"
      [(PROP_STORAGE_DIR, .string "x"), (PROP_STORAGE_CREATE_DB, .bool false)] := by
  intro h
  obtain ⟨e, he⟩ := h.missing _ rfl rfl
  cases he

end RedbVolume

end ZenohRedb
