import ZenohRedb.Lib.PathBuf

set_option autoImplicit false

/-! # Configuration (`config.rs`)

The two configuration structures with their defaults, the builder methods, and the path of the
database file they select.
-/

namespace ZenohRedb

/-- `default_base_dir`. -/
def defaultBaseDir : PathBuf := PathBuf.ofString "./zenoh_redb_backend"

/-- `default_true`. -/
def defaultTrue : Bool := true

/-- `default_table_name`. -/
def defaultTableName : String := "zenoh_kv"

/-- `RedbStorageConfig`. The field defaults are those of the derived `Default`. -/
structure RedbStorageConfig where
  dbFile : Option String := none
  dbPath : Option PathBuf := none
  cacheSize : Option Nat := none
  fsync : Bool := false
  keyExpr : Option String := none
  stripPrefix : Bool := false
  tableName : String := ""
  createDb : Bool := false
  readOnly : Bool := false
  deriving DecidableEq

/-- `RedbBackendConfig`, with the defaults of its `Default` implementation. -/
structure RedbBackendConfig where
  baseDir : PathBuf := defaultBaseDir
  createDir : Bool := true
  defaultStorageConfig : RedbStorageConfig := {}
  deriving DecidableEq

namespace RedbBackendConfig

/-- `RedbBackendConfig::new`, which is its `Default`. -/
def new : RedbBackendConfig := {}

def withDefaultStorageConfig (c : RedbBackendConfig) (config : RedbStorageConfig) :
    RedbBackendConfig :=
  { c with defaultStorageConfig := config }

end RedbBackendConfig

namespace RedbStorageConfig

/-- `RedbStorageConfig::new`, which is the derived `Default`. -/
def new : RedbStorageConfig := {}

def withDbFile (c : RedbStorageConfig) (dbFile : String) : RedbStorageConfig :=
  { c with dbFile := some dbFile }

def withDbPath (c : RedbStorageConfig) (dbPath : PathBuf) : RedbStorageConfig :=
  { c with dbPath := some dbPath }

def withCacheSize (c : RedbStorageConfig) (cacheSize : Nat) : RedbStorageConfig :=
  { c with cacheSize := some cacheSize }

def withFsync (c : RedbStorageConfig) (fsync : Bool) : RedbStorageConfig := { c with fsync }

def withKeyExpr (c : RedbStorageConfig) (keyExpr : String) : RedbStorageConfig :=
  { c with keyExpr := some keyExpr }

def withStripPrefix (c : RedbStorageConfig) (stripPrefix : Bool) : RedbStorageConfig :=
  { c with stripPrefix }

def withTableName (c : RedbStorageConfig) (tableName : String) : RedbStorageConfig :=
  { c with tableName }

def withCreateDb (c : RedbStorageConfig) (createDb : Bool) : RedbStorageConfig :=
  { c with createDb }

def withReadOnly (c : RedbStorageConfig) (readOnly : Bool) : RedbStorageConfig :=
  { c with readOnly }

/-- `effective_db_path`: the explicit path, or the file name (the storage name without one)
with `.redb` appended, under the base directory. -/
def effectiveDbPath (c : RedbStorageConfig) (storageName : String)
    (backendConfig : RedbBackendConfig) : PathBuf :=
  match c.dbPath with
  | some path => path
  | none =>
      let filename := c.dbFile.getD storageName ++ ".redb"
      backendConfig.baseDir.join (PathBuf.ofString filename)

end RedbStorageConfig

end ZenohRedb
