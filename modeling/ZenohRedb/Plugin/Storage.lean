import ZenohRedb.Storage.Session

set_option autoImplicit false

/-! # The storage of the plugin (`plugin.rs`, lines 229 to 386)

`RedbStoragePlugin` offers Zenoh's storage interface on top of a `RedbStorage`. A key is an
optional key expression; it is stored as a string, and `NONE_KEY` is the string of the
missing one. Each method makes one call of the storage (`PluginCall.storageCall`) and turns
its result into Zenoh's types; `PluginCall.exec` says so for all of them, whatever fails.

Key expressions are a library outside this repository: `ZKeyExpr` stands for it, with the law
that a string without wildcards and without empty chunks is a key expression. The admin
status and logging are left out.
-/

namespace ZenohRedb

open TxStore

def NONE_KEY : String := "@@none_key@@"

/-! ## Key expressions -/

/-- A string that Zenoh's syntax accepts whatever else it accepts: chunks between slashes,
none of them empty, without the characters that have a meaning of their own. -/
def Plain (s : String) : Prop :=
  ∀ chunk ∈ Str.splitChars '/' s.toList, chunk ≠ [] ∧ ∀ c ∈ chunk, c ∉ ['*', '$', '?', '#']

instance (s : String) : Decidable (Plain s) :=
  inferInstanceAs (Decidable (∀ chunk ∈ Str.splitChars '/' s.toList,
    chunk ≠ [] ∧ ∀ c ∈ chunk, c ∉ ['*', '$', '?', '#']))

/-- The key expressions of `zenoh`: the strings `OwnedKeyExpr::new` accepts. -/
structure ZKeyExpr where
  valid : String → Bool
  valid_of_plain : ∀ s, Plain s → valid s = true

/-- Only plain strings are key expressions. -/
def ZKeyExpr.plain : ZKeyExpr := ⟨fun s => decide (Plain s), fun _ h => decide_eq_true h⟩

/-- `OwnedKeyExpr`: a string that is a key expression. -/
structure OwnedKeyExpr (K : ZKeyExpr) where
  toString : String
  valid : K.valid toString = true
  deriving DecidableEq

/-- `OwnedKeyExpr::new`. -/
def OwnedKeyExpr.new (K : ZKeyExpr) (s : String) : Option (OwnedKeyExpr K) :=
  if h : K.valid s = true then some ⟨s, h⟩ else none

/-- `NONE_KEY` is a key expression itself. -/
def OwnedKeyExpr.noneKey (K : ZKeyExpr) : OwnedKeyExpr K :=
  ⟨NONE_KEY, K.valid_of_plain NONE_KEY (by simp [Plain, NONE_KEY, Str.splitChars])⟩

/-! ## The methods -/

/-- `zenoh::Error`: a text, or a text followed by the error of the storage. -/
inductive ZError
  | text (msg : String)
  | context (msg : String) (cause : RedbBackendError)
  deriving DecidableEq

/-- A method of the plugin, over the database of its storage. -/
abbrev PluginM := ExceptT ZError (StateT Bytes RedbProg)

/-- `x.map_err(f)`, with `?` behind it. -/
def mapErr {α : Type} (f : RedbBackendError → ZError) (x : StorageM α) : PluginM α :=
  ExceptT.mk do
    match ← x.run with
    | .ok a => pure (.ok a)
    | .error e => pure (.error (f e))

/-- `StorageInsertionResult`. -/
inductive StorageInsertionResult
  | outdated
  | inserted
  | replaced
  | deleted
  deriving DecidableEq

/-- `StoredData`. -/
structure StoredData where
  payload : Bytes
  encoding : Encoding
  timestamp : Timestamp
  deriving DecidableEq

/-- `RedbStoragePlugin`. It keeps a copy of the configuration its storage was opened with. -/
structure RedbStoragePlugin where
  storage : RedbStorage
  storageConfig : RedbStorageConfig

namespace RedbStoragePlugin

variable (z : ZExt) (K : ZKeyExpr) (self : RedbStoragePlugin)

/-- The string a key is stored under. -/
def keyStr {K : ZKeyExpr} (key : Option (OwnedKeyExpr K)) : String :=
  match key with
  | some k => k.toString
  | none => NONE_KEY

/-- `put`. -/
def put (key : Option (OwnedKeyExpr K)) (payload : Bytes) (encoding : Encoding)
    (timestamp : Timestamp) : PluginM StorageInsertionResult := do
  if self.storageConfig.readOnly then
    throw (.text "Received update for read-only DB")
  else
    -- the storage checks its own copy of the flag once more
    let value : StoredValue := ⟨payload, timestamp, encoding⟩
    mapErr (.context ("Failed to put key '" ++ keyStr key ++ "'"))
      (self.storage.put z (keyStr key) value)
    return .inserted

/-- `delete`. The timestamp is not used. -/
def delete (key : Option (OwnedKeyExpr K)) (_timestamp : Timestamp) :
    PluginM StorageInsertionResult := do
  if self.storageConfig.readOnly then
    throw (.text "Received update for read-only DB")
  else
    mapErr (.context ("Failed to delete key '" ++ keyStr key ++ "'"))
      (self.storage.delete (keyStr key))
    return .deleted

/-- The vector `get` makes of what it found. -/
def storedData : Option StoredValue → List StoredData
  | some storedValue => [⟨storedValue.payload, storedValue.encoding, storedValue.timestamp⟩]
  | none => []

/-- `get`. The parameters are not used. -/
def get (key : Option (OwnedKeyExpr K)) (_parameters : String) : PluginM (List StoredData) := do
  let found ← mapErr (.context ("Failed to get key '" ++ keyStr key ++ "'"))
    (RedbStorage.get z (keyStr key))
  return storedData found

/-- The key that is stored under a string, if `get_all_entries` keeps it. -/
def keyExpr (keyStr : String) : Option (Option (OwnedKeyExpr K)) :=
  if keyStr = NONE_KEY then some none
  else
    match OwnedKeyExpr.new K keyStr with
    | some ke => some (some ke)
    -- logged, and not listed
    | none => none

/-- The loop of `get_all_entries`: a string that is no key expression is skipped. -/
def entryKeys (entries : List (String × StoredValue)) : List (Option (OwnedKeyExpr K) × Timestamp) :=
  entries.filterMap fun (keyStr, storedValue) =>
    (keyExpr K keyStr).map fun key => (key, storedValue.timestamp)

/-- `get_all_entries`. -/
def getAllEntries : PluginM (List (Option (OwnedKeyExpr K) × Timestamp)) := do
  let entries ← mapErr (.context "Failed to get all entries") (RedbStorage.getAll z)
  return entryKeys K entries

end RedbStoragePlugin

/-! ## Calls of any method -/

/-- A call of one of the methods, with its arguments. -/
inductive PluginCall (K : ZKeyExpr)
  | put (key : Option (OwnedKeyExpr K)) (payload : Bytes) (encoding : Encoding)
      (timestamp : Timestamp)
  | delete (key : Option (OwnedKeyExpr K)) (timestamp : Timestamp)
  | get (key : Option (OwnedKeyExpr K)) (parameters : String)
  | getAllEntries

/-- What a call returns when it succeeds. -/
inductive PluginReply (K : ZKeyExpr)
  | insertion (r : StorageInsertionResult)
  | data (l : List StoredData)
  | entries (l : List (Option (OwnedKeyExpr K) × Timestamp))
  deriving DecidableEq

namespace PluginCall

variable {K : ZKeyExpr}

open RedbStoragePlugin (keyStr storedData entryKeys)

/-- The method a call runs. -/
def prog (z : ZExt) (self : RedbStoragePlugin) : PluginCall K → PluginM (PluginReply K)
  | .put key payload encoding timestamp => do
      return .insertion (← self.put z K key payload encoding timestamp)
  | .delete key timestamp => do return .insertion (← self.delete K key timestamp)
  | .get key parameters => do return .data (← RedbStoragePlugin.get z K key parameters)
  | .getAllEntries => do return .entries (← RedbStoragePlugin.getAllEntries z K)

/-- The calls that write. -/
def isWrite : PluginCall K → Bool
  | .put _ _ _ _ | .delete _ _ => true
  | _ => false

/-- The call of the storage a method makes. -/
def storageCall : PluginCall K → StorageCall
  | .put key payload encoding timestamp => .put (keyStr key) ⟨payload, timestamp, encoding⟩
  | .delete key _ => .delete (keyStr key)
  | .get key _ => .get (keyStr key)
  | .getAllEntries => .getAll

@[simp] theorem isWrite_storageCall (c : PluginCall K) : c.storageCall.isWrite = c.isWrite := by
  cases c <;> rfl

/-- What a method makes of the reply of the storage. -/
def reply : PluginCall K → Reply → PluginReply K
  | .put _ _ _ _, _ => .insertion .inserted
  | .delete _ _, _ => .insertion .deleted
  | _, .value v => .data (storedData v)
  | _, .entries l => .entries (entryKeys K l)
  | _, _ => .data []

/-- What a method makes of an error of the storage. -/
def error : PluginCall K → RedbBackendError → ZError
  | .put key _ _ _ => .context ("Failed to put key '" ++ keyStr key ++ "'")
  | .delete key _ => .context ("Failed to delete key '" ++ keyStr key ++ "'")
  | .get key _ => .context ("Failed to get key '" ++ keyStr key ++ "'")
  | .getAllEntries => .context "Failed to get all entries"

/-- What a method makes of the result of the storage. -/
def result (c : PluginCall K) : Except RedbBackendError Reply → Except ZError (PluginReply K)
  | .ok r => .ok (c.reply r)
  | .error e => .error (c.error e)

end PluginCall

/-- Run a method on the contents `db`, on a thread whose key buffer holds `buf`. -/
def PluginM.exec {α : Type} (x : PluginM α) (faults : List (Option String)) (buf : Bytes)
    (db : Db) : Except ZError α × Bytes × Db :=
  let r := TxStore.exec faults (x.run.run buf) db
  (r.1.1, r.1.2, r.2)

section Exec

variable {α β : Type} (fs : List (Option String)) (buf : Bytes) (db : Db)

theorem PluginM.exec_mapErr (f : RedbBackendError → ZError) (x : StorageM α) :
    (mapErr f x).exec fs buf db
      = ((x.exec fs buf db).1.mapError f, (x.exec fs buf db).2.1, (x.exec fs buf db).2.2) := by
  have hprog : (mapErr f x).run.run buf
      = x.run.run buf >>= fun r => .ret (r.1.mapError f, r.2) := by
    refine congrArg (x.run.run buf >>= ·) (funext ?_)
    rintro ⟨r, buf'⟩
    cases r <;> rfl
  simp only [PluginM.exec, StorageM.exec, hprog, exec_bind_ret]

theorem PluginM.exec_bind_pure (x : PluginM α) (g : α → β) :
    PluginM.exec (x >>= fun a => pure (g a)) fs buf db
      = ((x.exec fs buf db).1.map g, (x.exec fs buf db).2.1, (x.exec fs buf db).2.2) := by
  have hprog : (x >>= fun a => pure (g a) : PluginM β).run.run buf
      = x.run.run buf >>= fun r => .ret (r.1.map g, r.2) := by
    refine congrArg (x.run.run buf >>= ·) (funext ?_)
    rintro ⟨r, buf'⟩
    cases r <;> rfl
  simp only [PluginM.exec, hprog, exec_bind_ret]

/-- **Every method goes through the storage.** A method that writes is refused when the
plugin's configuration is read-only; otherwise it makes its call of the storage and converts
the result, whatever fails in it. -/
theorem PluginCall.exec (z : ZExt) {K : ZKeyExpr} (self : RedbStoragePlugin) (c : PluginCall K) :
    (c.prog z self).exec fs buf db =
      if c.isWrite && self.storageConfig.readOnly then
        (.error (.text "Received update for read-only DB"), buf, db)
      else
        let r := (c.storageCall.prog z self.storage).exec fs buf db
        (c.result r.1, r.2.1, r.2.2) := by
  -- each method runs one program of the storage and converts what comes of it
  cases c with
  | put key payload encoding timestamp =>
      simp only [prog, storageCall, StorageCall.prog, isWrite, PluginM.exec_bind_pure,
        exec_bind_pure, RedbStoragePlugin.put]
      cases self.storageConfig.readOnly with
      | true => rfl
      | false =>
          simp only [Bool.false_eq_true, if_false, Bool.and_false, PluginM.exec_bind_pure,
            PluginM.exec_mapErr]
          cases ((self.storage.put z _ _).exec fs buf db).1 <;> rfl
  | delete key timestamp =>
      simp only [prog, storageCall, StorageCall.prog, isWrite, PluginM.exec_bind_pure,
        exec_bind_pure, RedbStoragePlugin.delete]
      cases self.storageConfig.readOnly with
      | true => rfl
      | false =>
          simp only [Bool.false_eq_true, if_false, Bool.and_false, PluginM.exec_bind_pure,
            PluginM.exec_mapErr]
          cases ((self.storage.delete _).exec fs buf db).1 <;> rfl
  | get key parameters =>
      simp only [prog, storageCall, StorageCall.prog, isWrite, PluginM.exec_bind_pure,
        exec_bind_pure, RedbStoragePlugin.get, PluginM.exec_mapErr, Bool.false_and,
        Bool.false_eq_true, if_false]
      cases ((RedbStorage.get z _).exec fs buf db).1 <;> rfl
  | getAllEntries =>
      simp only [prog, storageCall, StorageCall.prog, isWrite, PluginM.exec_bind_pure,
        exec_bind_pure, RedbStoragePlugin.getAllEntries, PluginM.exec_mapErr, Bool.false_and,
        Bool.false_eq_true, if_false]
      cases ((RedbStorage.getAll z).exec fs buf db).1 <;> rfl

end Exec

/-! ## On the database of a client -/

/-- Run a method on the database the storage of the plugin has open. -/
def RedbStoragePlugin.onDisk {α : Type} (self : RedbStoragePlugin) (x : PluginM α)
    (faults : List (Option String)) (buf : Bytes) (d : Disk) : Except ZError α × Bytes × Disk :=
  match d.read self.storage.db with
  | some (.database db isOpen) =>
      match x.exec faults buf db with
      | (r, buf, db) => (r, buf, d.write self.storage.db (.database db isOpen))
  | _ => (.error (.text "the database file is gone"), buf, d)

namespace Session

variable {z : ZExt} {K : ZKeyExpr} {s : Session} {storage : RedbStorage} {T : Tables}

/-- One call of a method, on the plugin around the storage the client has open; the plugin's
copy of the configuration is `storageConfig`. -/
def pluginStep (z : ZExt) (storageConfig : RedbStorageConfig) (s : Session) :
    PluginCall K × List (Option String) → Except ZError (PluginReply K) × Session
  | (c, faults) =>
      match s.storage with
      | none => (.error (.text "no storage"), s)
      | some storage =>
          let self : RedbStoragePlugin := ⟨storage, storageConfig⟩
          match self.onDisk (c.prog z self) faults s.buf s.disk with
          | (r, buf, disk) => (r, { s with disk, buf })

/-- **A method is a call of the storage**, unless it writes and the plugin is read-only. -/
theorem pluginStep_eq (h : s.Serves storage T) (storageConfig : RedbStorageConfig)
    (c : PluginCall K) (fs : List (Option String)) :
    s.pluginStep z storageConfig (c, fs) =
      if c.isWrite && storageConfig.readOnly then
        (.error (.text "Received update for read-only DB"), s)
      else
        (c.result (s.step z (.call c.storageCall, fs)).1,
          (s.step z (.call c.storageCall, fs)).2) := by
  simp only [pluginStep, step, h.storage_eq, RedbStoragePlugin.onDisk, RedbStorage.onDisk,
    h.read_db, PluginCall.exec]
  cases hro : c.isWrite && storageConfig.readOnly with
  | true =>
      -- the tables are written back as they were
      simp only [if_true, Disk.write_read h.read_db]
      rw [← h.storage_eq]
  | false => simp only [Bool.false_eq_true, if_false]

end Session

end ZenohRedb
