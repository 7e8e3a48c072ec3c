import ZenohRedb.Lib.Discipline
import ZenohRedb.Config
import ZenohRedb.DataInfo
import ZenohRedb.Wildcard

set_option autoImplicit false

/-! # The operations of `RedbStorage` (`storage.rs`)

Every operation is a program over the redb database (`StorageM`): the calls it makes to redb
are the calls of `TxStore.Cmd`, in the order of the source, and every one of them may fail.
A failing call ends the operation at once (the `?` of the source), with the error the
`From` implementations of `error.rs` make of it.

The thread-local `KEY_BUFFER` is the state of `StorageM`: an operation finds in it whatever
the last operation on the thread left there, whether that one succeeded or not. `VALUE_BUFFER`
is never read or written and is left out, and so is logging.
-/

namespace ZenohRedb

open TxStore

/-- The two tables. -/
inductive TableName
  | payloads
  | dataInfo
  deriving DecidableEq, Repr

/-- The name a table has in the database. -/
def TableName.name : TableName → String
  | .payloads => "payloads"
  | .dataInfo => "data_info"

def PAYLOADS_TABLE : TableName := .payloads
def DATA_INFO_TABLE : TableName := .dataInfo

/-- The contents of a redb database. -/
abbrev Db := Store TableName Bytes Bytes

abbrev RedbCmd := Cmd TableName Bytes Bytes

/-- A program over a redb database; a failure that is not redb's own doing is its text. -/
abbrev RedbProg := Prog TableName Bytes Bytes String

/-- The contents of a database without tables. -/
def Db.empty : Db := fun _ => none

/-- The error `?` returns when a call to redb fails: begin calls give a transaction error,
opening and deleting tables a table error, `commit` a commit error and table accesses a
storage error. -/
def RedbBackendError.ofRedb (c : RedbCmd) (e : Failure TableName String) : RedbBackendError :=
  let err : RedbError :=
    match e with
    | .missing t => .tableDoesNotExist t.name
    | .fault msg => .storage msg
  match c with
  | .beginRead | .beginWrite => .transactionError err
  | .openTable _ | .deleteTable _ => .tableError err
  | .commit => .commitError err
  | _ => .storageError err

theorem RedbBackendError.isRedb_ofRedb (c : RedbCmd) (e : Failure TableName String) :
    (RedbBackendError.ofRedb c e).isRedb = true := by
  cases c <;> rfl

/-! ## Programs that may fail and use the key buffer -/

abbrev StorageM := ExceptT RedbBackendError (StateT Bytes RedbProg)

/-- One call to redb, with `?` behind it. -/
def redb (c : RedbCmd) : StorageM c.Ret := ExceptT.mk fun buf =>
  .call c fun
    | .ok r => .ret (.ok r, buf)
    -- the conversion `?` makes; the buffer keeps what is in it
    | .error e => .ret (.error (.ofRedb c e), buf)

/-! The calls to redb, each at the type of its result. A read or write transaction is
implicit: an operation holds at most one. -/

def beginRead : StorageM Unit := redb .beginRead
def beginWrite : StorageM Unit := redb .beginWrite
def commit : StorageM Unit := redb .commit
def openTable (t : TableName) : StorageM Unit := redb (.openTable t)
def deleteTable (t : TableName) : StorageM Bool := redb (.deleteTable t)
def tableGet (t : TableName) (k : Bytes) : StorageM (Option Bytes) := redb (.get t k)
def tableInsert (t : TableName) (k v : Bytes) : StorageM (Option Bytes) := redb (.insert t k v)
def tableRemove (t : TableName) (k : Bytes) : StorageM (Option Bytes) := redb (.remove t k)
def tableIter (t : TableName) : StorageM Nat := redb (.iter t)
def tableNext (t : TableName) (i : Nat) : StorageM (Option (Bytes × Bytes)) := redb (.next t i)

/-- The contents of `KEY_BUFFER`. -/
def keyBuf : StorageM Bytes := ExceptT.mk fun buf => .ret (.ok buf, buf)

/-- `key_buf.clear()`. -/
def keyBufClear : StorageM Unit := ExceptT.mk fun _ => .ret (.ok (), [])

/-- `key_buf.extend_from_slice(bytes)`. -/
def keyBufExtend (bytes : Bytes) : StorageM Unit := ExceptT.mk fun buf => .ret (.ok (), buf ++ bytes)

/-- A result, with `?` behind it. -/
def orThrow {α : Type} (x : Except RedbBackendError α) : StorageM α :=
  ExceptT.mk fun buf => .ret (x, buf)

/-- `for item in table.iter()? { ... }`: run `body` on the entries in key order. The first
argument bounds the number of steps, the second is the position reached. -/
def forItems {σ : Type} (t : TableName) (body : σ → Bytes → Bytes → StorageM σ) :
    Nat → Nat → σ → StorageM σ
  -- not reached: `iter` bounds the number of entries
  | 0, _, acc => pure acc
  | n + 1, i, acc => do
      match ← tableNext t i with
      | none => pure acc
      | some (keyBytes, infoBytes) =>
          let acc ← body acc keyBytes infoBytes
          forItems t body n (i + 1) acc

/-! ## The storage -/

/-- `RedbStorage`. Its database handle is the file the database was opened on. -/
structure RedbStorage where
  db : PathBuf
  config : RedbStorageConfig
  name : String
  deriving DecidableEq

/-- `decode_key`. -/
def decodeKey (bytes : Bytes) : Except RedbBackendError String :=
  match Str.fromUtf8 bytes with
  | some key => .ok key
  -- the source appends the text of the UTF-8 error
  | none => .error (.serializationError "Invalid UTF-8 in key")

/-- `encode_key_into`, on the key buffer. -/
def encodeKeyInto (key : String) : StorageM Unit := keyBufExtend (Str.asBytes key)

/-- The transaction in which `RedbStorage::new` creates the tables that do not exist. -/
def initTables : StorageM Unit := do
  beginWrite
  openTable PAYLOADS_TABLE
  openTable DATA_INFO_TABLE
  commit

namespace RedbStorage

variable (z : ZExt) (self : RedbStorage)

/-- `RedbStorage::put`. -/
def put (key : String) (value : StoredValue) : StorageM Unit := do
  if self.config.readOnly then
    throw (.other "Storage is read-only")
  else
    keyBufClear
    encodeKeyInto key
    -- before the transaction begins, so an error here has nothing to undo
    let dataInfoBytes ← orThrow (encodeDataInfo z value.encoding value.timestamp false)
    beginWrite
    openTable PAYLOADS_TABLE
    let _ ← tableInsert PAYLOADS_TABLE (← keyBuf) value.payload
    openTable DATA_INFO_TABLE
    let _ ← tableInsert DATA_INFO_TABLE (← keyBuf) dataInfoBytes
    commit

/-- The `match` of `RedbStorage::get` on the two look-ups. -/
def getMatch : Option Bytes → Option Bytes → Except RedbBackendError (Option StoredValue)
  | some payloadBytes, some infoBytes =>
      match decodeDataInfo z infoBytes with
      | .error e => .error e
      | .ok (encoding, timestamp, deleted) =>
          -- a tombstone is treated as not found
          if deleted then .ok none
          else .ok (some ⟨payloadBytes, timestamp, encoding⟩)
  -- one table without the other is logged as a corruption or a deletion, and not found
  | some _, none => .ok none
  | none, some _ => .ok none
  | none, none => .ok none

/-- `RedbStorage::get`. -/
def get (key : String) : StorageM (Option StoredValue) := do
  keyBufClear
  encodeKeyInto key
  beginRead
  openTable PAYLOADS_TABLE
  openTable DATA_INFO_TABLE
  let payloadResult ← tableGet PAYLOADS_TABLE (← keyBuf)
  let dataInfoResult ← tableGet DATA_INFO_TABLE (← keyBuf)
  orThrow (getMatch z payloadResult dataInfoResult)

/-- `RedbStorage::delete`. -/
def delete (key : String) : StorageM Unit := do
  if self.config.readOnly then
    throw (.other "Storage is read-only")
  else
    keyBufClear
    encodeKeyInto key
    beginWrite
    openTable PAYLOADS_TABLE
    openTable DATA_INFO_TABLE
    let _ ← tableRemove PAYLOADS_TABLE (← keyBuf)
    let _ ← tableRemove DATA_INFO_TABLE (← keyBuf)
    commit

/-- The body of the scanning loops: keep the entry if `sel` selects its key, it is not
deleted and it has a payload. -/
def scanBody (sel : String → Bool) (results : List (String × StoredValue))
    (keyBytes infoBytes : Bytes) : StorageM (List (String × StoredValue)) := do
  let key ← orThrow (decodeKey keyBytes)
  -- the record of a key that is not selected is not decoded
  if sel key then
    let (encoding, timestamp, deleted) ← orThrow (decodeDataInfo z infoBytes)
    if !deleted then
      match ← tableGet PAYLOADS_TABLE keyBytes with
      | some payloadBytes => pure (results ++ [(key, ⟨payloadBytes, timestamp, encoding⟩)])
      | none => pure results
    else pure results
  else pure results

/-- The scan that `get_all`, `get_by_prefix` and `get_by_wildcard` have in common: iterate
over the metadata table and collect the entries whose key `sel` selects. -/
def scan (sel : String → Bool) : StorageM (List (String × StoredValue)) := do
  beginRead
  openTable PAYLOADS_TABLE
  openTable DATA_INFO_TABLE
  let n ← tableIter DATA_INFO_TABLE
  forItems DATA_INFO_TABLE (scanBody z sel) (n + 1) 0 []

/-- `RedbStorage::get_all`. -/
def getAll : StorageM (List (String × StoredValue)) := scan z fun _ => true

/-- `RedbStorage::get_by_prefix`. -/
def getByPrefix (keyPrefix : String) : StorageM (List (String × StoredValue)) :=
  scan z fun key => Str.startsWith key keyPrefix

/-- `RedbStorage::get_by_wildcard`. -/
def getByWildcard (pattern : String) : StorageM (List (String × StoredValue)) :=
  scan z fun key => matchesWildcard key pattern

/-- The body of the loop of `count`. -/
def countBody (count : Nat) (_keyBytes infoBytes : Bytes) : StorageM Nat := do
  let (_, _, deleted) ← orThrow (decodeDataInfo z infoBytes)
  if !deleted then pure (count + 1) else pure count

/-- `RedbStorage::count`. -/
def count : StorageM Nat := do
  beginRead
  openTable DATA_INFO_TABLE
  let n ← tableIter DATA_INFO_TABLE
  forItems DATA_INFO_TABLE (countBody z) (n + 1) 0 0

/-- `RedbStorage::clear`. -/
def clear : StorageM Unit := do
  if self.config.readOnly then
    throw (.other "Storage is read-only")
  else
    beginWrite
    -- the tables are deleted and recreated, not emptied key by key
    let _ ← deleteTable PAYLOADS_TABLE
    let _ ← deleteTable DATA_INFO_TABLE
    openTable PAYLOADS_TABLE
    openTable DATA_INFO_TABLE
    commit

end RedbStorage

/-! ## Calls of any operation -/

/-- A call of one of the operations, with its arguments. -/
inductive StorageCall
  | put (key : String) (value : StoredValue)
  | delete (key : String)
  | clear
  | get (key : String)
  | getAll
  | getByPrefix (keyPrefix : String)
  | getByWildcard (pattern : String)
  | count

/-- What a call returns when it succeeds. -/
inductive Reply
  | done
  | value (v : Option StoredValue)
  | entries (l : List (String × StoredValue))
  | number (n : Nat)
  deriving DecidableEq

/-- The operation a call runs. -/
def StorageCall.prog (z : ZExt) (self : RedbStorage) : StorageCall → StorageM Reply
  | .put key value => do self.put z key value; pure .done
  | .delete key => do self.delete key; pure .done
  | .clear => do self.clear; pure .done
  | .get key => do return .value (← RedbStorage.get z key)
  | .getAll => do return .entries (← RedbStorage.getAll z)
  | .getByPrefix keyPrefix => do return .entries (← RedbStorage.getByPrefix z keyPrefix)
  | .getByWildcard pattern => do return .entries (← RedbStorage.getByWildcard z pattern)
  | .count => do return .number (← RedbStorage.count z)

/-- The calls that write. -/
def StorageCall.isWrite : StorageCall → Bool
  | .put _ _ | .delete _ | .clear => true
  | _ => false

/-- Run an operation on the contents `db`, on a thread whose key buffer holds `buf`: its
result, the buffer it leaves, and the committed contents. -/
def StorageM.exec {α : Type} (x : StorageM α) (faults : List (Option String)) (buf : Bytes)
    (db : Db) : Except RedbBackendError α × Bytes × Db :=
  let r := TxStore.exec faults (x.run.run buf) db
  (r.1.1, r.1.2, r.2)

end ZenohRedb
