import ZenohRedb.Storage.Ops

set_option autoImplicit false

/-! # What the operations do to the two tables

A database that a storage has opened has both tables (`Tables`). This file evaluates every
operation on such a database when no call to redb fails, and gives one equation for each:
`put_exec`, `delete_exec`, `clear_exec`, `get_exec`, `scan_exec`, `count_exec` and
`initTables_exec`. They are the only place where the programs are run; everything about
sequences of operations is proved from the equations.
-/

namespace ZenohRedb

open TxStore

/-- The two tables of an opened database. -/
structure Tables where
  payloads : Table Bytes Bytes
  dataInfo : Table Bytes Bytes

namespace Tables

/-- The database with these tables. -/
def db (T : Tables) : Db
  | .payloads => some T.payloads
  | .dataInfo => some T.dataInfo

/-- The tables of a freshly created storage. -/
def empty : Tables := ⟨∅, ∅⟩

/-- The tables after `put`. -/
def put (z : ZExt) (T : Tables) (key : String) (value : StoredValue) : Tables where
  payloads := T.payloads.insert (Str.asBytes key) value.payload
  dataInfo := T.dataInfo.insert (Str.asBytes key)
    (z.zSerialize (DataInfo.asTuple ⟨value.timestamp, false, value.encoding⟩))

/-- The tables after `delete`. -/
def delete (T : Tables) (key : String) : Tables where
  payloads := T.payloads.erase (Str.asBytes key)
  dataInfo := T.dataInfo.erase (Str.asBytes key)

@[simp] theorem db_payloads (T : Tables) : T.db PAYLOADS_TABLE = some T.payloads := rfl

@[simp] theorem db_dataInfo (T : Tables) : T.db DATA_INFO_TABLE = some T.dataInfo := rfl

theorem db_inj {T T' : Tables} (h : T.db = T'.db) : T = T' := by
  have hp : some T.payloads = some T'.payloads := congrFun h PAYLOADS_TABLE
  have hi : some T.dataInfo = some T'.dataInfo := congrFun h DATA_INFO_TABLE
  cases T
  cases T'
  cases hp
  cases hi
  rfl

@[simp] theorem update_payloads (T : Tables) (p : Table Bytes Bytes) :
    Function.update T.db PAYLOADS_TABLE (some p) = (⟨p, T.dataInfo⟩ : Tables).db := by
  funext t
  cases t <;> rfl

@[simp] theorem update_dataInfo (T : Tables) (i : Table Bytes Bytes) :
    Function.update T.db DATA_INFO_TABLE (some i) = (⟨T.payloads, i⟩ : Tables).db := by
  funext t
  cases t <;> rfl

/-- Opening a table that exists changes nothing. -/
@[simp] theorem ensure_db (T : Tables) (t : TableName) : Store.ensure T.db t = T.db := by
  funext u
  cases t <;> cases u <;> rfl

end Tables

/-! ## Evaluating programs

`StorageM.eval` runs a program from any point of its transaction. Its equations follow the
shape of a program; those for the calls to redb say what each does in the transaction it is
made in. -/

/-- Run a program with the key buffer `buf` from the state `m`. -/
def StorageM.eval {α : Type} (x : StorageM α) (buf : Bytes)
    (m : Mach TableName Bytes Bytes String) :
    (Except RedbBackendError α × Bytes) × Mach TableName Bytes Bytes String :=
  (x.run.run buf).run m

section Eval

variable {α β : Type} (buf : Bytes) (m : Mach TableName Bytes Bytes String)

theorem StorageM.exec_eq (x : StorageM α) (fs : List (Option String)) (db : Db) :
    x.exec fs buf db
      = ((x.eval buf ⟨db, .idle, fs⟩).1.1, (x.eval buf ⟨db, .idle, fs⟩).1.2,
          (x.eval buf ⟨db, .idle, fs⟩).2.db) := rfl

@[simp] theorem eval_pure (a : α) : (pure a : StorageM α).eval buf m = ((.ok a, buf), m) := rfl

@[simp] theorem eval_throw (e : RedbBackendError) :
    (throw e : StorageM α).eval buf m = ((.error e, buf), m) := rfl

@[simp] theorem eval_orThrow (x : Except RedbBackendError α) :
    (orThrow x).eval buf m = ((x, buf), m) := rfl

@[simp] theorem eval_keyBuf : keyBuf.eval buf m = ((.ok buf, buf), m) := rfl

@[simp] theorem eval_keyBufClear : keyBufClear.eval buf m = ((.ok (), []), m) := rfl

@[simp] theorem eval_keyBufExtend (bs : Bytes) :
    (keyBufExtend bs).eval buf m = ((.ok (), buf ++ bs), m) := rfl

theorem eval_bind (x : StorageM α) (f : α → StorageM β) :
    (x >>= f).eval buf m =
      match x.eval buf m with
      | ((.ok a, buf'), m') => (f a).eval buf' m'
      | ((.error e, buf'), m') => ((.error e, buf'), m') := by
  show ((x.run.run buf) >>= _).run m = _
  rw [Prog.run_bind]
  unfold StorageM.eval
  rcases (x.run.run buf).run m with ⟨⟨r, buf'⟩, m'⟩
  cases r <;> rfl

variable (db : Db)

@[simp] theorem eval_beginRead :
    beginRead.eval buf ⟨db, .idle, []⟩ = ((.ok (), buf), ⟨db, .read db, []⟩) := rfl

@[simp] theorem eval_beginWrite :
    beginWrite.eval buf ⟨db, .idle, []⟩ = ((.ok (), buf), ⟨db, .write db, []⟩) := rfl

@[simp] theorem eval_commit (w : Db) :
    commit.eval buf ⟨db, .write w, []⟩ = ((.ok (), buf), ⟨w, .closed, []⟩) := rfl

@[simp] theorem eval_openTable_write (w : Db) (t : TableName) :
    (openTable t).eval buf ⟨db, .write w, []⟩
      = ((.ok (), buf), ⟨db, .write (Store.ensure w t), []⟩) := rfl

@[simp] theorem eval_openTable_read (T : Tables) (t : TableName) :
    (openTable t).eval buf ⟨db, .read T.db, []⟩
      = ((.ok (), buf), ⟨db, .read T.db, []⟩) := by
  cases t <;> rfl

@[simp] theorem eval_deleteTable (w : Db) (t : TableName) :
    (deleteTable t).eval buf ⟨db, .write w, []⟩
      = ((.ok (w t).isSome, buf), ⟨db, .write (Function.update w t none), []⟩) := rfl

@[simp] theorem eval_insert (w : Db) (t : TableName) (k v : Bytes) :
    (tableInsert t k v).eval buf ⟨db, .write w, []⟩
      = ((.ok ((w t).getD ∅)[k]?, buf),
          ⟨db, .write (Function.update w t ((w t).map (·.insert k v))), []⟩) := rfl

@[simp] theorem eval_remove (w : Db) (t : TableName) (k : Bytes) :
    (tableRemove t k).eval buf ⟨db, .write w, []⟩
      = ((.ok ((w t).getD ∅)[k]?, buf),
          ⟨db, .write (Function.update w t ((w t).map (·.erase k))), []⟩) := rfl

@[simp] theorem eval_get (s : Db) (t : TableName) (k : Bytes) :
    (tableGet t k).eval buf ⟨db, .read s, []⟩
      = ((.ok ((s t).getD ∅)[k]?, buf), ⟨db, .read s, []⟩) := rfl

@[simp] theorem eval_iter (s : Db) (t : TableName) :
    (tableIter t).eval buf ⟨db, .read s, []⟩
      = ((.ok ((s t).getD ∅).size, buf), ⟨db, .read s, []⟩) := rfl

@[simp] theorem eval_next (s : Db) (t : TableName) (i : Nat) :
    (tableNext t i).eval buf ⟨db, .read s, []⟩
      = ((.ok ((s t).getD ∅).toList[i]?, buf), ⟨db, .read s, []⟩) := rfl

end Eval

/-! ## The writing operations -/

section Writes

variable (z : ZExt) (self : RedbStorage) (buf : Bytes) (T : Tables)

theorem put_exec (key : String) (value : StoredValue) (h : self.config.readOnly = false) :
    (self.put z key value).exec [] buf T.db
      = (.ok (), Str.asBytes key, (T.put z key value).db) := by
  simp [StorageM.exec_eq, RedbStorage.put, encodeKeyInto, encodeDataInfo, h, eval_bind,
    Tables.put]

theorem delete_exec (key : String) (h : self.config.readOnly = false) :
    (self.delete key).exec [] buf T.db = (.ok (), Str.asBytes key, (T.delete key).db) := by
  simp [StorageM.exec_eq, RedbStorage.delete, encodeKeyInto, h, eval_bind, Tables.delete]

/-- Deleting and recreating both tables gives empty tables, whatever the database held. -/
theorem recreate_tables (db : Db) :
    Store.ensure (Store.ensure (Function.update (Function.update db PAYLOADS_TABLE none)
      DATA_INFO_TABLE none) PAYLOADS_TABLE) DATA_INFO_TABLE = Tables.empty.db := by
  funext t
  cases t <;> rfl

theorem clear_exec (db : Db) (h : self.config.readOnly = false) :
    self.clear.exec [] buf db = (.ok (), buf, Tables.empty.db) := by
  simp [StorageM.exec_eq, RedbStorage.clear, h, eval_bind, recreate_tables]

theorem initTables_exec : initTables.exec [] buf T.db = (.ok (), buf, T.db) := by
  simp [StorageM.exec_eq, initTables, eval_bind]

/-- On a database without tables `RedbStorage::new` creates both, empty. -/
theorem initTables_exec_empty : initTables.exec [] buf Db.empty = (.ok (), buf, Tables.empty.db) := by
  have hdb : Store.ensure (Store.ensure Db.empty PAYLOADS_TABLE) DATA_INFO_TABLE
      = Tables.empty.db := by
    funext t
    cases t <;> rfl
  simp [StorageM.exec_eq, initTables, eval_bind, hdb]

/-- The error every writing operation returns on a read-only storage. -/
def readOnlyError : RedbBackendError := .other "Storage is read-only"

/-- On a read-only storage the writing operations return at once: they leave the key buffer
and the database alone, whatever may fail. -/
theorem put_readOnly (key : String) (value : StoredValue) (fs : List (Option String)) (db : Db)
    (h : self.config.readOnly = true) :
    (self.put z key value).exec fs buf db = (.error readOnlyError, buf, db) := by
  simp [StorageM.exec_eq, RedbStorage.put, h, readOnlyError]

theorem delete_readOnly (key : String) (fs : List (Option String)) (db : Db)
    (h : self.config.readOnly = true) :
    (self.delete key).exec fs buf db = (.error readOnlyError, buf, db) := by
  simp [StorageM.exec_eq, RedbStorage.delete, h, readOnlyError]

theorem clear_readOnly (fs : List (Option String)) (db : Db)
    (h : self.config.readOnly = true) :
    self.clear.exec fs buf db = (.error readOnlyError, buf, db) := by
  simp [StorageM.exec_eq, RedbStorage.clear, h, readOnlyError]

end Writes

/-! ## The reading operations

A loop over a table runs its body on every entry in key order, so it is a monadic fold over
the list of entries (`forItems_eval`). -/

namespace Tables

section

variable (z : ZExt) (T : Tables)

/-- What `get` returns. -/
def get (key : String) : Except RedbBackendError (Option StoredValue) :=
  RedbStorage.getMatch z T.payloads[Str.asBytes key]? T.dataInfo[Str.asBytes key]?

/-- What one entry of the metadata table contributes to a scan. -/
def scanEntry (sel : String → Bool) (item : Bytes × Bytes) :
    Except RedbBackendError (Option (String × StoredValue)) :=
  match decodeKey item.1 with
  | .error e => .error e
  | .ok key =>
      if sel key then
        match decodeDataInfo z item.2 with
        | .error e => .error e
        | .ok (encoding, timestamp, deleted) =>
            if deleted then .ok none
            else .ok (T.payloads[item.1]?.map fun payload => (key, ⟨payload, timestamp, encoding⟩))
      else .ok none

/-- One round of a scan. -/
def scanStep (sel : String → Bool) (results : List (String × StoredValue))
    (item : Bytes × Bytes) : Except RedbBackendError (List (String × StoredValue)) :=
  (T.scanEntry z sel item).map (results ++ ·.toList)

/-- What the scans return. -/
def scan (sel : String → Bool) : Except RedbBackendError (List (String × StoredValue)) :=
  T.dataInfo.toList.foldlM (T.scanStep z sel) []

/-- One round of `count`. -/
def countStep (n : Nat) (item : Bytes × Bytes) : Except RedbBackendError Nat :=
  (decodeDataInfo z item.2).map fun (_, _, deleted) => if deleted then n else n + 1

/-- What `count` returns. -/
def count : Except RedbBackendError Nat := T.dataInfo.toList.foldlM (countStep z) 0

end

end Tables

section Reads

variable (z : ZExt) (buf : Bytes) (T : Tables)

theorem get_exec (key : String) :
    (RedbStorage.get z key).exec [] buf T.db = (T.get z key, Str.asBytes key, T.db) := by
  simp [StorageM.exec_eq, RedbStorage.get, encodeKeyInto, eval_bind, Tables.get]

theorem forItems_eval {σ : Type} (t : TableName) (body : σ → Bytes → Bytes → StorageM σ)
    (f : σ → Bytes × Bytes → Except RedbBackendError σ) (db s : Db)
    (hbody : ∀ acc k v, (body acc k v).eval buf ⟨db, .read s, []⟩
      = ((f acc (k, v), buf), ⟨db, .read s, []⟩)) :
    ∀ (n i : Nat) (acc : σ), ((s t).getD ∅).toList.length < n + i →
      (forItems t body n i acc).eval buf ⟨db, .read s, []⟩
        = ((((s t).getD ∅).toList.drop i |>.foldlM f acc, buf), ⟨db, .read s, []⟩) := by
  intro n
  -- on the bound: with `n` steps left, at most `n - 1` entries are still to come
  induction n with
  | zero =>
      intro i acc hlen
      rw [List.drop_eq_nil_of_le (by omega)]
      rfl
  | succ n ih =>
      intro i acc hlen
      simp only [forItems, eval_bind, eval_next]
      cases hi : ((s t).getD ∅).toList[i]? with
      | none =>
          -- the end of the table, before the bound
          rw [List.drop_eq_nil_of_le (List.getElem?_eq_none_iff.mp hi)]
          rfl
      | some kv =>
          obtain ⟨hlt, hget⟩ := List.getElem?_eq_some_iff.mp hi
          rw [List.drop_eq_getElem_cons hlt, hget, List.foldlM_cons]
          simp only [eval_bind, hbody acc kv.1 kv.2]
          cases f acc kv with
          | error e => rfl
          | ok acc' => exact ih (i + 1) acc' (by omega)

theorem scan_exec (sel : String → Bool) :
    (RedbStorage.scan z sel).exec [] buf T.db = (T.scan z sel, buf, T.db) := by
  have hbody : ∀ acc k v, (RedbStorage.scanBody z sel acc k v).eval buf ⟨T.db, .read T.db, []⟩
      = ((T.scanStep z sel acc (k, v), buf), ⟨T.db, .read T.db, []⟩) := by
    intro acc k v
    unfold RedbStorage.scanBody Tables.scanStep Tables.scanEntry
    simp only [eval_bind, eval_orThrow]
    cases decodeKey k with
    | error e => rfl
    | ok key =>
        cases hsel : sel key with
        | false => simp [hsel, Except.map]
        | true =>
            -- the record decides whether the payload is looked up
            simp only [hsel, if_true, eval_bind, eval_orThrow]
            cases decodeDataInfo z v with
            | error e => rfl
            | ok info =>
                obtain ⟨encoding, timestamp, deleted⟩ := info
                cases deleted with
                | true => simp [Except.map]
                | false =>
                    cases hp : T.payloads[k]? with
                    | none => simp [eval_bind, hp, Except.map]
                    | some payload => simp [eval_bind, hp, Except.map]
  have hloop := forItems_eval buf DATA_INFO_TABLE _ (T.scanStep z sel) T.db T.db hbody
    (T.dataInfo.size + 1) 0 []
    (by simp)
  simp [StorageM.exec_eq, RedbStorage.scan, eval_bind, Tables.scan, hloop]

theorem count_exec :
    (RedbStorage.count z).exec [] buf T.db = (T.count z, buf, T.db) := by
  have hbody : ∀ acc k v, (RedbStorage.countBody z acc k v).eval buf ⟨T.db, .read T.db, []⟩
      = ((Tables.countStep z acc (k, v), buf), ⟨T.db, .read T.db, []⟩) := by
    intro acc k v
    unfold RedbStorage.countBody Tables.countStep
    simp only [eval_bind, eval_orThrow]
    cases decodeDataInfo z v with
    | error e => rfl
    | ok info =>
        obtain ⟨encoding, timestamp, deleted⟩ := info
        cases deleted <;> rfl
  have hloop := forItems_eval buf DATA_INFO_TABLE _ (Tables.countStep z) T.db T.db hbody
    (T.dataInfo.size + 1) 0 0
    (by simp)
  simp [StorageM.exec_eq, RedbStorage.count, eval_bind, Tables.count, hloop]

end Reads

/-! ## Reading back what was written -/

theorem Tables.get_put (z : ZExt) (T : Tables) (key : String) (value : StoredValue) :
    (T.put z key value).get z key = .ok (some value.canon) := by
  have hp : (T.put z key value).payloads[Str.asBytes key]? = some value.payload :=
    Std.ExtTreeMap.getElem?_insert_self
  have hi : (T.put z key value).dataInfo[Str.asBytes key]?
      = some (z.zSerialize (DataInfo.asTuple ⟨value.timestamp, false, value.encoding⟩)) :=
    Std.ExtTreeMap.getElem?_insert_self
  simp only [Tables.get, hp, hi, RedbStorage.getMatch, decodeDataInfo_zSerialize]
  rfl

/-- **The metadata round trip.** Decoding what `encode_data_info` wrote gives the same
timestamp and flag, and an encoding with the same id and the same schema, except that an
empty schema comes back as none. So does a `get` behind a `put`. -/
theorem decodeDataInfo_encodeDataInfo (z : ZExt) (encoding : Encoding) (timestamp : Timestamp)
    (deleted : Bool) :
    ∃ encoding', encodeDataInfo z encoding timestamp deleted >>= decodeDataInfo z
        = .ok (encoding', timestamp, deleted) ∧
      encoding'.id = encoding.id ∧
      encoding'.schema = (if encoding.schema = some [] then none else encoding.schema) ∧
      (encoding' = encoding ↔ encoding.schema ≠ some []) ∧
      ∀ (self : RedbStorage) (T : Tables) (key : String) (payload buf buf' : Bytes),
        self.config.readOnly = false →
        ∃ db, (self.put z key ⟨payload, timestamp, encoding⟩).exec [] buf T.db
            = (.ok (), Str.asBytes key, db) ∧
          ((RedbStorage.get z key).exec [] buf' db).1
            = .ok (some ⟨payload, timestamp, encoding'⟩) := by
  refine ⟨encoding.canon, decodeDataInfo_zSerialize z encoding timestamp deleted, rfl, rfl,
    encoding.canon_eq_self_iff, ?_⟩
  intro self T key payload buf buf' hro
  refine ⟨_, put_exec z self buf T key _ hro, ?_⟩
  rw [get_exec, Tables.get_put]
  rfl

/-- A value with a schema is read back as it was put. -/
theorem decodeDataInfo_encodeDataInfo_schema :
    ∃ encoding', encodeDataInfo .layout ⟨1, some [117]⟩ .first false >>= decodeDataInfo .layout
        = .ok (encoding', .first, false) ∧
      ∃ db, (RedbStorage.put .layout ⟨.ofString "s.redb", .new, "s"⟩ "k"
          ⟨[1], .first, ⟨1, some [117]⟩⟩).exec [] [] Tables.empty.db
            = (.ok (), Str.asBytes "k", db) ∧
        ((RedbStorage.get .layout "k").exec [] [] db).1 = .ok (some ⟨[1], .first, encoding'⟩) := by
  obtain ⟨encoding', hdec, -, -, -, hget⟩ :=
    decodeDataInfo_encodeDataInfo .layout ⟨1, some [117]⟩ .first false
  exact ⟨encoding', hdec,
    hget ⟨.ofString "s.redb", .new, "s"⟩ .empty "k" [1] [] [] rfl⟩

/-- An empty schema is lost. -/
theorem decodeDataInfo_encodeDataInfo_empty_schema :
    encodeDataInfo .layout ⟨0, some []⟩ .first false >>= decodeDataInfo .layout
        = .ok (⟨0, none⟩, .first, false) ∧
      (⟨0, none⟩ : Encoding) ≠ ⟨0, some []⟩ := ⟨rfl, by decide⟩

/-! ## Any call

`StorageCall.spec` is the result of a call and the tables it leaves, as one function; the
equations above say that every program computes it (`StorageCall.exec_tables`). -/

/-- A conversion of a result succeeds when there is a result to convert. -/
theorem map_eq_ok {ε α β : Type} {f : α → β} {x : Except ε α} {b : β} :
    x.map f = .ok b ↔ ∃ a, x = .ok a ∧ f a = b := by
  cases x <;> simp [Except.map]

/-- Turning the result of a program into a reply. -/
theorem exec_bind_pure {α β : Type} (x : StorageM α) (f : α → β) (fs : List (Option String))
    (buf : Bytes) (db : Db) :
    (x >>= fun a => pure (f a)).exec fs buf db
      = ((x.exec fs buf db).1.map f, (x.exec fs buf db).2.1, (x.exec fs buf db).2.2) := by
  simp only [StorageM.exec_eq, eval_bind]
  rcases x.eval buf ⟨db, .idle, fs⟩ with ⟨⟨r, buf'⟩, m'⟩
  cases r with
  | ok a => rfl
  | error e => rfl

/-- The result of a call and the tables it leaves, on a storage that is read-only or not. -/
def StorageCall.spec (z : ZExt) (readOnly : Bool) (T : Tables) :
    StorageCall → Except RedbBackendError Reply × Tables
  | .put key value => if readOnly then (.error readOnlyError, T) else (.ok .done, T.put z key value)
  | .delete key => if readOnly then (.error readOnlyError, T) else (.ok .done, T.delete key)
  | .clear => if readOnly then (.error readOnlyError, T) else (.ok .done, Tables.empty)
  | .get key => ((T.get z key).map .value, T)
  | .getAll => ((T.scan z fun _ => true).map .entries, T)
  | .getByPrefix keyPrefix => ((T.scan z fun key => Str.startsWith key keyPrefix).map .entries, T)
  | .getByWildcard pattern => ((T.scan z fun key => matchesWildcard key pattern).map .entries, T)
  | .count => ((T.count z).map .number, T)

theorem StorageCall.exec_tables (z : ZExt) (self : RedbStorage) (c : StorageCall) (buf : Bytes)
    (T : Tables) :
    ((c.prog z self).exec [] buf T.db).1 = (c.spec z self.config.readOnly T).1 ∧
      ((c.prog z self).exec [] buf T.db).2.2 = (c.spec z self.config.readOnly T).2.db := by
  cases c with
  | put key value =>
      simp only [StorageCall.prog, exec_bind_pure, StorageCall.spec]
      cases h : self.config.readOnly with
      | true => simp [put_readOnly z self buf key value [] T.db h, Except.map]
      | false => simp [put_exec z self buf T key value h, Except.map]
  | delete key =>
      simp only [StorageCall.prog, exec_bind_pure, StorageCall.spec]
      cases h : self.config.readOnly with
      | true => simp [delete_readOnly self buf key [] T.db h, Except.map]
      | false => simp [delete_exec self buf T key h, Except.map]
  | clear =>
      simp only [StorageCall.prog, exec_bind_pure, StorageCall.spec]
      cases h : self.config.readOnly with
      | true => simp [clear_readOnly self buf [] T.db h, Except.map]
      | false => simp [clear_exec self buf T.db h, Except.map]
  | get key => simp [StorageCall.prog, exec_bind_pure, StorageCall.spec, get_exec]
  | getAll =>
      simp [StorageCall.prog, exec_bind_pure, StorageCall.spec, RedbStorage.getAll, scan_exec]
  | getByPrefix keyPrefix =>
      simp [StorageCall.prog, exec_bind_pure, StorageCall.spec, RedbStorage.getByPrefix, scan_exec]
  | getByWildcard pattern =>
      simp [StorageCall.prog, exec_bind_pure, StorageCall.spec, RedbStorage.getByWildcard,
        scan_exec]
  | count => simp [StorageCall.prog, exec_bind_pure, StorageCall.spec, count_exec]

/-- What a call does to the tables: nothing, or what one of the three writes does. -/
theorem StorageCall.spec_cases (z : ZExt) (readOnly : Bool) (T : Tables) (c : StorageCall) :
    (c.spec z readOnly T).2 = T ∨
      (∃ key value, c = .put key value ∧ (c.spec z readOnly T).2 = T.put z key value) ∨
      (∃ key, c = .delete key ∧ (c.spec z readOnly T).2 = T.delete key) ∨
      (c = .clear ∧ (c.spec z readOnly T).2 = Tables.empty) := by
  cases readOnly with
  | true => exact Or.inl (by cases c <;> rfl)
  | false =>
      cases c with
      | put key value => exact Or.inr (Or.inl ⟨key, value, rfl, rfl⟩)
      | delete key => exact Or.inr (Or.inr (Or.inl ⟨key, rfl, rfl⟩))
      | clear => exact Or.inr (Or.inr (Or.inr ⟨rfl, rfl⟩))
      | _ => exact Or.inl rfl

/-- **What the writes keep** of the tables, every call keeps. -/
theorem StorageCall.spec_keeps {P : Tables → Prop} {z : ZExt} {T : Tables} (c : StorageCall)
    (hT : P T) (hput : ∀ key value, c = .put key value → P (T.put z key value))
    (hdelete : ∀ key, P (T.delete key)) (hempty : P .empty) (readOnly : Bool) :
    P (c.spec z readOnly T).2 := by
  rcases c.spec_cases z readOnly T with h | ⟨key, value, hc, h⟩ | ⟨key, -, h⟩ | ⟨-, h⟩
  · rwa [h]
  · rw [h]
    exact hput key value hc
  · rw [h]
    exact hdelete key
  · rwa [h]

/-- A call that reads leaves the tables as they are. -/
theorem StorageCall.spec_read {c : StorageCall} (hc : c.isWrite = false) (z : ZExt)
    (readOnly : Bool) (T : Tables) : (c.spec z readOnly T).2 = T := by
  cases c with
  | put key value => cases hc
  | delete key => cases hc
  | clear => cases hc
  | _ => rfl

/-- On a read-only storage no call changes the tables. -/
theorem StorageCall.spec_readOnly (c : StorageCall) (z : ZExt) (T : Tables) :
    (c.spec z true T).2 = T := by
  cases c <;> rfl

/-- On a read-only storage a call that writes is refused. -/
theorem StorageCall.spec_write_readOnly {c : StorageCall} (hc : c.isWrite = true) (z : ZExt)
    (T : Tables) : (c.spec z true T).1 = .error readOnlyError := by
  cases c with
  | put key value => rfl
  | delete key => rfl
  | clear => rfl
  | _ => cases hc

/-- What a call that reads returns does not depend on the flag. -/
theorem StorageCall.spec_read_result {c : StorageCall} (hc : c.isWrite = false) (z : ZExt)
    (ro ro' : Bool) (T : Tables) : (c.spec z ro T).1 = (c.spec z ro' T).1 := by
  cases c with
  | put key value => cases hc
  | delete key => cases hc
  | clear => cases hc
  | _ => rfl

end ZenohRedb
