import ZenohRedb.Lib.Runs
import ZenohRedb.Disk
import ZenohRedb.Storage.Atomicity
import ZenohRedb.Storage.EntryMap

set_option autoImplicit false

/-! # Runs of one storage, with faults

A client of a database opens it (`RedbStorage::new`), calls operations, and may drop the
storage and open the database again. `Session.step` is one such action, in which any call to
redb may fail; a session is a run of them from a fresh database. A commit that fails is assumed to
leave the old contents (`Lib/Store.lean`), so opening the database again does not find more.

The invariant of a session (`Session.Inv`) is that an open database has consistent tables.
`step_call` and `step_reopen` say what one action does in such a state, and
`run_with_faults` draws the conclusions for a whole run.
-/

namespace ZenohRedb

open TxStore

/-- What a client does: drop the storage it has, if any, and open the database again, or call
an operation. -/
inductive Action
  | reopen (config : RedbStorageConfig) (name : String)
  | call (c : StorageCall)

/-- The client of the database at `path`: the disk, the storage it has open, if any, and the
key buffer of its thread. -/
structure Session where
  disk : Disk
  path : PathBuf
  storage : Option RedbStorage
  buf : Bytes

namespace Session

/-- A client that has not opened the database yet. -/
def start (disk : Disk) (path : PathBuf) (buf : Bytes) : Session := ⟨disk, path, none, buf⟩

/-- Drop the storage of the client, if it has one. -/
def dropStorage (s : Session) : Disk :=
  match s.storage with
  | some storage => storage.drop s.disk
  | none => s.disk

/-- One action, with the faults that happen in it. A client without a storage has nothing to
call. -/
def step (z : ZExt) (s : Session) :
    Action × List (Option String) → Except RedbBackendError Reply × Session
  | (.reopen config name, faults) =>
      match RedbStorage.new s.dropStorage faults s.path config name with
      | (.ok storage, disk) => (.ok .done, { s with disk, storage := some storage })
      | (.error e, disk) => (.error e, { s with disk, storage := none })
  | (.call c, faults) =>
      match s.storage with
      | none => (.error (.other "no storage"), s)
      | some storage =>
          match storage.onDisk (c.prog z storage) faults s.buf s.disk with
          | (r, buf, disk) => (r, { s with disk, buf })

/-- The client has the database open, with the tables `T`. -/
structure Serves (s : Session) (storage : RedbStorage) (T : Tables) : Prop where
  storage_eq : s.storage = some storage
  db_eq : storage.db = s.path
  read_eq : s.disk.read s.path = some (.database T.db true)

/-- The client has no storage, and the database is fresh or closed with the tables `T`. -/
def Closed (s : Session) (T : Tables) : Prop :=
  s.storage = none ∧
    ((s.disk.Fresh s.path ∧ T = .empty) ∨ s.disk.read s.path = some (.database T.db false))

/-- Open or closed, the tables are `T`. -/
def Has (s : Session) (T : Tables) : Prop := (∃ storage, s.Serves storage T) ∨ s.Closed T

theorem start_closed {disk : Disk} {path : PathBuf} {buf : Bytes} (h : disk.Fresh path) :
    (start disk path buf).Closed .empty := ⟨rfl, Or.inl ⟨h, rfl⟩⟩

end Session

/-! ## Opening with faults -/

section New

variable {d : Disk} {path : PathBuf} (config : RedbStorageConfig) (name : String)

/-- Opening a closed database with both tables: it fails and nothing changes, or it takes the
lock. -/
theorem new_existing_faults {T : Tables} (h : d.read path = some (.database T.db false))
    (fs : List (Option String)) :
    (∃ e, RedbStorage.new d fs path config name = (.error e, d) ∧ e.isSerialization = false) ∨
    RedbStorage.new d fs path config name
      = (.ok ⟨path, config, name⟩, d.write path (.database T.db true)) := by
  unfold RedbStorage.new Disk.createDatabase
  cases hf : fs.head?.join with
  | some msg => exact Or.inl ⟨_, rfl, rfl⟩
  | none =>
      -- the handle is open; what is left is the transaction that creates the tables
      simp only [h]
      rcases initTables_obeys.exec_faults fs.tail [] T.db with ⟨e, he, hredb, hdb⟩ | hsame
      · left
        refine ⟨e, ?_, e.not_serialization_of_isRedb hredb⟩
        rw [show initTables.exec fs.tail [] T.db = (.error e, _, T.db) from
          Prod.ext he (Prod.ext rfl hdb)]
        simp only [Disk.write_write, Disk.write_read h]
      · right
        rw [hsame, initTables_exec]
        simp only [Disk.write_write]

/-- Opening a fresh database: it fails and the database is still fresh, or both tables are
there, empty. -/
theorem new_fresh_faults (h : d.Fresh path) (fs : List (Option String)) :
    (∃ e d', RedbStorage.new d fs path config name = (.error e, d') ∧
      e.isSerialization = false ∧ d'.Fresh path) ∨
    RedbStorage.new d fs path config name
      = (.ok ⟨path, config, name⟩, d.write path (.database Tables.empty.db true)) := by
  have hcreate : fs.head?.join = none → d.createDatabase path fs.head?.join
      = (.ok Db.empty, d.write path (.database Db.empty true)) := by
    intro hf
    rw [hf]
    unfold Disk.createDatabase
    rcases h with ⟨hnone, hc⟩ | hempty
    · simp only [hnone, hc, if_true]
    · simp only [hempty]
  unfold RedbStorage.new
  cases hf : fs.head?.join with
  | some msg => exact Or.inl ⟨_, d, rfl, rfl, h⟩
  | none =>
      have hc := hcreate hf
      rw [hf] at hc
      simp only [hc]
      rcases initTables_obeys.exec_faults fs.tail [] Db.empty with ⟨e, he, hredb, hdb⟩ | hsame
      · -- the file has been created, and holds a database without tables
        left
        refine ⟨e, d.write path (.database Db.empty false), ?_, e.not_serialization_of_isRedb hredb,
          Or.inr (d.read_write _ _)⟩
        rw [show initTables.exec fs.tail [] Db.empty = (.error e, _, Db.empty) from
          Prod.ext he (Prod.ext rfl hdb)]
        simp only [Disk.write_write]
      · right
        rw [hsame, initTables_exec_empty]
        simp only [Disk.write_write]

end New

/-! ## One action -/

namespace Session

variable {z : ZExt} {s : Session} {storage : RedbStorage} {T : Tables}

/-- The storage finds its tables in the file it has open. -/
theorem Serves.read_db (h : s.Serves storage T) :
    s.disk.read storage.db = some (.database T.db true) := by
  rw [h.db_eq]
  exact h.read_eq

/-- A client with the same storage has its tables at the same path. -/
theorem Serves.read_path {s' : Session} {T' : Tables} (hs : s.Serves storage T)
    (hs' : s'.Serves storage T') : s'.disk.read s.path = some (.database T'.db true) := by
  have hpath : s'.path = s.path := hs'.db_eq.symm.trans hs.db_eq
  rw [← hpath]
  exact hs'.read_eq

/-- The tables that are found there are the ones it has. -/
theorem Serves.tables_eq {s' : Session} {T' T'' : Tables} (hs : s.Serves storage T)
    (hs' : s'.Serves storage T') (h : s'.disk.read s.path = some (.database T''.db true)) :
    T' = T'' := by
  rw [hs.read_path hs'] at h
  injection h with hentry
  injection hentry with hdb
  exact Tables.db_inj hdb

/-- A call runs its program on the tables. -/
theorem Serves.step_call_eq (h : s.Serves storage T) (c : StorageCall)
    (fs : List (Option String)) :
    s.step z (.call c, fs)
      = (((c.prog z storage).exec fs s.buf T.db).1,
          { s with
            disk := s.disk.write s.path
              (.database ((c.prog z storage).exec fs s.buf T.db).2.2 true)
            buf := ((c.prog z storage).exec fs s.buf T.db).2.1 }) := by
  simp only [step, h.storage_eq, RedbStorage.onDisk_eq storage _ fs s.buf h.read_db, h.db_eq]

/-- Dropping the storage closes the database. -/
theorem Serves.read_dropStorage (h : s.Serves storage T) :
    s.dropStorage.read s.path = some (.database T.db false) := by
  unfold dropStorage RedbStorage.drop Disk.close
  rw [h.storage_eq]
  simp only [h.db_eq, h.read_eq, Disk.read_write]

/-- **A call** leaves the storage in place. It ends in an error of redb and the tables stay
as they are, or it does what `StorageCall.spec` says. -/
theorem step_call (h : s.Serves storage T) (c : StorageCall) (fs : List (Option String)) :
    (∃ e, (s.step z (.call c, fs)).1 = .error e ∧ e.isRedb = true ∧
      (s.step z (.call c, fs)).2.Serves storage T) ∨
    ((s.step z (.call c, fs)).1 = (c.spec z storage.config.readOnly T).1 ∧
      (s.step z (.call c, fs)).2.Serves storage (c.spec z storage.config.readOnly T).2) := by
  rw [h.step_call_eq]
  rcases StorageCall.exec_tables_faults z storage c fs s.buf T with ⟨e, he, hredb, hdb⟩ | ⟨hr, hdb⟩
  · left
    refine ⟨e, he, hredb, h.storage_eq, h.db_eq, ?_⟩
    simp only [hdb, Disk.read_write]
  · right
    refine ⟨hr, h.storage_eq, h.db_eq, ?_⟩
    simp only [hdb, Disk.read_write]

/-- Without faults a call does what `StorageCall.spec` says. -/
theorem step_call_ok (h : s.Serves storage T) (c : StorageCall) :
    (s.step z (.call c, [])).1 = (c.spec z storage.config.readOnly T).1 ∧
      (s.step z (.call c, [])).2.Serves storage (c.spec z storage.config.readOnly T).2 := by
  obtain ⟨hr, hdb⟩ := StorageCall.exec_tables z storage c s.buf T
  rw [h.step_call_eq]
  refine ⟨hr, h.storage_eq, h.db_eq, ?_⟩
  simp only [hdb, Disk.read_write]

/-- **Opening** keeps the tables; if it fails, the database is closed. -/
theorem step_reopen (h : s.Has T) (config : RedbStorageConfig) (name : String)
    (fs : List (Option String)) :
    (∃ e, (s.step z (.reopen config name, fs)).1 = .error e ∧ e.isSerialization = false ∧
      (s.step z (.reopen config name, fs)).2.Closed T) ∨
    ((s.step z (.reopen config name, fs)).1 = .ok .done ∧
      (s.step z (.reopen config name, fs)).2.Serves ⟨s.path, config, name⟩ T) := by
  -- once the old storage is dropped, the database is closed or has not been used yet
  have hopen : s.dropStorage.read s.path = some (.database T.db false) ∨
      (s.dropStorage.Fresh s.path ∧ T = .empty) := by
    rcases h with ⟨storage, h⟩ | ⟨hnone, hT⟩
    · exact Or.inl h.read_dropStorage
    · unfold dropStorage
      rw [hnone]
      exact hT.symm
  rcases hopen with hread | ⟨hfresh, rfl⟩
  · rcases new_existing_faults config name hread fs with ⟨e, hnew, hser⟩ | hnew
    · left
      simp only [step, hnew]
      exact ⟨e, rfl, hser, rfl, Or.inr hread⟩
    · right
      simp only [step, hnew]
      exact ⟨trivial, rfl, rfl, Disk.read_write _ _ _⟩
  · rcases new_fresh_faults config name hfresh fs with ⟨e, d', hnew, hser, hd'⟩ | hnew
    · left
      simp only [step, hnew]
      exact ⟨e, rfl, hser, rfl, Or.inl ⟨hd', rfl⟩⟩
    · right
      simp only [step, hnew]
      exact ⟨trivial, rfl, rfl, Disk.read_write _ _ _⟩

/-- Without faults opening succeeds. -/
theorem step_reopen_ok (h : s.Has T) (config : RedbStorageConfig) (name : String) :
    (s.step z (.reopen config name, [])).1 = .ok .done ∧
      (s.step z (.reopen config name, [])).2.Serves ⟨s.path, config, name⟩ T := by
  rcases h with ⟨storage, h⟩ | ⟨hnone, ⟨hfresh, rfl⟩ | hread⟩
  · simp only [step, new_existing config name h.read_dropStorage]
    exact ⟨trivial, rfl, rfl, Disk.read_write _ _ _⟩
  · simp only [step, dropStorage, hnone, new_fresh config name hfresh]
    exact ⟨trivial, rfl, rfl, Disk.read_write _ _ _⟩
  · simp only [step, dropStorage, hnone, new_existing config name hread]
    exact ⟨trivial, rfl, rfl, Disk.read_write _ _ _⟩

/-- A call that returns an error leaves the disk as it is. -/
theorem step_call_error {c : StorageCall} {fs : List (Option String)} {e : RedbBackendError}
    (h : (s.step z (.call c, fs)).1 = .error e) : (s.step z (.call c, fs)).2.disk = s.disk := by
  cases hs : s.storage with
  | none => simp only [step, hs]
  | some storage =>
      simp only [step, hs] at h ⊢
      rcases storage.onDisk_cases (c.prog z storage) fs s.buf s.disk with
        ⟨db, isOpen, hread, hrun⟩ | ⟨-, hrun⟩
      · -- the program failed, so what is written back is what was read
        simp only [hrun] at h ⊢
        have hdb := (StorageCall.obeys z storage c).exec_error h
        rw [hdb, Disk.write_read hread]
      · rw [hrun]

/-- A client without a storage gets nothing done by a call. -/
theorem step_call_closed (h : s.storage = none) (c : StorageCall) (fs : List (Option String)) :
    s.step z (.call c, fs) = (.error (.other "no storage"), s) := by
  simp only [step, h]

/-! ## Whole runs -/

/-- What every call keeps of the tables, an action keeps, whatever fails in it. -/
theorem step_tables {P : Tables → Prop}
    (hspec : ∀ (T : Tables) (c : StorageCall) (ro : Bool), P T → P (c.spec z ro T).2)
    (h : ∃ T, P T ∧ s.Has T) (a : Action × List (Option String)) :
    ∃ T, P T ∧ (s.step z a).2.Has T := by
  obtain ⟨T, hT, hs⟩ := h
  obtain ⟨a, fs⟩ := a
  cases a with
  | reopen config name =>
      rcases step_reopen hs config name fs with ⟨e, -, -, hc⟩ | ⟨-, ho⟩
      · exact ⟨T, hT, Or.inr hc⟩
      · exact ⟨T, hT, Or.inl ⟨_, ho⟩⟩
  | call c =>
      rcases hs with ⟨storage, hs⟩ | hs
      · rcases step_call hs c fs with ⟨e, -, -, hs'⟩ | ⟨-, hs'⟩
        · exact ⟨T, hT, Or.inl ⟨storage, hs'⟩⟩
        · exact ⟨_, hspec T c _ hT, Or.inl ⟨storage, hs'⟩⟩
      · rw [step_call_closed hs.1]
        exact ⟨T, hT, Or.inr hs⟩

/-- What holds of empty tables and is kept by every call holds of the tables at the end of every
session. -/
theorem run_tables {P : Tables → Prop} (hempty : P .empty)
    (hspec : ∀ (T : Tables) (c : StorageCall) (ro : Bool), P T → P (c.spec z ro T).2)
    {disk : Disk} {path : PathBuf} (hd : disk.Fresh path) (buf : Bytes)
    (steps : List (Action × List (Option String))) :
    ∃ T, P T ∧ (Runs.run (step z) (start disk path buf) steps).2.Has T :=
  Runs.run_inv (fun s : Session => ∃ T, P T ∧ s.Has T) (fun _ a _ h => step_tables hspec h a)
    ⟨.empty, hempty, Or.inr (start_closed hd)⟩

/-- The invariant of a session: the tables are consistent. -/
def Inv (z : ZExt) (s : Session) : Prop := ∃ T : Tables, T.Consistent z ∧ s.Has T

theorem step_inv (h : s.Inv z) (a : Action × List (Option String)) :
    (s.step z a).2.Inv z :=
  step_tables (fun _ c ro hT => hT.spec c ro) h a

theorem start_inv (z : ZExt) {disk : Disk} {path : PathBuf} (hd : disk.Fresh path) (buf : Bytes) :
    (start disk path buf).Inv z :=
  ⟨.empty, Tables.consistent_empty, Or.inr (start_closed hd)⟩

/-- Every session keeps the invariant. -/
theorem run_inv (z : ZExt) {disk : Disk} {path : PathBuf} (hd : disk.Fresh path) (buf : Bytes)
    (steps : List (Action × List (Option String))) :
    (Runs.run (step z) (start disk path buf) steps).2.Inv z :=
  run_tables Tables.consistent_empty (fun _ c ro hT => hT.spec c ro) hd buf steps

/-- A client with a storage has the database open, with consistent tables. -/
theorem Inv.serves (h : s.Inv z) (hstorage : s.storage = some storage) :
    ∃ T : Tables, T.Consistent z ∧ s.Serves storage T := by
  obtain ⟨T, hT, ⟨storage', hs⟩ | hs⟩ := h
  · obtain rfl : storage = storage' := Option.some.inj (hstorage.symm.trans hs.storage_eq)
    exact ⟨T, hT, hs⟩
  · rw [hs.1] at hstorage
    cases hstorage

/-- No action reports a serialization error. -/
theorem step_not_serialization (h : s.Inv z) (a : Action × List (Option String))
    (e : RedbBackendError) (he : (s.step z a).1 = .error e) : e.isSerialization = false := by
  obtain ⟨T, hT, hs⟩ := h
  obtain ⟨a, fs⟩ := a
  cases a with
  | reopen config name =>
      rcases step_reopen hs config name fs with ⟨e', he', hser, -⟩ | ⟨hok, -⟩
      · rw [he] at he'
        cases he'
        exact hser
      · rw [he] at hok
        cases hok
  | call c =>
      rcases hs with ⟨storage, hs⟩ | hs
      · rcases step_call hs c fs with ⟨e', he', hredb, -⟩ | ⟨hr, -⟩
        · rw [he] at he'
          cases he'
          exact RedbBackendError.not_serialization_of_isRedb hredb
        · rw [he] at hr
          rw [hT.spec_error hr.symm]
          rfl
      · rw [step_call_closed hs.1] at he
        cases he
        rfl

/-- What the reads of a client return, whatever fails in them, while the tables are `T`. -/
structure Reads (z : ZExt) (s : Session) (T : Tables) : Prop where
  /-- A successful `get` found the key in both tables, with a record that decodes and is not a
  tombstone, or in neither. -/
  get : ∀ key fs v, (s.step z (.call (.get key), fs)).1 = .ok (.value v) →
    (T.payloads[Str.asBytes key]? = none ∧ T.dataInfo[Str.asBytes key]? = none ∧ v = none) ∨
    ∃ payload info encoding timestamp, T.payloads[Str.asBytes key]? = some payload ∧
      T.dataInfo[Str.asBytes key]? = some info ∧
      decodeDataInfo z info = .ok (encoding, timestamp, false) ∧
      v = some ⟨payload, timestamp, encoding⟩
  /-- A successful `get_all` skipped no record of the metadata table. -/
  getAll : ∀ fs l, (s.step z (.call .getAll, fs)).1 = .ok (.entries l) →
    ∀ k ∈ T.dataInfo, ∃ e ∈ l, Str.asBytes e.1 = k
  /-- A successful `count` is the length of what a successful `get_all` returns. -/
  count : ∀ fs fs' n l, (s.step z (.call .count, fs)).1 = .ok (.number n) →
    (s.step z (.call .getAll, fs')).1 = .ok (.entries l) → n = l.length
  /-- Where nothing fails, both succeed. -/
  succeed : ∃ l, (s.step z (.call .getAll, [])).1 = .ok (.entries l) ∧
    (s.step z (.call .count, [])).1 = .ok (.number l.length)

/-- A call that succeeds returns what `StorageCall.spec` says, whatever was to fail. -/
theorem Serves.spec_of_ok (hs : s.Serves storage T) {c : StorageCall} {fs : List (Option String)}
    {r : Reply} (h : (s.step z (.call c, fs)).1 = .ok r) :
    (c.spec z storage.config.readOnly T).1 = .ok r := by
  rcases step_call hs c fs with ⟨e, he, -, -⟩ | ⟨hr, -⟩
  · rw [h] at he
    cases he
  · rw [← hr, h]

/-- What `get_all` returns where it succeeds. -/
theorem Serves.entries_of_getAll (hs : s.Serves storage T) (hT : T.Consistent z)
    {fs : List (Option String)} {l : List (String × StoredValue)}
    (h : (s.step z (.call .getAll, fs)).1 = .ok (.entries l)) : T.entries z = l := by
  have hspec := hs.spec_of_ok h
  simp only [StorageCall.spec, hT.scan, Except.map, List.filter_true] at hspec
  cases hspec
  rfl

/-- What `count` returns where it succeeds. -/
theorem Serves.length_of_count (hs : s.Serves storage T) (hT : T.Consistent z)
    {fs : List (Option String)} {n : Nat}
    (h : (s.step z (.call .count, fs)).1 = .ok (.number n)) : (T.entries z).length = n := by
  have hspec := hs.spec_of_ok h
  simp only [StorageCall.spec, hT.count, Except.map] at hspec
  cases hspec
  exact hT.length_entries

theorem Serves.reads (hs : s.Serves storage T) (hT : T.Consistent z) : s.Reads z T := by
  constructor
  case get =>
    intro key fs v h
    have hspec := hs.spec_of_ok h
    rcases hT.lookup (Str.asBytes key) with ⟨hp, hi⟩ | ⟨payload, info, enc, ts, hp, hi, hd⟩
    · left
      simp only [StorageCall.spec, Tables.get, hp, hi, RedbStorage.getMatch, Except.map] at hspec
      cases hspec
      exact ⟨hp, hi, rfl⟩
    · right
      simp only [StorageCall.spec, Tables.get, hp, hi, RedbStorage.getMatch, hd,
        Except.map] at hspec
      cases hspec
      exact ⟨payload, info, enc, ts, hp, hi, hd, rfl⟩
  case getAll =>
    intro fs l h k hk
    obtain ⟨key, rfl⟩ := hT.utf8 k hk
    obtain ⟨v, hv⟩ := Option.isSome_iff_exists.mp ((hT.entry_isSome key).mpr hk)
    rw [← hs.entries_of_getAll hT h]
    exact ⟨(key, v), (Tables.mem_entries key v).mpr hv, rfl⟩
  case count =>
    intro fs fs' n l hn hl
    rw [← hs.entries_of_getAll hT hl, hs.length_of_count hT hn]
  case succeed =>
    refine ⟨T.entries z, ?_, ?_⟩
    · rw [(step_call_ok hs .getAll).1]
      simp only [StorageCall.spec, hT.scan, Except.map, List.filter_true]
    · rw [(step_call_ok hs .count).1]
      simp only [StorageCall.spec, hT.count, Except.map, hT.length_entries]

/-- **Runs with faults.** Start from a fresh database and let any call to redb fail in any
action. No action of the run reports a serialization error. At its end, a call that returns
an error leaves the disk as it is, and an open database has two tables with the same keys,
all of them UTF-8, and with metadata records that decode and are not tombstones; its reads
never see one table without the other. -/
theorem run_with_faults (z : ZExt) {disk : Disk} {path : PathBuf} (hd : disk.Fresh path)
    (buf : Bytes) (steps : List (Action × List (Option String))) :
    (∀ e, .error e ∈ (Runs.run (step z) (start disk path buf) steps).1 →
      e.isSerialization = false) ∧
    ∀ s, s = (Runs.run (step z) (start disk path buf) steps).2 →
      (∀ c fs e, (s.step z (.call c, fs)).1 = .error e →
        (s.step z (.call c, fs)).2.disk = s.disk) ∧
      ∀ storage, s.storage = some storage → ∃ T : Tables,
        s.disk.read s.path = some (.database T.db true) ∧
        (∀ k, k ∈ T.payloads ↔ k ∈ T.dataInfo) ∧
        (∀ k ∈ T.dataInfo, ∃ key, Str.asBytes key = k) ∧
        (∀ k info : Bytes, T.dataInfo[k]? = some info →
          ∃ encoding timestamp, decodeDataInfo z info = .ok (encoding, timestamp, false)) ∧
        s.Reads z T := by
  have hresults : ∀ r ∈ (Runs.run (step z) (start disk path buf) steps).1,
      ∀ e, r = .error e → e.isSerialization = false :=
    Runs.run_results (Inv z) (fun r => ∀ e, r = .error e → e.isSerialization = false)
      (fun s a _ h => ⟨step_not_serialization h a, step_inv h a⟩) (start_inv z hd buf)
  refine ⟨fun e he => hresults _ he e rfl, ?_⟩
  rintro s rfl
  refine ⟨fun c fs e he => step_call_error he, ?_⟩
  intro storage hstorage
  obtain ⟨T, hT, hs⟩ := (run_inv z hd buf steps).serves hstorage
  exact ⟨T, hs.read_eq, hT.sameKeys, hT.utf8, hT.live, hs.reads hT⟩

/-- A put whose commit fails is undone: the next `get_all` finds nothing. -/
theorem run_with_faults_commit :
    let steps : List (Action × List (Option String)) :=
      [(.reopen .new "s", []),
        (.call (.put "k" ⟨[1], .first, ⟨0, none⟩⟩),
          [none, none, none, none, none, some "disk full"]),
        (.call .getAll, [])]
    let results := (Runs.run (step .layout) (start .blank (.ofString "s.redb") []) steps).1
    results = [.ok .done, .error (.commitError (.storage "disk full")), .ok (.entries [])] ∧
      ∀ e, .error e ∈ results → e.isSerialization = false :=
  ⟨by rfl, (run_with_faults .layout (Or.inl ⟨rfl, rfl⟩) [] _).1⟩

end Session

end ZenohRedb
