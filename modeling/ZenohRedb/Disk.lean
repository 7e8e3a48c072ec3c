import ZenohRedb.Storage.Tables

set_option autoImplicit false

/-! # Files, database handles and `RedbStorage::new`

A disk maps files to what they hold. A path names a file after the operating system has
resolved it, so two paths may name one file. A redb database remembers whether a handle of
it is open: `Database::create` creates a missing file, opens a database nobody has open and
refuses one that is open. `RedbStorage::new` opens the database and creates the two tables
that do not exist yet; it does not look at the configuration.

redb is a package outside this repository. Besides what `Lib/Store.lean` lists, for a database
and for its file on the disk, this is assumed of it:

* `Database::create` makes a database without tables of a missing file, where the operating
  system lets it create one, and of an empty file;
* it opens a database that no handle is open on, with the contents committed last, and refuses
  with `DatabaseAlreadyOpen` while one is; the lock goes with the last handle;
* it refuses every other file;
* it fails where the operating system does, and then no handle is open.

A database whose tables have other types than those of the source is not modelled: opening one of
them would be refused.
-/

namespace ZenohRedb

open TxStore

/-- What a file holds: a redb database with its contents and whether a handle of it is open,
or something redb refuses to open. An empty file, which redb makes a database of, counts as one
without tables. -/
inductive FileEntry
  | database (db : Db) (isOpen : Bool)
  | other

/-- The files of a system: what a path resolves to, where files can be created (their
directory exists and may be written to), and what every file holds. -/
structure Disk where
  resolve : PathBuf → PathBuf
  creatable : PathBuf → Bool
  files : PathBuf → Option FileEntry

namespace Disk

/-- A disk without files, on which every path names itself and can be created. -/
def blank : Disk := ⟨id, fun _ => true, fun _ => none⟩

/-- What the file at `path` holds, if there is one. -/
def read (d : Disk) (path : PathBuf) : Option FileEntry := d.files (d.resolve path)

/-- Replace what the file at `path` holds. -/
def write (d : Disk) (path : PathBuf) (e : FileEntry) : Disk :=
  { d with files := Function.update d.files (d.resolve path) (some e) }

@[simp] theorem read_write (d : Disk) (path : PathBuf) (e : FileEntry) :
    (d.write path e).read path = some e := by
  simp [read, write]

theorem read_write_of_ne {d : Disk} {path path' : PathBuf} {e : FileEntry}
    (h : d.resolve path ≠ d.resolve path') : (d.write path e).read path' = d.read path' := by
  unfold read write
  exact Function.update_of_ne (Ne.symm h) _ _

@[simp] theorem write_write (d : Disk) (path : PathBuf) (e e' : FileEntry) :
    (d.write path e).write path e' = d.write path e' := by
  simp [write]

/-- Writing back what a file holds changes nothing. -/
theorem write_read {d : Disk} {path : PathBuf} {e : FileEntry} (h : d.read path = some e) :
    d.write path e = d := by
  unfold write
  rw [← h]
  unfold read
  rw [Function.update_eq_self]

/-- `Database::create`: the contents of the database and the disk with the handle open. An empty
file is one of those that hold `Db.empty`. The fault, if any, is an error of the operating
system. -/
def createDatabase (d : Disk) (path : PathBuf) (fault : Option String) :
    Except RedbError Db × Disk :=
  match fault with
  | some msg => (.error (.storage msg), d)
  | none =>
      match d.read path with
      | none =>
          if d.creatable (d.resolve path) then
            (.ok Db.empty, d.write path (.database Db.empty true))
          else (.error (.storage "cannot create the file"), d)
      | some (.database db false) => (.ok db, d.write path (.database db true))
      | some (.database _ true) => (.error .databaseAlreadyOpen, d)
      | some .other => (.error (.storage "not a database"), d)

/-- The last handle of the database at `path` is dropped. -/
def close (d : Disk) (path : PathBuf) : Disk :=
  match d.read path with
  | some (.database db _) => d.write path (.database db false)
  | _ => d

end Disk

namespace RedbStorage

/-- `RedbStorage::new`: open the database, create the tables that do not exist, keep the
configuration. The head of `faults` is for opening, the rest for the transaction; when the
transaction fails, the handle is dropped again. -/
def new (d : Disk) (faults : List (Option String)) (path : PathBuf)
    (config : RedbStorageConfig) (name : String) : Except RedbBackendError RedbStorage × Disk :=
  match d.createDatabase path faults.head?.join with
  | (.error e, d) => (.error (.databaseError e), d)
  | (.ok db, d) =>
      match initTables.exec faults.tail [] db with
      -- the file stays, the handle does not
      | (.error e, _, db) => (.error e, d.write path (.database db false))
      | (.ok (), _, db) => (.ok ⟨path, config, name⟩, d.write path (.database db true))

/-- Run an operation of the storage on the database its handle is open on. -/
def onDisk {α : Type} (self : RedbStorage) (x : StorageM α) (faults : List (Option String))
    (buf : Bytes) (d : Disk) : Except RedbBackendError α × Bytes × Disk :=
  match d.read self.db with
  | some (.database db isOpen) =>
      match x.exec faults buf db with
      | (r, buf, db) => (r, buf, d.write self.db (.database db isOpen))
  | _ => (.error (.ioError "the database file is gone"), buf, d)

/-- Drop a storage: its database handle is closed. -/
def drop (self : RedbStorage) (d : Disk) : Disk := d.close self.db

end RedbStorage

/-! ## Opening without faults -/

/-- A database that nobody has used yet: no file where one can be created, or a closed
database without tables. -/
def Disk.Fresh (d : Disk) (path : PathBuf) : Prop :=
  (d.read path = none ∧ d.creatable (d.resolve path) = true) ∨
    d.read path = some (.database Db.empty false)

section New

variable {d : Disk} {path : PathBuf} (config : RedbStorageConfig) (name : String)

theorem new_fresh (h : d.Fresh path) :
    RedbStorage.new d [] path config name
      = (.ok ⟨path, config, name⟩, d.write path (.database Tables.empty.db true)) := by
  unfold RedbStorage.new Disk.createDatabase
  rcases h with ⟨hnone, hc⟩ | hempty
  · simp [hnone, hc, initTables_exec_empty]
  · simp [hempty, initTables_exec_empty]

/-- Opening a closed database that has both tables changes nothing but the lock. -/
theorem new_existing {T : Tables} (h : d.read path = some (.database T.db false)) :
    RedbStorage.new d [] path config name
      = (.ok ⟨path, config, name⟩, d.write path (.database T.db true)) := by
  unfold RedbStorage.new Disk.createDatabase
  simp [h, initTables_exec]

/-- A database that is open elsewhere is refused, and the disk stays as it is. -/
theorem new_locked {db : Db} {fs : List (Option String)} (hfs : fs.head?.join = none)
    (h : d.read path = some (.database db true)) :
    RedbStorage.new d fs path config name
      = (.error (.databaseError .databaseAlreadyOpen), d) := by
  unfold RedbStorage.new Disk.createDatabase
  simp [h, hfs]

end New

/-- Running an operation on the database a storage has open. -/
theorem RedbStorage.onDisk_eq {α : Type} (self : RedbStorage) (x : StorageM α)
    (faults : List (Option String)) (buf : Bytes) {d : Disk} {db : Db} {isOpen : Bool}
    (h : d.read self.db = some (.database db isOpen)) :
    self.onDisk x faults buf d
      = ((x.exec faults buf db).1, (x.exec faults buf db).2.1,
          d.write self.db (.database (x.exec faults buf db).2.2 isOpen)) := by
  unfold RedbStorage.onDisk
  rw [h]

/-- What running an operation on a disk can do: it runs on the database of the storage, or
there is none, and then nothing happens. -/
theorem RedbStorage.onDisk_cases {α : Type} (self : RedbStorage) (x : StorageM α)
    (faults : List (Option String)) (buf : Bytes) (d : Disk) :
    (∃ db isOpen, d.read self.db = some (.database db isOpen) ∧
      self.onDisk x faults buf d
        = ((x.exec faults buf db).1, (x.exec faults buf db).2.1,
            d.write self.db (.database (x.exec faults buf db).2.2 isOpen))) ∨
    ((∀ db isOpen, d.read self.db ≠ some (.database db isOpen)) ∧
      self.onDisk x faults buf d = (.error (.ioError "the database file is gone"), buf, d)) := by
  cases h : d.read self.db with
  | none =>
      refine Or.inr ⟨nofun, ?_⟩
      unfold RedbStorage.onDisk
      rw [h]
  | some entry =>
      cases entry with
      | database db isOpen => exact Or.inl ⟨db, isOpen, rfl, self.onDisk_eq x faults buf h⟩
      | other =>
          refine Or.inr ⟨nofun, ?_⟩
          unfold RedbStorage.onDisk
          rw [h]

/-! ## Locks -/

/-- Whether a file holds a database that is open. -/
def FileEntry.isOpen : FileEntry → Bool
  | .database _ isOpen => isOpen
  | .other => false

namespace Disk

/-- The files that hold an open database. -/
def locked (d : Disk) : Set PathBuf := {file | ∃ e, d.files file = some e ∧ e.isOpen = true}

variable {d : Disk} {path : PathBuf}

theorem resolve_mem_locked {e : FileEntry} (h : d.read path = some e) :
    d.resolve path ∈ d.locked ↔ e.isOpen = true := by
  constructor
  · rintro ⟨e', he', ho⟩
    rw [read, he'] at h
    rwa [← Option.some.inj h]
  · exact fun ho => ⟨e, h, ho⟩

theorem locked_write (e : FileEntry) : (d.write path e).locked
    = if e.isOpen then insert (d.resolve path) d.locked else d.locked \ {d.resolve path} := by
  ext file
  by_cases hfile : file = d.resolve path
  · -- this file is locked when `e` says so, whatever it was
    subst hfile
    cases ho : e.isOpen <;> simp [locked, write, ho]
  · cases e.isOpen <;> simp [locked, write, hfile]

theorem locked_close : (d.close path).locked = d.locked \ {d.resolve path} := by
  -- a file that is not locked is not in the set, so taking it out changes nothing
  have hnot : ∀ e?, d.read path = e? → (∀ e, e? = some e → e.isOpen = false) →
      d.locked = d.locked \ {d.resolve path} := by
    intro e? hread hopen
    refine (Set.sdiff_singleton_eq_self ?_).symm
    rintro ⟨e, he, ho⟩
    rw [hopen e (hread.symm.trans he)] at ho
    cases ho
  unfold close
  cases hread : d.read path with
  | none => exact hnot none hread (by simp)
  | some e =>
      cases e with
      | database db isOpen => exact locked_write _
      | other => exact hnot _ hread (by simp [FileEntry.isOpen])

@[simp] theorem resolve_close : (d.close path).resolve = d.resolve := by
  unfold close
  split <;> rfl

/-- Opening a database takes the lock of its file, which nobody has, or changes nothing. -/
theorem createDatabase_cases (d : Disk) (path : PathBuf) (fault : Option String) :
    (∃ e, d.createDatabase path fault = (.error e, d)) ∨
    ∃ db, d.createDatabase path fault = (.ok db, d.write path (.database db true)) ∧
      d.resolve path ∉ d.locked := by
  unfold createDatabase
  cases fault with
  | some msg => exact Or.inl ⟨_, rfl⟩
  | none =>
      cases hread : d.read path with
      | none =>
          have hfree : d.resolve path ∉ d.locked := by
            rintro ⟨e, he, -⟩
            rw [read, he] at hread
            cases hread
          by_cases hc : d.creatable (d.resolve path) = true
          · exact Or.inr ⟨Db.empty, if_pos hc, hfree⟩
          · exact Or.inl ⟨_, if_neg hc⟩
      | some e =>
          cases e with
          | other => exact Or.inl ⟨_, rfl⟩
          | database db isOpen =>
              cases isOpen with
              | true => exact Or.inl ⟨_, rfl⟩
              | false =>
                  refine Or.inr ⟨db, rfl, ?_⟩
                  rw [resolve_mem_locked hread]
                  exact Bool.false_ne_true

end Disk

/-- Opening a storage takes the lock of its file, which nobody has, or fails and takes no lock
away. -/
theorem RedbStorage.new_locks (d : Disk) (fs : List (Option String)) (path : PathBuf)
    (config : RedbStorageConfig) (name : String) :
    (∃ e d', RedbStorage.new d fs path config name = (.error e, d') ∧ d'.resolve = d.resolve ∧
      d.locked ⊆ d'.locked) ∨
    ∃ d', RedbStorage.new d fs path config name = (.ok ⟨path, config, name⟩, d') ∧
      d'.resolve = d.resolve ∧ d.resolve path ∉ d.locked ∧
      d'.locked = insert (d.resolve path) d.locked := by
  unfold RedbStorage.new
  rcases Disk.createDatabase_cases d path fs.head?.join with ⟨e, he⟩ | ⟨db, hdb, hfree⟩
  · left
    rw [he]
    exact ⟨_, d, rfl, rfl, subset_rfl⟩
  · simp only [hdb]
    rcases initTables.exec fs.tail [] db with ⟨r, buf, db'⟩
    cases r with
    | error e =>
        left
        refine ⟨e, _, rfl, rfl, ?_⟩
        -- the lock is taken and given back
        rw [Disk.write_write, Disk.locked_write]
        exact (Set.sdiff_singleton_eq_self hfree).symm.subset
    | ok u =>
        right
        refine ⟨_, rfl, rfl, hfree, ?_⟩
        rw [Disk.write_write, Disk.locked_write]
        rfl

end ZenohRedb
