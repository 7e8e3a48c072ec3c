import ZenohRedb.Storage.Refinement

set_option autoImplicit false

/-! # The files of a disk as maps

Every file of a disk stands for a map (`FileMaps`): a database with the two tables for the map
they represent, one without tables, a file that is none and a missing one for the empty map
(`FileEntry.Shows`, `Disk.Keeps`). A database with other tables stands for none. Storages
come and go over such a disk. Opening a database and closing it keep all maps, whatever fails
(`Keeps.new_cases`, `Keeps.close`), and a call of a storage does to the map of its own file what
`EntryMap.answer` says, or nothing (`Keeps.call`).
-/

namespace ZenohRedb

open TxStore

/-- The entries of every file, by the file a path resolves to. -/
abbrev FileMaps := PathBuf → EntryMap

/-- What a call does to the map of a storage, and what it returns: a read-only storage refuses
the calls that write. -/
def EntryMap.answer (m : EntryMap) (readOnly : Bool) (c : StorageCall) :
    Except RedbBackendError Reply × EntryMap :=
  if c.isWrite && readOnly then (.error readOnlyError, m)
  else (.ok (m.call c).1, (m.call c).2)

/-- On tables that represent a map, a call does what it does to the map. -/
theorem Tables.Represents.answer {z : ZExt} {T : Tables} {m : EntryMap} (h : T.Represents z m)
    (ro : Bool) (c : StorageCall) :
    (c.spec z ro T).1.map Reply.canon = (m.answer ro c).1.map Reply.canon ∧
      (c.spec z ro T).2.Represents z (m.answer ro c).2 := by
  unfold EntryMap.answer
  cases ro with
  | false =>
      rw [Bool.and_false, if_neg Bool.false_ne_true]
      exact h.spec c
  | true =>
      by_cases hw : c.isWrite = true
      · -- refused, and nothing happens on either side
        rw [hw, Bool.and_self, if_pos rfl, c.spec_write_readOnly hw, c.spec_readOnly]
        exact ⟨rfl, h⟩
      · have hread : c.isWrite = false := Bool.eq_false_iff.mpr hw
        have hspec := h.spec c
        rw [StorageCall.spec_read hread] at hspec
        rw [hread, Bool.false_and, if_neg Bool.false_ne_true,
          StorageCall.spec_read_result hread z true false, c.spec_readOnly]
        exact hspec

/-- A call on opened tables: an error of redb and the tables as they were, which does not happen
without faults, or what `StorageCall.spec` says. -/
theorem StorageCall.exec_tables_cases (z : ZExt) (self : RedbStorage) (c : StorageCall)
    (fs : List (Option String)) (buf : Bytes) (T : Tables) :
    (fs ≠ [] ∧ ∃ e, ((c.prog z self).exec fs buf T.db).1 = .error e ∧
      e.isRedb = true ∧ ((c.prog z self).exec fs buf T.db).2.2 = T.db) ∨
    (((c.prog z self).exec fs buf T.db).1 = (c.spec z self.config.readOnly T).1 ∧
      ((c.prog z self).exec fs buf T.db).2.2 = (c.spec z self.config.readOnly T).2.db) := by
  by_cases hfs : fs = []
  · subst hfs
    exact Or.inr (StorageCall.exec_tables z self c buf T)
  · exact (StorageCall.exec_tables_faults z self c fs buf T).imp_left fun h => ⟨hfs, h⟩

/-! ## What a file stands for -/

/-- The map a file stands for. A database that is open has its tables. -/
inductive FileEntry.Shows (z : ZExt) : Option FileEntry → EntryMap → Prop
  | absent : Shows z none ∅
  | other : Shows z (some .other) ∅
  | fresh : Shows z (some (.database Db.empty false)) ∅
  | tables {T : Tables} {m : EntryMap} (isOpen : Bool) (h : T.Represents z m) :
      Shows z (some (.database T.db isOpen)) m

namespace FileEntry.Shows

variable {z : ZExt} {m : EntryMap} {db : Db}

/-- Closing a database keeps its map. -/
theorem close {isOpen : Bool} (h : Shows z (some (.database db isOpen)) m) :
    Shows z (some (.database db false)) m := by
  cases h with
  | fresh => exact fresh
  | tables _ hT => exact tables false hT

/-- A database that is open has its tables. -/
theorem of_open (h : Shows z (some (.database db true)) m) :
    ∃ T : Tables, db = T.db ∧ T.Represents z m := by
  cases h with
  | tables _ hT => exact ⟨_, rfl, hT⟩

/-- Creating the tables that do not exist keeps the map, whatever fails: with an error the
database is as it was, and without one it has its tables. -/
theorem initTables (h : Shows z (some (.database db false)) m) (fs : List (Option String)) :
    (∃ e buf, initTables.exec fs [] db = (.error e, buf, db)) ∨
    ∃ (T : Tables) (buf : Bytes), T.Represents z m ∧
      initTables.exec fs [] db = (.ok (), buf, T.db) := by
  rcases initTables_obeys.exec_faults fs [] db with ⟨e, he, -, hdb⟩ | hsame
  · exact Or.inl ⟨e, _, Prod.ext he (Prod.ext rfl hdb)⟩
  · right
    rw [hsame]
    cases h with
    | fresh => exact ⟨.empty, [], Tables.represents_empty, initTables_exec_empty []⟩
    | @tables T _ _ hT => exact ⟨T, [], hT, initTables_exec [] T⟩

end FileEntry.Shows

/-- The files of the disk stand for these maps. -/
def Disk.Keeps (z : ZExt) (d : Disk) (maps : FileMaps) : Prop :=
  ∀ file, FileEntry.Shows z (d.files file) (maps file)

namespace Disk

variable {z : ZExt} {d : Disk} {maps : FileMaps} {path : PathBuf}

theorem keeps_blank : Disk.blank.Keeps z fun _ => ∅ := fun _ => .absent

theorem locked_blank : Disk.blank.locked = ∅ := by
  refine Set.eq_empty_of_forall_notMem ?_
  rintro file ⟨e, he, -⟩
  cases he

theorem Keeps.write (h : d.Keeps z maps) {e : FileEntry} {m : EntryMap}
    (he : FileEntry.Shows z (some e) m) :
    (d.write path e).Keeps z (Function.update maps (d.resolve path) m) := by
  intro file
  show FileEntry.Shows z (Function.update d.files (d.resolve path) (some e) file) _
  by_cases hfile : file = d.resolve path
  · subst hfile
    rw [Function.update_self, Function.update_self]
    exact he
  · rw [Function.update_of_ne hfile, Function.update_of_ne hfile]
    exact h file

/-- Writing a file that stands for the same map. -/
theorem Keeps.rewrite (h : d.Keeps z maps) {e : FileEntry}
    (he : FileEntry.Shows z (some e) (maps (d.resolve path))) : (d.write path e).Keeps z maps := by
  have hwrite : (d.write path e).Keeps z (Function.update maps (d.resolve path) _) := h.write he
  rwa [Function.update_eq_self] at hwrite

/-- Writing a file that is as open as it was leaves the locks. -/
theorem locked_rewrite {e e' : FileEntry} (h : d.read path = some e)
    (ho : e'.isOpen = e.isOpen) : (d.write path e').locked = d.locked := by
  have hmem := resolve_mem_locked h
  rw [locked_write, ho]
  by_cases hopen : e.isOpen = true
  · rw [if_pos hopen]
    exact Set.insert_eq_of_mem (hmem.mpr hopen)
  · rw [if_neg hopen]
    exact Set.sdiff_singleton_eq_self (mt hmem.mp hopen)

/-- Writing a file that is not open, as one that is not open. -/
theorem locked_write_closed {e : FileEntry} (h : d.resolve path ∉ d.locked)
    (he : e.isOpen = false) : (d.write path e).locked = d.locked := by
  rw [locked_write, he, if_neg Bool.false_ne_true]
  exact Set.sdiff_singleton_eq_self h

/-! ## Opening and closing -/

/-- Opening a storage that fails leaves the locks. -/
theorem locked_new_error {d' : Disk} {fs : List (Option String)} {config : RedbStorageConfig}
    {name : String} {e : RedbBackendError}
    (h : RedbStorage.new d fs path config name = (.error e, d')) : d'.locked = d.locked := by
  unfold RedbStorage.new at h
  rcases d.createDatabase_cases path fs.head?.join with ⟨e', he⟩ | ⟨db, hdb, hfree⟩
  · rw [he] at h
    rw [← (Prod.mk.inj h).2]
  · simp only [hdb] at h
    split at h
    · -- the lock has been taken and is given back
      rw [← (Prod.mk.inj h).2, Disk.write_write]
      exact locked_write_closed hfree rfl
    · cases (Prod.mk.inj h).1

theorem Keeps.close (h : d.Keeps z maps) (path : PathBuf) : (d.close path).Keeps z maps := by
  have hshows := h (d.resolve path)
  unfold Disk.close
  split
  · next db isOpen hread =>
      rw [show d.files (d.resolve path) = _ from hread] at hshows
      exact h.rewrite hshows.close
  · exact h

/-- Opening a database that nobody has open finds one that stands for the map of its file. -/
theorem Keeps.createDatabase_cases (h : d.Keeps z maps) (path : PathBuf) (fault : Option String) :
    (∃ e, d.createDatabase path fault = (.error e, d)) ∨
    ∃ db, d.createDatabase path fault = (.ok db, d.write path (.database db true)) ∧
      d.resolve path ∉ d.locked ∧
      FileEntry.Shows z (some (.database db false)) (maps (d.resolve path)) := by
  rcases Disk.createDatabase_cases d path fault with herr | ⟨db, hdb, hfree⟩
  · exact Or.inl herr
  · refine Or.inr ⟨db, hdb, hfree, ?_⟩
    have hshows := h (d.resolve path)
    unfold Disk.createDatabase at hdb
    cases fault with
    | some msg => cases hdb
    | none =>
        cases hread : d.read path with
        | none =>
            -- the file is created, with a database without tables
            simp only [hread] at hdb
            split at hdb
            · cases hdb
              rw [show d.files (d.resolve path) = none from hread] at hshows
              generalize maps (d.resolve path) = m at hshows
              cases hshows
              exact .fresh
            · cases hdb
        | some e =>
            rw [show d.files (d.resolve path) = some e from hread] at hshows
            simp only [hread] at hdb
            cases e with
            | other => cases hdb
            | database db' isOpen =>
                cases isOpen with
                | true => cases hdb
                | false =>
                    cases hdb
                    exact hshows

/-- **Opening a storage** takes the lock of its file, which nobody has, and finds the map of the
file in the tables; or it fails, with the maps as they were. -/
theorem Keeps.new_cases (h : d.Keeps z maps) (fs : List (Option String)) (path : PathBuf)
    (config : RedbStorageConfig) (name : String) :
    (∃ e d', RedbStorage.new d fs path config name = (.error e, d') ∧ d'.Keeps z maps) ∨
    ∃ T : Tables, T.Represents z (maps (d.resolve path)) ∧ d.resolve path ∉ d.locked ∧
      RedbStorage.new d fs path config name
        = (.ok ⟨path, config, name⟩, d.write path (.database T.db true)) := by
  unfold RedbStorage.new
  rcases h.createDatabase_cases path fs.head?.join with ⟨e, he⟩ | ⟨db, hdb, hfree, hshows⟩
  · left
    rw [he]
    exact ⟨_, d, rfl, h⟩
  · simp only [hdb]
    rcases hshows.initTables fs.tail with ⟨e, buf, hinit⟩ | ⟨T, buf, hT, hinit⟩
    · -- the handle is dropped again
      left
      rw [hinit]
      refine ⟨e, _, rfl, ?_⟩
      simp only [Disk.write_write]
      exact h.rewrite hshows
    · right
      rw [hinit]
      refine ⟨T, hT, hfree, ?_⟩
      simp only [Disk.write_write]

theorem Keeps.new (h : d.Keeps z maps) (fs : List (Option String)) (path : PathBuf)
    (config : RedbStorageConfig) (name : String) :
    (RedbStorage.new d fs path config name).2.Keeps z maps := by
  rcases h.new_cases fs path config name with ⟨e, d', hnew, hkeeps⟩ | ⟨T, hT, -, hnew⟩
  · rw [hnew]
    exact hkeeps
  · rw [hnew]
    exact h.rewrite (.tables true hT)

/-- **When opening succeeds.** Without faults a storage can be opened exactly if nobody has its
file open and the file holds a database or can be created. -/
theorem Keeps.new_ok_iff (h : d.Keeps z maps) (path : PathBuf) (config : RedbStorageConfig)
    (name : String) :
    (∃ storage, (RedbStorage.new d [] path config name).1 = .ok storage) ↔
      d.resolve path ∉ d.locked ∧ d.read path ≠ some .other ∧
        (d.read path = none → d.creatable (d.resolve path) = true) := by
  constructor
  · rintro ⟨storage, hok⟩
    rcases h.new_cases [] path config name with ⟨e, d', hnew, -⟩ | ⟨T, -, hfree, hnew⟩
    · rw [hnew] at hok
      cases hok
    · refine ⟨hfree, ?_, ?_⟩
      · intro hother
        unfold RedbStorage.new Disk.createDatabase at hok
        simp only [List.head?_nil, Option.join_none, hother] at hok
        cases hok
      · intro hnone
        unfold RedbStorage.new Disk.createDatabase at hok
        simp only [List.head?_nil, Option.join_none, hnone] at hok
        by_cases hc : d.creatable (d.resolve path) = true
        · exact hc
        · rw [if_neg hc] at hok
          cases hok
  · rintro ⟨hfree, hother, hcreatable⟩
    have hshows := h (d.resolve path)
    cases hread : d.read path with
    | none =>
        rw [new_fresh config name (Or.inl ⟨hread, hcreatable hread⟩)]
        exact ⟨_, rfl⟩
    | some e =>
        have hclosed := (resolve_mem_locked hread).not.mp hfree
        rw [show d.files (d.resolve path) = some e from hread] at hshows
        generalize maps (d.resolve path) = m at hshows
        cases hshows with
        | other => exact absurd hread hother
        | fresh =>
            rw [new_fresh config name (Or.inr hread)]
            exact ⟨_, rfl⟩
        | tables isOpen hT =>
            -- it is not open, since nobody has the lock
            obtain rfl : isOpen = false := Bool.eq_false_iff.mpr hclosed
            rw [new_existing config name hread]
            exact ⟨_, rfl⟩

/-! ## Calls -/

/-- **A call of a storage** that has its file open. It ends in an error of redb and nothing
changes, which does not happen without faults; or it returns what the map of the file says, and
changes that map only. -/
theorem Keeps.call (h : d.Keeps z maps) (self : RedbStorage)
    (hlock : d.resolve self.db ∈ d.locked) (c : StorageCall) (fs : List (Option String))
    (buf : Bytes) :
    (fs ≠ [] ∧ ∃ e, (self.onDisk (c.prog z self) fs buf d).1 = .error e ∧
      e.isRedb = true ∧ (self.onDisk (c.prog z self) fs buf d).2.2 = d) ∨
    ((self.onDisk (c.prog z self) fs buf d).1.map Reply.canon
        = ((maps (d.resolve self.db)).answer self.config.readOnly c).1.map Reply.canon ∧
      (self.onDisk (c.prog z self) fs buf d).2.2.Keeps z (Function.update maps (d.resolve self.db)
        ((maps (d.resolve self.db)).answer self.config.readOnly c).2)) := by
  obtain ⟨e, he, ho⟩ := hlock
  have hshows := h (d.resolve self.db)
  rw [he] at hshows
  cases e with
  | other => cases ho
  | database db isOpen =>
      obtain rfl : isOpen = true := ho
      obtain ⟨T, rfl, hT⟩ := hshows.of_open
      have hread : d.read self.db = some (.database T.db true) := he
      rw [self.onDisk_eq _ fs buf hread]
      have hanswer := hT.answer self.config.readOnly c
      rcases StorageCall.exec_tables_cases z self c fs buf T with
        ⟨hfs, e, he, hredb, hdb⟩ | ⟨hr, hdb⟩
      · left
        rw [hdb, write_read hread]
        exact ⟨hfs, e, he, hredb, rfl⟩
      · right
        rw [hr, hdb]
        exact ⟨hanswer.1, h.write (.tables true hanswer.2)⟩

/-- A call leaves the locks, what paths resolve to, and all other files. -/
theorem onDisk_frame {α : Type} (self : RedbStorage) (x : StorageM α) (fs : List (Option String))
    (buf : Bytes) (d : Disk) :
    (self.onDisk x fs buf d).2.2.resolve = d.resolve ∧
      (self.onDisk x fs buf d).2.2.locked = d.locked ∧
      ∀ file ≠ d.resolve self.db, (self.onDisk x fs buf d).2.2.files file = d.files file := by
  rcases self.onDisk_cases x fs buf d with ⟨db, isOpen, hread, hrun⟩ | ⟨-, hrun⟩
  · rw [hrun]
    exact ⟨rfl, locked_rewrite hread rfl, fun file hfile => Function.update_of_ne hfile _ _⟩
  · rw [hrun]
    exact ⟨rfl, rfl, fun _ _ => rfl⟩

end Disk

end ZenohRedb
