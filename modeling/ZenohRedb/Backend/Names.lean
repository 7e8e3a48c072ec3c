import ZenohRedb.Backend.System
import ZenohRedb.Plugin.DbPath

set_option autoImplicit false

/-! # Storages that are created by name only

A configuration without a path and a file name puts the database of a storage in
`<name>.redb` under the base directory. Names without a slash name different files then, so the
storages of a backend that creates all of them in this way do not get into each other's way:
`create_storage` finds a database open only if a storage of the same name is still alive
(`run_byName`).
-/

namespace ZenohRedb

open TxStore

/-- The configuration has no path and no file name. -/
def RedbStorageConfig.ByName (c : RedbStorageConfig) : Prop := c.dbPath = none ∧ c.dbFile = none

/-- A step that opens storages by name only, under names without a slash. -/
def SystemAction.ByName (backendConfig : RedbBackendConfig) : SystemAction → Prop
  | .backend (.openStorage name config _) => '/' ∉ name.toList ∧
      (config.getD backendConfig.defaultStorageConfig).ByName
  | a => a.Ours

theorem SystemAction.ByName.ours {backendConfig : RedbBackendConfig} {a : SystemAction}
    (h : a.ByName backendConfig) : a.Ours := by
  cases a with
  | call id c buf fs => trivial
  | backend a =>
      cases a with
      | openStorage name config fs => trivial
      | _ => exact h

theorem RedbStorageConfig.ByName.path {c : RedbStorageConfig} (h : c.ByName) (name : String)
    (backendConfig : RedbBackendConfig) :
    c.effectiveDbPath name backendConfig = redbPath backendConfig.baseDir name := by
  unfold RedbStorageConfig.effectiveDbPath
  rw [h.1, h.2]
  rfl

namespace Backend

variable {z : ZExt} {b : Backend}

/-- The storages that are alive have the files of their names. -/
structure Places (backendConfig : RedbBackendConfig) (resolve : PathBuf → PathBuf) (b : Backend) :
    Prop where
  config : b.config = backendConfig
  resolve : b.disk.resolve = resolve
  path : ∀ arc ∈ b.live, '/' ∉ arc.storage.name.toList ∧
    arc.storage.db = redbPath backendConfig.baseDir arc.storage.name

theorem places_new (backendConfig : RedbBackendConfig) (disk : Disk) :
    (new backendConfig disk).Places backendConfig disk.resolve where
  config := rfl
  resolve := rfl
  path _ h := absurd h (notMem_live_new backendConfig disk)

theorem Places.act {backendConfig : RedbBackendConfig} {resolve : PathBuf → PathBuf}
    (h : b.Places backendConfig resolve) {a : SystemAction} (ha : a.ByName backendConfig) :
    (b.act z a).2.Places backendConfig resolve := by
  cases a with
  | backend a =>
      have hours : a.Ours := ha.ours
      obtain ⟨hres, hconfig⟩ := frame_step b a
      refine ⟨hconfig.trans h.config, hres.trans h.resolve, fun arc harc => ?_⟩
      rcases mem_live_step harc with hold | ⟨name, config, fs, rfl, hstorage⟩
      · exact h.path arc hold
      · -- the storage that has just been opened
        obtain ⟨hname, hbyName⟩ := ha
        rw [hstorage]
        unfold createPath
        rw [h.config]
        exact ⟨hname, hbyName.path name backendConfig⟩
  | call id c buf fs =>
      simp only [Backend.act, callStorage]
      cases b.held.find? (·.id = id) with
      | none => exact h
      | some arc =>
          have hframe := Disk.onDisk_frame arc.storage (c.prog z arc.storage) fs buf b.disk
          exact ⟨h.config, hframe.1.trans h.resolve, h.path⟩

/-- Without faults a database that cannot be opened because it is open is locked. -/
theorem locked_of_alreadyOpen {d : Disk} {path : PathBuf} {config : RedbStorageConfig}
    {name : String} (h : (RedbStorage.new d [] path config name).1
      = .error (.databaseError .databaseAlreadyOpen)) : d.resolve path ∈ d.locked := by
  have hinit : ∀ db : Db, ∃ db', initTables.exec [] [] db = (.ok (), [], db') := by
    intro db
    refine ⟨Store.ensure (Store.ensure db PAYLOADS_TABLE) DATA_INFO_TABLE, ?_⟩
    simp only [StorageM.exec_eq, initTables, eval_bind, eval_beginWrite, eval_openTable_write,
      eval_commit]
  unfold RedbStorage.new Disk.createDatabase at h
  simp only [List.head?_nil, Option.join_none, List.tail_nil] at h
  cases hread : d.read path with
  | none =>
      simp only [hread] at h
      by_cases hc : d.creatable (d.resolve path) = true
      · obtain ⟨db', hdb'⟩ := hinit Db.empty
        simp only [hc, if_true, hdb'] at h
        cases h
      · simp only [hc] at h
        cases h
  | some e =>
      cases e with
      | other =>
          simp only [hread] at h
          cases h
      | database db isOpen =>
          cases isOpen with
          | true => exact (Disk.resolve_mem_locked hread).mpr rfl
          | false =>
              obtain ⟨db', hdb'⟩ := hinit db
              simp only [hread, hdb'] at h
              cases h

/-- **Names do not collide.** Let storages be created by name only, and let two names be two
files. Then in every state of every run `create_storage` finds its database open exactly if a
clone of a storage of the same name is alive. -/
theorem run_byName (z : ZExt) (backendConfig : RedbBackendConfig) {disk : Disk}
    (hlocked : disk.locked = ∅) (hinj : Set.InjOn disk.resolve
      {path | ∃ name : String, '/' ∉ name.toList ∧ path = redbPath backendConfig.baseDir name})
    {actions : List SystemAction} (ha : ∀ a ∈ actions, a.ByName backendConfig)
    {results : List SystemResult}
    (hrun : Runs.run (act z) (new backendConfig disk) actions = (results, b)) {name : String}
    (hname : '/' ∉ name.toList) {config : Option RedbStorageConfig}
    (hconfig : (config.getD backendConfig.defaultStorageConfig).ByName) :
    (b.createStorage name config []).1 = .error (.databaseError .databaseAlreadyOpen) ↔
      ∃ arc ∈ b.live, arc.storage.name = name := by
  have hkept : ∀ b : Backend, ∀ a ∈ actions, b.Places backendConfig disk.resolve →
      (b.act z a).2.Places backendConfig disk.resolve := fun b a hmem h => h.act (ha a hmem)
  have hplaces := Runs.run_inv (Places backendConfig disk.resolve) hkept
    (places_new backendConfig disk)
  rw [hrun] at hplaces
  have hpath : b.createPath name config = redbPath backendConfig.baseDir name := by
    unfold createPath
    rw [hplaces.config]
    exact hconfig.path name backendConfig
  -- the file is locked exactly if a storage of the name is alive
  have hiff : b.disk.resolve (b.createPath name config) ∈ b.disk.locked ↔
      ∃ arc ∈ b.live, arc.storage.name = name := by
    rw [locked_of_run z backendConfig hlocked (fun a h => (ha a h).ours) hrun]
    constructor
    · rintro ⟨arc, harc, hfile⟩
      obtain ⟨hslash, hdb⟩ := hplaces.path arc harc
      refine ⟨arc, harc, ?_⟩
      unfold fileOf at hfile
      rw [hplaces.resolve, hdb, hpath] at hfile
      have hsame := hinj ⟨_, hslash, rfl⟩ ⟨name, hname, rfl⟩ hfile
      exact (redbPath_inj hslash hname).mp hsame
    · rintro ⟨arc, harc, rfl⟩
      refine ⟨arc, harc, ?_⟩
      unfold fileOf
      rw [(hplaces.path arc harc).2, hpath]
  rw [← hiff]
  constructor
  · intro herr
    rw [createStorage_fst] at herr
    cases hnew : (RedbStorage.new b.disk [] (b.createPath name config)
        (config.getD b.config.defaultStorageConfig) name).1 with
    | ok storage =>
        rw [hnew] at herr
        cases herr
    | error e =>
        rw [hnew] at herr
        refine locked_of_alreadyOpen (hnew.trans ?_)
        rw [Except.error.inj herr]
  · intro h
    obtain ⟨e, hcreate, he⟩ := createStorage_of_locked h []
    rw [hcreate, he rfl]

/-- A storage that only the registry has keeps its name, and no other. -/
theorem run_byName_default :
    let b := (Runs.run (act .layout) (new {} .blank)
      [.backend (.openStorage "s" none []), .backend (.insertStorage 0),
        .backend (.dropStorage 0)]).2
    (b.createStorage "s" none []).1 = .error (.databaseError .databaseAlreadyOpen) ∧
      (b.createStorage "t" none []).1 ≠ .error (.databaseError .databaseAlreadyOpen) := by
  intro b
  have hslash : ∀ name ∈ ["s", "t"], '/' ∉ name.toList := by decide
  have hbyName : ∀ a ∈ [SystemAction.backend (.openStorage "s" none []),
      .backend (.insertStorage 0), .backend (.dropStorage 0)], a.ByName {} := by
    simp [SystemAction.ByName, SystemAction.Ours, BackendAction.Ours, RedbStorageConfig.ByName]
  have hnames : ∀ name, (∃ arc ∈ b.live, arc.storage.name = name) ↔ name ∈ ["s"] := by
    have hlive : b.live.map (·.storage.name) = ["s"] := by rfl
    intro name
    rw [← hlive, List.mem_map]
  have hiff : ∀ name ∈ ["s", "t"], (b.createStorage name none []).1
        = .error (.databaseError .databaseAlreadyOpen) ↔ ∃ arc ∈ b.live, arc.storage.name = name :=
    fun name hname => run_byName .layout {} Disk.locked_blank (Set.injOn_id _) hbyName (by rfl)
      (hslash name hname) ⟨rfl, rfl⟩
  rw [ne_eq, hiff "s" (by simp), hiff "t" (by simp), hnames, hnames]
  decide

end Backend

end ZenohRedb
