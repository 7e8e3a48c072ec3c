import ZenohRedb.Lib.Exclusive
import ZenohRedb.Plugin.Clients
import ZenohRedb.Plugin.Volume

set_option autoImplicit false

/-! # A volume and its storages

Zenoh asks a volume for storages, calls their methods and drops them, in any order (`act`). A
storage keeps its database open while it is alive, and methods on one storage take turns
(`Plugin/Clients.lean` lets them overlap), so a method is one step here.

What a volume is for: every file is a map from optional keys to values. The maps are changed by
the methods that succeed and by nothing else (`run_methods`). The volume gives a storage for a
file that no other storage has (`run_create`), so no two storages share a map, and a storage that
was dropped can be had again with its entries.

A run starts without open databases, on files that hold maps (`Disk.HoldsMaps`). As in
`Backend/System.lean`, a failing commit is assumed to leave the old contents, also on the disk.
-/

namespace ZenohRedb

open TxStore

/-- A storage that is alive, under the number its owner has for it. -/
structure VolumeStorage where
  id : Nat
  plugin : RedbStoragePlugin

/-- A volume on a disk, with the storages that are alive. -/
structure VolumeState where
  volume : RedbVolume
  disk : Disk
  storages : List VolumeStorage
  nextId : Nat

/-- What Zenoh does. -/
inductive VolumeAction (K : ZKeyExpr)
  | create (config : StorageConfig) (faults : List (Option String))
  /-- Call a method of a storage, on a thread whose key buffer holds `buf`. -/
  | call (id : Nat) (c : PluginCall K) (buf : Bytes) (faults : List (Option String))
  | drop (id : Nat)

/-- What it gets. -/
inductive VolumeResult (K : ZKeyExpr)
  | created (r : Except ZError Nat)
  | reply (storage : VolumeStorage) (file : PathBuf) (c : PluginCall K)
      (r : Except ZError (PluginReply K))
  | nothing

namespace VolumeState

/-- A volume without storages. -/
def new (volume : RedbVolume) (disk : Disk) : VolumeState := ⟨volume, disk, [], 0⟩

/-- The file of a storage. -/
def fileOf (s : VolumeState) (storage : VolumeStorage) : PathBuf :=
  s.disk.resolve storage.plugin.storage.db

/-- The storage under a number. -/
def storage? (s : VolumeState) (id : Nat) : Option VolumeStorage :=
  s.storages.find? (·.id = id)

/-- Create a storage. -/
def create (s : VolumeState) (config : StorageConfig) (faults : List (Option String)) :
    Except ZError Nat × VolumeState :=
  match s.volume.createStorage s.disk faults config with
  | (.error e, disk) => (.error e, { s with disk })
  | (.ok plugin, disk) =>
      (.ok s.nextId, { s with
        disk
        storages := ⟨s.nextId, plugin⟩ :: s.storages
        nextId := s.nextId + 1 })

/-- Call a method. -/
def call {K : ZKeyExpr} (z : ZExt) (s : VolumeState) (id : Nat) (c : PluginCall K) (buf : Bytes)
    (faults : List (Option String)) : VolumeResult K × VolumeState :=
  match s.storage? id with
  | none => (.nothing, s)
  | some storage =>
      match storage.plugin.onDisk (c.prog z storage.plugin) faults buf s.disk with
      | (r, _, disk) => (.reply storage (s.fileOf storage) c r, { s with disk })

/-- Drop a storage, which closes its database. -/
def drop (s : VolumeState) (id : Nat) : VolumeState :=
  match s.storage? id with
  | none => s
  | some storage =>
      { s with
        disk := storage.plugin.storage.drop s.disk
        storages := s.storages.filter (·.id ≠ id) }

def act {K : ZKeyExpr} (z : ZExt) (s : VolumeState) :
    VolumeAction K → VolumeResult K × VolumeState
  | .create config faults => ((.created (s.create config faults).1), (s.create config faults).2)
  | .call id c buf faults => s.call z id c buf faults
  | .drop id => (.nothing, s.drop id)

end VolumeState

/-! ## The maps of the files -/

/-- A map from optional keys for every file, by the file a path resolves to. -/
abbrev KeyMaps (K : ZKeyExpr) := PathBuf → PluginMap K

/-- A method that succeeded, done to the map of its file. Keys are as the storage tells them
apart. -/
def KeyMaps.apply {K : ZKeyExpr} (maps : KeyMaps K) : VolumeResult K → KeyMaps K
  | .reply _ file c (.ok _) => Function.update maps file ((maps file).call c.collapse)
  | _ => maps

/-- The methods of a run that succeeded, done to the maps in their order. -/
def KeyMaps.replay {K : ZKeyExpr} (maps : KeyMaps K) (results : List (VolumeResult K)) :
    KeyMaps K :=
  results.foldl KeyMaps.apply maps

/-- The files of the disk hold these maps. -/
def Disk.HoldsMaps {K : ZKeyExpr} (z : ZExt) (d : Disk) (maps : KeyMaps K) : Prop :=
  ∃ M : FileMaps, d.Keeps z M ∧ ∀ file, Encodes (M file) (maps file)

/-! ## On a disk -/

section OnDisk

variable {z : ZExt} {K : ZKeyExpr} {d : Disk} {maps : KeyMaps K}

theorem Disk.holdsMaps_blank : Disk.blank.HoldsMaps (K := K) z fun _ _ => none :=
  ⟨fun _ => ∅, keeps_blank, fun _ => .empty⟩

theorem Disk.HoldsMaps.close (h : d.HoldsMaps z maps) (path : PathBuf) :
    (d.close path).HoldsMaps z maps := by
  obtain ⟨M, hM, henc⟩ := h
  exact ⟨M, hM.close path, henc⟩

/-- Running a method on the database its storage has open. -/
theorem RedbStoragePlugin.onDisk_eq {α : Type} (self : RedbStoragePlugin) (x : PluginM α)
    (fs : List (Option String)) (buf : Bytes) {db : Db} {isOpen : Bool}
    (h : d.read self.storage.db = some (.database db isOpen)) :
    self.onDisk x fs buf d = ((x.exec fs buf db).1, (x.exec fs buf db).2.1,
      d.write self.storage.db (.database (x.exec fs buf db).2.2 isOpen)) := by
  unfold RedbStoragePlugin.onDisk
  rw [h]

/-- **A method of a storage that has its file open.** It ends in an error of redb and nothing
changes, which does not happen without faults; or it returns what the map of the file says, and
changes that map only. -/
theorem Disk.HoldsMaps.call (h : d.HoldsMaps z maps) (self : RedbStoragePlugin)
    (hself : self.storageConfig = self.storage.config)
    (hlock : d.resolve self.storage.db ∈ d.locked) (c : PluginCall K) (fs : List (Option String))
    (buf : Bytes) :
    (fs ≠ [] ∧ ∃ e, (self.onDisk (c.prog z self) fs buf d).1 = .error (c.error e) ∧
      e.isRedb = true ∧ (self.onDisk (c.prog z self) fs buf d).2.2 = d) ∨
    ((maps (d.resolve self.storage.db)).Returns self.storageConfig.readOnly c.collapse
        (self.onDisk (c.prog z self) fs buf d).1 ∧
      (self.onDisk (c.prog z self) fs buf d).2.2.HoldsMaps z
        (Function.update maps (d.resolve self.storage.db)
          ((maps (d.resolve self.storage.db)).act self.storageConfig.readOnly c.collapse))) := by
  obtain ⟨M, hM, henc⟩ := h
  obtain ⟨e, he, ho⟩ := hlock
  have hshows := hM (d.resolve self.storage.db)
  rw [he] at hshows
  cases e with
  | other => cases ho
  | database db isOpen =>
      obtain rfl : isOpen = true := ho
      obtain ⟨T, rfl, hT⟩ := hshows.of_open
      have hread : d.read self.storage.db = some (.database T.db true) := he
      have hholds : T.HoldsMap z (maps (d.resolve self.storage.db)) := ⟨_, hT, henc _⟩
      rw [self.onDisk_eq _ fs buf hread]
      rcases hholds.exec_faults hself c fs buf with
        ⟨hfs, e, he, hredb, hdb⟩ | ⟨hr, T', hdb, M', hT', henc'⟩
      · left
        rw [hdb, Disk.write_read hread]
        exact ⟨hfs, e, he, hredb, rfl⟩
      · right
        rw [hdb]
        refine ⟨hr, _, hM.write (.tables true hT'), fun file => ?_⟩
        by_cases hfile : file = d.resolve self.storage.db
        · subst hfile
          rw [Function.update_self, Function.update_self]
          exact henc'
        · rw [Function.update_of_ne hfile, Function.update_of_ne hfile]
          exact henc file

/-- A method leaves the locks, what paths resolve to, and all other files. -/
theorem RedbStoragePlugin.onDisk_frame {α : Type} (self : RedbStoragePlugin) (x : PluginM α)
    (fs : List (Option String)) (buf : Bytes) (d : Disk) :
    (self.onDisk x fs buf d).2.2.resolve = d.resolve ∧
      (self.onDisk x fs buf d).2.2.locked = d.locked ∧
      ∀ file ≠ d.resolve self.storage.db,
        (self.onDisk x fs buf d).2.2.files file = d.files file := by
  cases hread : d.read self.storage.db with
  | none =>
      unfold onDisk
      rw [hread]
      exact ⟨rfl, rfl, fun _ _ => rfl⟩
  | some e =>
      cases e with
      | other =>
          unfold onDisk
          rw [hread]
          exact ⟨rfl, rfl, fun _ _ => rfl⟩
      | database db isOpen =>
          rw [self.onDisk_eq x fs buf hread]
          exact ⟨rfl, Disk.locked_rewrite hread rfl, fun file hfile =>
            Function.update_of_ne hfile _ _⟩

/-- **Creating a storage** for a configuration that is accepted takes the lock of its file, which
nobody has, and finds the map of the file; or it fails, and the maps and the locks are as they
were. -/
theorem Disk.HoldsMaps.createStorage_cases (h : d.HoldsMaps z maps) (volume : RedbVolume)
    (fs : List (Option String)) (config : StorageConfig) :
    (∃ e d', volume.createStorage d fs config = (.error e, d') ∧ d'.HoldsMaps z maps ∧
      d'.resolve = d.resolve ∧ d'.locked = d.locked) ∨
    ∃ path c d', volume.storageConfig config.volumeCfg = .ok (path, c) ∧
      d.resolve path ∉ d.locked ∧
      volume.createStorage d fs config = (.ok ⟨⟨path, c, config.name⟩, c⟩, d') ∧
      d'.HoldsMaps z maps ∧ d'.resolve = d.resolve ∧
      d'.locked = insert (d.resolve path) d.locked := by
  obtain ⟨M, hM, henc⟩ := h
  unfold RedbVolume.createStorage
  cases hconfig : volume.storageConfig config.volumeCfg with
  | error e => exact Or.inl ⟨e, d, rfl, ⟨M, hM, henc⟩, rfl, rfl⟩
  | ok accepted =>
      obtain ⟨path, c⟩ := accepted
      rcases hM.new_cases fs path c config.name with ⟨e, d', hnew, hkeeps⟩ | ⟨T, hT, hfree, hnew⟩
      · left
        have hres : d'.resolve = d.resolve := by
          rcases RedbStorage.new_locks d fs path c config.name with
            ⟨e', d'', hnew', hres, -⟩ | ⟨d'', hnew', -⟩
          · rw [hnew, Prod.mk.injEq] at hnew'
            rw [hnew'.2, hres]
          · rw [hnew] at hnew'
            cases (Prod.mk.inj hnew').1
        simp only [hnew]
        exact ⟨_, d', rfl, ⟨M, hkeeps, henc⟩, hres, Disk.locked_new_error hnew⟩
      · right
        simp only [hnew]
        refine ⟨path, c, _, rfl, hfree, rfl, ⟨M, hM.rewrite (.tables true hT), henc⟩, rfl, ?_⟩
        rw [Disk.locked_write]
        rfl

/-- It succeeds exactly if the configuration is accepted and the database can be opened. -/
theorem RedbVolume.createStorage_ok_iff (volume : RedbVolume) (fs : List (Option String))
    (config : StorageConfig) : (∃ plugin, (volume.createStorage d fs config).1 = .ok plugin) ↔
      ∃ path c, volume.storageConfig config.volumeCfg = .ok (path, c) ∧
        ∃ storage, (RedbStorage.new d fs path c config.name).1 = .ok storage := by
  unfold RedbVolume.createStorage
  cases volume.storageConfig config.volumeCfg with
  | error e => simp
  | ok accepted =>
      obtain ⟨path, c⟩ := accepted
      rcases hnew : RedbStorage.new d fs path c config.name with ⟨r, d'⟩
      cases r with
      | ok storage =>
          refine iff_of_true ?_ ⟨path, c, rfl, storage, by rw [hnew]⟩
          simp only [hnew]
          exact ⟨_, rfl⟩
      | error e =>
          refine iff_of_false ?_ ?_
          · rintro ⟨plugin, hplugin⟩
            simp only [hnew] at hplugin
            cases hplugin
          · rintro ⟨path', c', heq, storage, hstorage⟩
            obtain ⟨rfl, rfl⟩ := Prod.mk.inj (Except.ok.inj heq)
            rw [hnew] at hstorage
            cases hstorage

end OnDisk

/-! ## One step -/

namespace VolumeState

variable {z : ZExt} {K : ZKeyExpr} {s : VolumeState} {maps : KeyMaps K}

/-- The storages that are alive have their files locked, each its own, and no other file is
locked; their numbers are their own; and the files hold the maps. -/
structure Sound (z : ZExt) (s : VolumeState) (maps : KeyMaps K) : Prop where
  exclusive : Exclusive s.fileOf s.disk.locked {storage | storage ∈ s.storages}
  accounted : Accounted s.fileOf s.disk.locked {storage | storage ∈ s.storages}
  older : ∀ storage ∈ s.storages, storage.id < s.nextId
  ids : Set.InjOn VolumeStorage.id {storage | storage ∈ s.storages}
  config : ∀ storage ∈ s.storages, storage.plugin.storageConfig = storage.plugin.storage.config
  maps : s.disk.HoldsMaps z maps

theorem sound_new (volume : RedbVolume) {disk : Disk} (h : disk.HoldsMaps z maps)
    (hlocked : disk.locked = ∅) : (new volume disk).Sound z maps where
  exclusive := by
    have hnone : {storage | storage ∈ (new volume disk).storages} = ∅ :=
      Set.eq_empty_of_forall_notMem fun _ => List.not_mem_nil
    rw [hnone]
    exact .empty
  accounted := by
    unfold Accounted
    show disk.locked ⊆ _
    rw [hlocked]
    exact Set.empty_subset _
  older _ h := by cases h
  ids _ h := by cases h
  config _ h := by cases h
  maps := h

theorem mem_of_storage? {id : Nat} {storage : VolumeStorage} (h : s.storage? id = some storage) :
    storage ∈ s.storages ∧ storage.id = id := by
  unfold storage? at h
  exact ⟨List.mem_of_find?_eq_some h, by simpa using List.find?_some h⟩

theorem fileOf_eq {s' : VolumeState} (h : s'.disk.resolve = s.disk.resolve) :
    s'.fileOf = s.fileOf := by
  funext storage
  unfold fileOf
  rw [h]

/-- A disk with the same locks on which paths resolve to the same files. -/
theorem Sound.of_disk (h : s.Sound z maps) {disk : Disk} {maps' : KeyMaps K}
    (hres : disk.resolve = s.disk.resolve) (hlocked : disk.locked = s.disk.locked)
    (hmaps : disk.HoldsMaps z maps') : { s with disk }.Sound z maps' where
  exclusive := by
    rw [fileOf_eq (s := s) hres, hlocked]
    exact h.exclusive
  accounted := by
    unfold Accounted
    rw [fileOf_eq (s := s) hres, hlocked]
    exact h.accounted
  older := h.older
  ids := h.ids
  config := h.config
  maps := hmaps

theorem Sound.create (h : s.Sound z maps) (config : StorageConfig) (fs : List (Option String)) :
    (s.create config fs).2.Sound z maps := by
  unfold VolumeState.create
  rcases h.maps.createStorage_cases s.volume fs config with
    ⟨e, disk, hnew, hmaps, hres, hlocked⟩ | ⟨path, c, disk, -, hfree, hnew, hmaps, hres, hlocked⟩
  · rw [hnew]
    exact h.of_disk hres hlocked hmaps
  · rw [hnew]
    let storage : VolumeStorage := ⟨s.nextId, ⟨path, c, config.name⟩, c⟩
    have hlive : {x | x ∈ storage :: s.storages} = insert storage {x | x ∈ s.storages} :=
      Set.ext fun _ => List.mem_cons
    have hids : ∀ x ∈ storage :: s.storages, x.id < s.nextId + 1 := by
      rw [List.forall_mem_cons]
      exact ⟨Nat.lt_succ_self _, fun x hx => Nat.lt_succ_of_lt (h.older x hx)⟩
    constructor
    case exclusive =>
      show Exclusive (fileOf { s with disk }) disk.locked {x | x ∈ storage :: s.storages}
      rw [fileOf_eq (s := s) hres, hlocked, hlive]
      exact h.exclusive.acquire (x := storage) hfree
    case accounted =>
      show Accounted (fileOf { s with disk }) disk.locked {x | x ∈ storage :: s.storages}
      rw [fileOf_eq (s := s) hres, hlocked, hlive]
      exact h.accounted.acquire (x := storage)
    case older => exact hids
    case ids =>
      show Set.InjOn VolumeStorage.id {x | x ∈ storage :: s.storages}
      have hnew : storage ∉ {x | x ∈ s.storages} := fun hmem => lt_irrefl _ (h.older _ hmem)
      rw [hlive, Set.injOn_insert hnew]
      refine ⟨h.ids, ?_⟩
      rintro ⟨x, hx, heq⟩
      exact absurd (h.older x hx) (not_lt_of_ge heq.ge)
    case config => exact List.forall_mem_cons.mpr ⟨rfl, h.config⟩
    case maps => exact hmaps

theorem create_fst (s : VolumeState) (config : StorageConfig) (fs : List (Option String)) :
    (s.create config fs).1
      = (s.volume.createStorage s.disk fs config).1.map fun _ => s.nextId := by
  unfold VolumeState.create
  rcases s.volume.createStorage s.disk fs config with ⟨r, disk⟩
  cases r <;> rfl

/-- Where the storage of the plugin can be created, it is found under the next number. -/
theorem Sound.create_ok (h : s.Sound z maps) {config : StorageConfig} {fs : List (Option String)}
    {plugin : RedbStoragePlugin}
    (hplugin : (s.volume.createStorage s.disk fs config).1 = .ok plugin) :
    ∃ storage, (s.create config fs).1 = .ok s.nextId ∧
      (s.create config fs).2.disk.resolve = s.disk.resolve ∧
      (s.create config fs).2.storage? s.nextId = some storage := by
  refine ⟨⟨s.nextId, plugin⟩, by rw [create_fst, hplugin]; rfl, ?_⟩
  unfold VolumeState.create
  rcases h.maps.createStorage_cases s.volume fs config with
    ⟨e, disk, hnew, -⟩ | ⟨path, c, disk, -, -, hnew, -, hres, -⟩
  · rw [hnew] at hplugin
    cases hplugin
  · rw [hnew] at hplugin ⊢
    obtain rfl := Except.ok.inj hplugin
    exact ⟨hres, List.find?_cons_of_pos (decide_eq_true rfl)⟩

theorem Sound.drop (h : s.Sound z maps) (id : Nat) : (s.drop id).Sound z maps := by
  unfold VolumeState.drop
  cases hfound : s.storage? id with
  | none => exact h
  | some storage =>
      obtain ⟨hmem, rfl⟩ := mem_of_storage? hfound
      let disk := storage.plugin.storage.drop s.disk
      have hres : disk.resolve = s.disk.resolve := Disk.resolve_close
      have hlocked : disk.locked = s.disk.locked \ {s.fileOf storage} := Disk.locked_close
      have hrest : ∀ x ∈ s.storages.filter (·.id ≠ storage.id), x ∈ s.storages ∧ x ≠ storage := by
        intro x hx
        obtain ⟨hx, hne⟩ := List.mem_filter.mp hx
        refine ⟨hx, ?_⟩
        rintro rfl
        exact of_decide_eq_true hne rfl
      -- only the storage itself has its number
      have hall : {x | x ∈ s.storages}
          ⊆ insert storage {x | x ∈ s.storages.filter (·.id ≠ storage.id)} := by
        intro x hx
        by_cases hid : x.id = storage.id
        · exact Or.inl (h.ids hx hmem hid)
        · exact Or.inr (List.mem_filter.mpr ⟨hx, decide_eq_true hid⟩)
      have hexclusive := h.exclusive.subset (fun x hx => (hrest x hx).1)
      constructor
      case exclusive =>
        show Exclusive (fileOf { s with disk }) disk.locked _
        rw [fileOf_eq (s := s) hres, hlocked]
        exact hexclusive.unlock (h.exclusive.notMem_image hmem (fun x hx => (hrest x hx).1)
          fun hx => (hrest storage hx).2 rfl)
      case accounted =>
        unfold Accounted
        show disk.locked ⊆ fileOf { s with disk } '' _
        rw [fileOf_eq (s := s) hres, hlocked]
        exact (h.accounted.mono hall).unlock
      case older => exact fun x hx => h.older x (hrest x hx).1
      case ids => exact h.ids.mono fun x hx => (hrest x hx).1
      case config => exact fun x hx => h.config x (hrest x hx).1
      case maps => exact h.maps.close _

/-- What a method of a storage that is alive does: in an error of redb nothing changes, and
otherwise it does what the interface says to the map of the file. -/
theorem Sound.call (h : s.Sound z maps) {id : Nat} {storage : VolumeStorage}
    (halive : s.storage? id = some storage) (c : PluginCall K) (buf : Bytes)
    (fs : List (Option String)) :
    ∃ r disk, s.call z id c buf fs = (.reply storage (s.fileOf storage) c r, { s with disk }) ∧
      (∀ file ≠ s.fileOf storage, disk.files file = s.disk.files file) ∧
      disk.resolve = s.disk.resolve ∧ disk.locked = s.disk.locked ∧
      ((fs ≠ [] ∧ ∃ e, r = .error (c.error e) ∧ e.isRedb = true ∧ disk = s.disk) ∨
        ((maps (s.fileOf storage)).Returns storage.plugin.storageConfig.readOnly c.collapse r ∧
          disk.HoldsMaps z (Function.update maps (s.fileOf storage)
            ((maps (s.fileOf storage)).act storage.plugin.storageConfig.readOnly
              c.collapse)))) := by
  obtain ⟨hmem, -⟩ := mem_of_storage? halive
  have hcall :=
    h.maps.call storage.plugin (h.config storage hmem) (h.exclusive.locked hmem) c fs buf
  obtain ⟨hres, hlocked, hframe⟩ :=
    storage.plugin.onDisk_frame (c.prog z storage.plugin) fs buf s.disk
  refine ⟨_, _, ?_, hframe, hres, hlocked, hcall⟩
  unfold VolumeState.call
  rw [halive]

/-- The maps after a method are those its result says. -/
theorem update_act {storage : VolumeStorage} {file : PathBuf} {c : PluginCall K} {ro : Bool}
    {r : Except ZError (PluginReply K)} (h : (maps file).Returns ro c.collapse r) :
    Function.update maps file ((maps file).act ro c.collapse)
      = maps.apply (.reply storage file c r) := by
  unfold PluginMap.Returns at h
  unfold PluginMap.act
  by_cases hrefused : (c.collapse.isWrite && ro) = true
  · rw [if_pos hrefused] at h ⊢
    rw [h]
    exact Function.update_eq_self file maps
  · rw [if_neg hrefused] at h ⊢
    obtain ⟨a, rfl, -⟩ := h
    rfl

theorem Sound.act (h : s.Sound z maps) (a : VolumeAction K) :
    (s.act z a).2.Sound z (maps.apply (s.act z a).1) := by
  cases a with
  | create config fs => exact h.create config fs
  | drop id => exact h.drop id
  | call id c buf fs =>
      simp only [VolumeState.act]
      cases halive : s.storage? id with
      | none =>
          unfold VolumeState.call
          rw [halive]
          exact h
      | some storage =>
          obtain ⟨r, disk, hrun, -, hres, hlocked, herr | ⟨hr, hmaps⟩⟩ := h.call halive c buf fs
          · obtain ⟨-, e, rfl, -, rfl⟩ := herr
            rw [hrun]
            exact h
          · rw [hrun]
            refine h.of_disk hres hlocked ?_
            rw [← update_act hr]
            exact hmaps

/-! ## Whole runs -/

variable (z) (volume : RedbVolume) {disk : Disk} {actions : List (VolumeAction K)}
  {results : List (VolumeResult K)}

/-- In every state of a run the files hold the maps that the methods so far have made. -/
theorem run_sound (hdisk : disk.HoldsMaps z maps) (hlocked : disk.locked = ∅)
    (hrun : Runs.run (VolumeState.act z) (new volume disk) actions = (results, s)) :
    s.Sound z (maps.replay results) := by
  have hfold := Runs.run_fold (VolumeState.act z) KeyMaps.apply (fun maps s => s.Sound z maps)
    (fun maps s a (_ : a ∈ actions) h => h.act a) (sound_new volume hdisk hlocked)
  rw [hrun] at hfold
  exact hfold

/-- A configuration with a directory. -/
def ofDir (dir : String) : StorageConfig := ⟨"s", .object [(PROP_STORAGE_DIR, .string dir)]⟩

/-- **Every file can be had by one storage.** In every state of every run as in `run_methods`, a
storage can be created without faults exactly if its configuration is accepted, no storage that
is alive has the file it selects, and the file is a database, or empty, or can be created. The new
storage finds what the methods so far have made of the file, also if its storages were dropped in
the meantime. -/
theorem run_create (hdisk : disk.HoldsMaps z maps) (hlocked : disk.locked = ∅)
    (hrun : Runs.run (VolumeState.act z) (new volume disk) actions = (results, s))
    (config : StorageConfig) :
    (∃ id storage, (s.create config []).1 = .ok id ∧
      (s.create config []).2.storage? id = some storage ∧
      ∀ c buf, ∃ r, ((s.create config []).2.act z (.call id c buf [])).1
          = .reply storage (s.fileOf storage) c r ∧
        (maps.replay results (s.fileOf storage)).Returns
          storage.plugin.storageConfig.readOnly c.collapse r) ↔
      ∃ path c, s.volume.storageConfig config.volumeCfg = .ok (path, c) ∧
        (∀ storage ∈ s.storages, s.fileOf storage ≠ s.disk.resolve path) ∧
        s.disk.read path ≠ some .other ∧
        (s.disk.read path = none → s.disk.creatable (s.disk.resolve path) = true) := by
  have hsound := run_sound z volume hdisk hlocked hrun
  -- a file that nobody has is a file that is not locked
  have hfree : ∀ path, s.disk.resolve path ∉ s.disk.locked ↔
      ∀ storage ∈ s.storages, s.fileOf storage ≠ s.disk.resolve path := by
    intro path
    rw [hsound.accounted.locked_eq hsound.exclusive]
    simp only [Set.mem_image, Set.mem_ofPred_eq, not_exists, not_and, ne_eq]
  obtain ⟨M, hM, -⟩ := hsound.maps
  constructor
  · rintro ⟨id, storage, hok, -⟩
    rw [create_fst] at hok
    obtain ⟨plugin, hplugin, -⟩ := map_eq_ok.mp hok
    obtain ⟨path, c, hconfig, hnew⟩ :=
      (s.volume.createStorage_ok_iff [] config).mp ⟨plugin, hplugin⟩
    obtain ⟨hunlocked, hdb⟩ := (hM.new_ok_iff path c config.name).mp hnew
    exact ⟨path, c, hconfig, (hfree path).mp hunlocked, hdb⟩
  · rintro ⟨path, c, hconfig, hunused, hdb⟩
    have hnew := (hM.new_ok_iff path c config.name).mpr ⟨(hfree path).mpr hunused, hdb⟩
    obtain ⟨plugin, hplugin⟩ :=
      (s.volume.createStorage_ok_iff [] config).mpr ⟨path, c, hconfig, hnew⟩
    obtain ⟨storage, hcreate, hres, hfound⟩ := hsound.create_ok hplugin
    refine ⟨s.nextId, storage, hcreate, hfound, fun c buf => ?_⟩
    obtain ⟨r, disk', hcall, -, -, -, hr⟩ := (hsound.create config []).call hfound c buf []
    rw [fileOf_eq hres] at hcall hr
    refine ⟨r, ?_, ?_⟩
    · simp only [VolumeState.act, hcall]
    · rcases hr with ⟨hne, -⟩ | ⟨hr, -⟩
      · exact absurd rfl hne
      · exact hr

/-- A storage that was dropped is created again and has its entry. -/
theorem run_create_again :
    let s : VolumeState := (Runs.run (VolumeState.act (K := .plain) .layout) (new ⟨{}⟩ .blank)
      [.create (ofDir "a") [], .call 0 (.put none [1] ⟨0, none⟩ .first) [] [], .drop 0]).2
    ∃ storage file c d, (s.create (ofDir "a") []).2.storage? 1 = some storage ∧
      ((s.create (ofDir "a") []).2.act (K := .plain) .layout (.call 1 (.get none "") [] [])).1
        = .reply storage file c (.ok (.data [d])) ∧ d.payload = [1] := by
  intro s
  obtain ⟨path, c, hconfig, hpath⟩ : ∃ path c,
      s.volume.storageConfig (ofDir "a").volumeCfg = .ok (path, c) ∧
        path = .ofString "./zenoh_redb_backend/a.redb" := ⟨_, _, by rfl, by rfl⟩
  have hnone : s.storages = [] := by rfl
  obtain ⟨db, hread⟩ : ∃ db, s.disk.read (.ofString "./zenoh_redb_backend/a.redb")
      = some (.database db false) := ⟨_, by rfl⟩
  obtain ⟨id, storage, hok, hfound, hcall⟩ := (run_create .layout ⟨{}⟩
    (Disk.holdsMaps_blank (K := .plain)) Disk.locked_blank rfl (ofDir "a")).mpr
      ⟨path, c, hconfig, by rw [hnone]; exact fun _ h => absurd h List.not_mem_nil,
        by rw [hpath, hread]; exact nofun, by rw [hpath, hread]; exact nofun⟩
  have hid : (s.create (ofDir "a") []).1 = .ok 1 := by rfl
  obtain rfl : 1 = id := Except.ok.inj (hid.symm.trans hok)
  have hfile : ((s.create (ofDir "a") []).2.storage? 1).map s.fileOf
      = some (.ofString "./zenoh_redb_backend/a.redb") := by rfl
  obtain ⟨r, hact, hr⟩ := hcall (.get none "") []
  rw [hfound] at hfile
  rw [Option.some.inj hfile] at hr
  -- the map of the file has what was put
  obtain ⟨a, rfl, d, rfl, hpayload, -⟩ := hr
  exact ⟨storage, _, _, d, hfound, hact, hpayload⟩

end VolumeState

end ZenohRedb
