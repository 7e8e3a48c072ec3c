import ZenohRedb.Backend.Replace
import ZenohRedb.Storage.Files

set_option autoImplicit false

/-! # No lock is left behind

A database stays locked while a clone of its storage is alive, and no longer. `Accounts b gone`
says that every locked file belongs to a clone that is alive or to one of `gone`, the clones
that are about to be dropped. Every step keeps it (`Accounts.step`): a step that takes clones
out of the backend drops them, and opening a storage that fails gives its lock back.
-/

namespace ZenohRedb

open TxStore

namespace Backend

variable {b b' : Backend} {arc : StorageArc} {gone : List StorageArc} {name : String}

/-- Every locked file is that of a clone in `gone` or of one that is alive. -/
def Accounts (b : Backend) (gone : List StorageArc) : Prop :=
  Accounted b.fileOf b.disk.locked {a | a ∈ gone ∨ a ∈ b.live}

/-- A backend on a disk without locks. -/
theorem accounts_new (config : RedbBackendConfig) {disk : Disk} (h : disk.locked = ∅) :
    (new config disk).Accounts [] := by
  show disk.locked ⊆ _
  rw [h]
  exact Set.empty_subset _

/-- The clones that have gone are to be dropped. -/
theorem Accounts.leave (h : b.Accounts []) (hdisk : b'.disk = b.disk)
    (hlive : ∀ a ∈ b.live, a ∈ gone ∨ a ∈ b'.live) : b'.Accounts gone := by
  unfold Accounts
  rw [fileOf_congr (congrArg Disk.resolve hdisk), hdisk]
  refine h.mono fun a ha => hlive a (ha.resolve_left List.not_mem_nil)

theorem Accounts.dropArc (h : b.Accounts (arc :: gone)) : (b.dropArc arc).Accounts gone := by
  unfold Accounts
  rw [fileOf_dropArc, live_dropArc]
  unfold Backend.dropArc
  by_cases hleft : arc ∈ b.live
  · -- a clone of the storage is left, and keeps the file locked
    rw [if_pos hleft]
    refine h.mono ?_
    rintro a (ha | ha)
    · rcases List.mem_cons.mp ha with rfl | ha
      · exact Or.inr hleft
      · exact Or.inl ha
    · exact Or.inr ha
  · rw [if_neg hleft]
    show Accounted b.fileOf (b.disk.close arc.storage.db).locked _
    rw [Disk.locked_close]
    refine Accounted.unlock (h.mono ?_)
    rintro a (ha | ha)
    · rcases List.mem_cons.mp ha with rfl | ha
      · exact Set.mem_insert _ _
      · exact Set.mem_insert_of_mem _ (Or.inl ha)
    · exact Set.mem_insert_of_mem _ (Or.inr ha)

theorem Accounts.foldl_dropArc (h : b.Accounts gone) :
    (gone.foldl Backend.dropArc b).Accounts [] := by
  induction gone generalizing b with
  | nil => exact h
  | cons arc gone ih => exact ih h.dropArc

/-! ## One step -/

theorem Accounts.openStorage (h : b.Accounts []) (name : String)
    (config : Option RedbStorageConfig) (fs : List (Option String)) :
    (b.openStorage name config fs).2.Accounts [] := by
  unfold Backend.openStorage
  generalize config.getD b.config.defaultStorageConfig = storageConfig
  generalize hpath : storageConfig.effectiveDbPath name b.config = dbPath
  rcases RedbStorage.new_locks b.disk fs dbPath storageConfig name with
    ⟨e, d', hnew, hres, -⟩ | ⟨d', hnew, hres, -, hlocked⟩
  · simp only [hpath, hnew]
    unfold Accounts
    rw [fileOf_congr (b := b) hres]
    show Accounted b.fileOf d'.locked _
    rw [Disk.locked_new_error hnew]
    exact h
  · simp only [hpath, hnew]
    unfold Accounts
    rw [fileOf_congr (b := b) hres]
    show Accounted b.fileOf d'.locked _
    rw [hlocked]
    -- the new lock is that of the storage that has just been opened
    refine (h.acquire (x := (⟨b.nextId, ⟨dbPath, storageConfig, name⟩⟩ : StorageArc))).mono ?_
    rintro a (rfl | ha)
    · exact Or.inr (mem_live.mpr (Or.inr (Or.inl ⟨name, List.mem_cons_self⟩)))
    · right
      rcases mem_live.mp (ha.resolve_left List.not_mem_nil) with hreg | ⟨name', hmem⟩ | hheld
      · exact mem_live.mpr (Or.inl hreg)
      · exact mem_live.mpr (Or.inr (Or.inl ⟨name', List.mem_cons_of_mem _ hmem⟩))
      · exact mem_live.mpr (Or.inr (Or.inr hheld))

/-- Registering an opened storage takes out only the clone it replaces. -/
theorem mem_live_register_or (name : String) (arc : StorageArc) {a : StorageArc}
    (ha : a ∈ b.live) :
    b.storages[name]? = some a ∨ a ∈ (b.register name arc).live := by
  rcases mem_live.mp ha with ⟨name', hreg⟩ | ⟨name', hmem⟩ | hheld
  · by_cases hname : name = name'
    · rw [hname]
      exact Or.inl hreg
    · refine Or.inr (mem_live.mpr (Or.inl ⟨name', ?_⟩))
      rw [register, getElem?_insert_eq_ite, if_neg hname]
      exact hreg
  · right
    by_cases heq : (name', a) = (name, arc)
    · -- one clone of it goes into the map, the other to the caller
      obtain ⟨-, rfl⟩ := Prod.mk.inj heq
      exact mem_live.mpr (Or.inr (Or.inr List.mem_cons_self))
    · exact mem_live.mpr (Or.inr (Or.inl ⟨name', (List.mem_erase_of_ne heq).mpr hmem⟩))
  · exact Or.inr (mem_live.mpr (Or.inr (Or.inr (List.mem_cons_of_mem _ hheld))))

theorem Accounts.insertStorage (h : b.Accounts []) (id : Nat) :
    (b.insertStorage id).2.Accounts [] := by
  unfold Backend.insertStorage
  cases b.opened.find? (·.2.id = id) with
  | none => exact h
  | some found =>
      obtain ⟨name, arc⟩ := found
      cases hold : b.storages[name]? with
      | none =>
          simp only [hold]
          refine h.leave rfl fun a ha => Or.inr ?_
          have hmem := mem_live_register_or name arc ha
          rw [hold] at hmem
          exact hmem.resolve_left nofun
      | some replaced =>
          simp only [hold]
          refine Accounts.dropArc (h.leave rfl fun a ha => ?_)
          have hmem := mem_live_register_or name arc ha
          rw [hold, Option.some.injEq] at hmem
          exact hmem.imp_left fun heq => List.mem_singleton.mpr heq.symm

theorem Accounts.getStorage (h : b.Accounts []) (name : String) :
    (b.getStorage name).2.Accounts [] := by
  unfold Backend.getStorage
  cases b.storages[name]? with
  | none => exact h
  | some arc =>
      refine h.leave rfl fun a ha => Or.inr ?_
      exact mem_live.mpr ((mem_live.mp ha).imp_right fun h =>
        h.imp_right fun hheld => List.mem_cons_of_mem _ hheld)

theorem Accounts.removeStorage (h : b.Accounts []) (name : String) :
    (b.removeStorage name).2.Accounts [] := by
  unfold Backend.removeStorage
  cases hreg : b.storages[name]? with
  | none => exact h
  | some arc =>
      refine Accounts.dropArc (h.leave rfl fun a ha => ?_)
      rcases mem_live.mp ha with ⟨name', hreg'⟩ | hopened | hheld
      · by_cases hname : name = name'
        · rw [← hname, hreg] at hreg'
          exact Or.inl (List.mem_singleton.mpr (Option.some.inj hreg').symm)
        · refine Or.inr (mem_live.mpr (Or.inl ⟨name', ?_⟩))
          show (b.storages.erase name)[name']? = some a
          rw [getElem?_erase_eq_ite, if_neg hname, hreg']
      · exact Or.inr (mem_live.mpr (Or.inr (Or.inl hopened)))
      · exact Or.inr (mem_live.mpr (Or.inr (Or.inr hheld)))

theorem Accounts.close (h : b.Accounts []) : b.close.2.Accounts [] := by
  refine Accounts.foldl_dropArc (h.leave rfl fun a ha => ?_)
  rcases mem_live.mp ha with hreg | hopened | hheld
  · exact Or.inl (mem_registered.mpr hreg)
  · exact Or.inr (mem_live.mpr (Or.inr (Or.inl hopened)))
  · exact Or.inr (mem_live.mpr (Or.inr (Or.inr hheld)))

theorem Accounts.dropStorage (h : b.Accounts []) (id : Nat) :
    (b.dropStorage id).2.Accounts [] := by
  unfold Backend.dropStorage
  cases b.held.find? (·.id = id) with
  | none => exact h
  | some arc =>
      refine Accounts.dropArc (h.leave rfl fun a ha => ?_)
      by_cases heq : a = arc
      · exact Or.inl (List.mem_singleton.mpr heq)
      · right
        rcases mem_live.mp ha with hreg | hopened | hheld
        · exact mem_live.mpr (Or.inl hreg)
        · exact mem_live.mpr (Or.inr (Or.inl hopened))
        · exact mem_live.mpr (Or.inr (Or.inr ((List.mem_erase_of_ne heq).mpr hheld)))

end Backend

/-- A step of the calls of the backend, and nobody else's doing. -/
def BackendAction.Ours : BackendAction → Prop
  | .changeFile _ _ => False
  | _ => True

namespace Backend

variable {b : Backend} {a : BackendAction}

theorem Accounts.step (h : b.Accounts []) (ha : a.Ours) : (b.step a).2.Accounts [] := by
  cases a with
  | openStorage name config faults => exact h.openStorage name config faults
  | insertStorage id => exact h.insertStorage id
  | getStorage name => exact h.getStorage name
  | removeStorage name => exact h.removeStorage name
  | listStorages => exact h
  | storageCount => exact h
  | hasStorage name => exact h
  | close => exact h.close
  | dropStorage id => exact h.dropStorage id
  | changeFile path entry => exact ha.elim

/-! ## What paths resolve to -/

@[simp] theorem resolve_dropArc (b : Backend) (arc : StorageArc) :
    (b.dropArc arc).disk.resolve = b.disk.resolve := by
  unfold dropArc
  split
  · rfl
  · exact Disk.resolve_close

theorem resolve_foldl_dropArc (arcs : List StorageArc) :
    (arcs.foldl Backend.dropArc b).disk.resolve = b.disk.resolve := by
  induction arcs generalizing b with
  | nil => rfl
  | cons arc arcs ih => exact ih.trans (resolve_dropArc b arc)

/-- No step changes what paths resolve to, or the configuration. -/
theorem frame_step (b : Backend) (a : BackendAction) :
    (b.step a).2.disk.resolve = b.disk.resolve ∧ (b.step a).2.config = b.config := by
  have hdrop : ∀ (b : Backend) arc, (b.dropArc arc).config = b.config := by
    intro b arc
    unfold dropArc
    split <;> rfl
  cases a with
  | openStorage name config faults =>
      rcases RedbStorage.new_locks b.disk faults (b.createPath name config)
        (config.getD b.config.defaultStorageConfig) name with
        ⟨e, d', hnew, hres, -⟩ | ⟨d', hnew, hres, -⟩ <;>
      · unfold createPath at hnew
        simp only [step, openStorage, hnew]
        exact ⟨hres, trivial⟩
  | insertStorage id =>
      simp only [step, insertStorage]
      split
      · exact ⟨rfl, rfl⟩
      · split
        · exact ⟨resolve_dropArc _ _, hdrop _ _⟩
        · exact ⟨rfl, rfl⟩
  | getStorage name =>
      simp only [step, getStorage]
      split <;> exact ⟨rfl, rfl⟩
  | removeStorage name =>
      simp only [step, removeStorage]
      split
      · exact ⟨resolve_dropArc _ _, hdrop _ _⟩
      · exact ⟨rfl, rfl⟩
  | listStorages => exact ⟨rfl, rfl⟩
  | storageCount => exact ⟨rfl, rfl⟩
  | hasStorage name => exact ⟨rfl, rfl⟩
  | close =>
      have hconfig : ∀ (arcs : List StorageArc) (b : Backend),
          (arcs.foldl Backend.dropArc b).config = b.config := by
        intro arcs
        induction arcs with
        | nil => exact fun _ => rfl
        | cons arc arcs ih => exact fun b => (ih _).trans (hdrop b arc)
      exact ⟨resolve_foldl_dropArc _, hconfig _ _⟩
  | dropStorage id =>
      simp only [step, dropStorage]
      split
      · exact ⟨rfl, rfl⟩
      · exact ⟨resolve_dropArc _ _, hdrop _ _⟩
  | changeFile path entry =>
      simp only [step, changeFile]
      split <;> exact ⟨rfl, rfl⟩

end Backend

end ZenohRedb
