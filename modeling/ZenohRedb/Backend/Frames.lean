import ZenohRedb.Backend.Locks

set_option autoImplicit false

/-! # What a step of the backend leaves alone

A storage whose clone a caller holds has its file to itself: no step of the backend's calls
touches the file (`files_step`), and the clone stays with the caller until it drops it
(`held_step`).
-/

namespace ZenohRedb

open TxStore

/-! ## Files -/

namespace Disk

variable {d : Disk} {path file : PathBuf}

theorem files_write (e : FileEntry) (h : file ≠ d.resolve path) :
    (d.write path e).files file = d.files file := Function.update_of_ne h _ _

theorem files_close (h : file ≠ d.resolve path) : (d.close path).files file = d.files file := by
  unfold close
  split
  · exact files_write _ h
  · rfl

/-- Opening a storage touches its own file only. -/
theorem files_new (fs : List (Option String)) (config : RedbStorageConfig) (name : String)
    (h : file ≠ d.resolve path) :
    (RedbStorage.new d fs path config name).2.files file = d.files file := by
  unfold RedbStorage.new
  rcases d.createDatabase_cases path fs.head?.join with ⟨e, he⟩ | ⟨db, hdb, -⟩
  · rw [he]
  · rw [hdb]
    simp only
    split
    · rw [write_write]
      exact files_write _ h
    · rw [write_write]
      exact files_write _ h

end Disk

namespace Backend

variable {b : Backend} {arc x : StorageArc} {a : BackendAction}

theorem files_dropArc (h : x ∈ b.live ∨ b.fileOf x ≠ b.fileOf arc) :
    (b.dropArc x).disk.files (b.fileOf arc) = b.disk.files (b.fileOf arc) := by
  unfold dropArc
  by_cases hx : x ∈ b.live
  · rw [if_pos hx]
  · rw [if_neg hx]
    exact Disk.files_close (Ne.symm (h.resolve_left hx))

theorem files_foldl_dropArc {arcs : List StorageArc}
    (h : ∀ x ∈ arcs, x ∈ b.live ∨ b.fileOf x ≠ b.fileOf arc) :
    (arcs.foldl dropArc b).disk.files (b.fileOf arc) = b.disk.files (b.fileOf arc) := by
  induction arcs generalizing b with
  | nil => rfl
  | cons x arcs ih =>
      have hfirst := files_dropArc (h x List.mem_cons_self)
      have hrest := ih (b := b.dropArc x) fun y hy => by
        rw [live_dropArc, fileOf_dropArc]
        exact h y (List.mem_cons_of_mem x hy)
      rw [fileOf_dropArc] at hrest
      exact hrest.trans hfirst

/-- Of the clones that go, none has the file of a clone that stays. -/
theorem Owns.gone_ne {b' : Backend} (h : b.Owns {a | a ∈ b.live}) (hdisk : b'.disk = b.disk)
    (hsub : ∀ a ∈ b'.live, a ∈ b.live) (hx : x ∈ b.live) (harc : arc ∈ b'.live) :
    x ∈ b'.live ∨ b'.fileOf x ≠ b'.fileOf arc := by
  refine (h.gone hdisk hsub hx).imp_right fun hfree heq => hfree ?_
  rw [heq]
  exact Set.mem_image_of_mem _ harc

/-- **Frame.** A step leaves the file of a clone alone that is there before and after it. -/
theorem files_step (h : b.Inv) (ha : a.Ours) (harc : arc ∈ b.live)
    (harc' : arc ∈ (b.step a).2.live) :
    (b.step a).2.disk.files (b.fileOf arc) = b.disk.files (b.fileOf arc) := by
  cases a with
  | openStorage name config faults =>
      have hlocked := h.locked harc
      by_cases hfile : b.fileOf arc = b.disk.resolve (b.createPath name config)
      · -- the file is open, and refused
        rw [hfile] at hlocked
        obtain ⟨e, hnew, -⟩ := new_of_locked hlocked faults
          (config.getD b.config.defaultStorageConfig) name
        unfold createPath at hnew
        simp only [step, openStorage, hnew]
      · have hfiles := Disk.files_new faults (config.getD b.config.defaultStorageConfig) name hfile
        unfold createPath at hfiles
        simp only [step, openStorage]
        split <;> next heq => rw [heq] at hfiles; exact hfiles
  | insertStorage id =>
      simp only [step, insertStorage] at harc' ⊢
      cases hfind : b.opened.find? (·.2.id = id) with
      | none => rfl
      | some found =>
          obtain ⟨name, new⟩ := found
          have hopened : (name, new) ∈ b.opened := List.mem_of_find?_eq_some hfind
          simp only [hfind] at harc' ⊢
          cases hold : b.storages[name]? with
          | none => rfl
          | some replaced =>
              simp only [hold, live_dropArc] at harc' ⊢
              refine files_dropArc (b := b.register name new) ?_
              refine h.owns.gone_ne rfl (fun _ => mem_live_register hopened) ?_ harc'
              exact mem_live.mpr (Or.inl ⟨name, hold⟩)
  | getStorage name =>
      simp only [step, getStorage]
      split <;> rfl
  | removeStorage name =>
      simp only [step, removeStorage] at harc' ⊢
      cases hreg : b.storages[name]? with
      | none => rfl
      | some found =>
          simp only [hreg, live_dropArc] at harc' ⊢
          refine files_dropArc (b := { b with storages := b.storages.erase name }) ?_
          exact h.owns.gone_ne rfl (b.live_of_erase name) (mem_live.mpr (Or.inl ⟨name, hreg⟩)) harc'
  | listStorages => rfl
  | storageCount => rfl
  | hasStorage name => rfl
  | close =>
      simp only [step, Backend.close, live_foldl_dropArc] at harc' ⊢
      refine files_foldl_dropArc (b := { b with storages := ∅ }) fun x hx => ?_
      exact h.owns.gone_ne rfl b.live_of_clear (mem_live.mpr (Or.inl (mem_registered.mp hx))) harc'
  | dropStorage id =>
      simp only [step, dropStorage] at harc' ⊢
      cases hfind : b.held.find? (·.id = id) with
      | none => rfl
      | some found =>
          simp only [hfind, live_dropArc] at harc' ⊢
          refine files_dropArc (b := { b with held := b.held.erase found }) ?_
          exact h.owns.gone_ne rfl (b.live_of_release found)
            (mem_live.mpr (Or.inr (Or.inr (List.mem_of_find?_eq_some hfind)))) harc'
  | changeFile path entry => exact ha.elim

/-! ## The clones of the callers -/

/-- A clone that a caller holds is found under its number. -/
theorem Ids.find (h : b.Ids) (hheld : arc ∈ b.held) :
    b.held.find? (·.id = arc.id) = some arc := by
  cases hfind : b.held.find? (·.id = arc.id) with
  | none => exact absurd (decide_eq_true rfl) (List.find?_eq_none.mp hfind arc hheld)
  | some found =>
      have hid : found.id = arc.id := by simpa using List.find?_some hfind
      have hlive : ∀ a ∈ b.held, a ∈ b.live := fun a ha => mem_live.mpr (Or.inr (Or.inr ha))
      rw [h.unique found (hlive _ (List.mem_of_find?_eq_some hfind)) arc (hlive _ hheld) hid]

/-- A clone that a caller holds stays, unless it is the last one of its number and is dropped. -/
theorem held_step (h : b.Ids) (ha : a.Ours) (hheld : arc ∈ b.held)
    (hdrop : a = .dropStorage arc.id → 1 < b.held.countP (·.id = arc.id)) :
    arc ∈ (b.step a).2.held := by
  cases a with
  | openStorage name config faults =>
      simp only [step, openStorage]
      split <;> exact hheld
  | insertStorage id =>
      simp only [step, insertStorage]
      split
      · exact hheld
      · split
        · rw [held_dropArc]
          exact List.mem_cons_of_mem _ hheld
        · exact List.mem_cons_of_mem _ hheld
  | getStorage name =>
      simp only [step, getStorage]
      split
      · exact List.mem_cons_of_mem _ hheld
      · exact hheld
  | removeStorage name =>
      simp only [step, removeStorage]
      split
      · rw [held_dropArc]
        exact hheld
      · exact hheld
  | listStorages => exact hheld
  | storageCount => exact hheld
  | hasStorage name => exact hheld
  | close =>
      have hfold : ∀ (arcs : List StorageArc) (b : Backend),
          (arcs.foldl dropArc b).held = b.held := by
        intro arcs
        induction arcs with
        | nil => exact fun _ => rfl
        | cons x arcs ih => exact fun b => (ih _).trans (held_dropArc b x)
      show arc ∈ (b.registered.foldl dropArc { b with storages := ∅ }).held
      rw [hfold]
      exact hheld
  | dropStorage id =>
      simp only [step, dropStorage]
      cases hfind : b.held.find? (·.id = id) with
      | none => exact hheld
      | some found =>
          simp only [held_dropArc]
          by_cases hfound : arc = found
          · -- another clone of the storage is left
            subst hfound
            have hid : arc.id = id := by simpa using List.find?_some hfind
            subst hid
            have hlive : ∀ a ∈ b.held, a ∈ b.live := fun a ha => mem_live.mpr (Or.inr (Or.inr ha))
            have hcount : b.held.countP (·.id = arc.id) = b.held.count arc := by
              refine List.countP_congr fun a ha => ?_
              rw [decide_eq_true_iff, beq_iff_eq]
              constructor
              · exact h.unique a (hlive a ha) arc (hlive arc hheld)
              · exact congrArg StorageArc.id
            have hmore := hdrop rfl
            rw [hcount] at hmore
            refine List.count_pos_iff.mp ?_
            rw [List.count_erase_self]
            omega
          · exact (List.mem_erase_of_ne hfound).mpr hheld
  | changeFile path entry => exact ha.elim

end Backend

end ZenohRedb
