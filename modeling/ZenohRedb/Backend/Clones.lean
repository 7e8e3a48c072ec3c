import ZenohRedb.Backend.Calls

set_option autoImplicit false

/-! # The clones of the storages

A clone of a storage is in the registry, in a call in progress or with a caller
(`mem_live`). A step makes new clones of a storage that is alive, or of the one it has just
opened (`mem_live_step`), and clones of different storages have different numbers (`Ids`).
-/

namespace ZenohRedb

open TxStore

namespace Backend

variable {b b' : Backend} {arc : StorageArc} {a : BackendAction} {name : String}

theorem mem_registered : arc ∈ b.registered ↔ ∃ name : String, b.storages[name]? = some arc := by
  unfold registered
  rw [List.mem_map]
  constructor
  · rintro ⟨⟨name, arc'⟩, h, rfl⟩
    exact ⟨name, Std.ExtTreeMap.mem_toList_iff_getElem?_eq_some.mp h⟩
  · rintro ⟨name, h⟩
    exact ⟨(name, arc), Std.ExtTreeMap.mem_toList_iff_getElem?_eq_some.mpr h, rfl⟩

theorem mem_live : arc ∈ b.live ↔ (∃ name : String, b.storages[name]? = some arc) ∨
    (∃ name, (name, arc) ∈ b.opened) ∨ arc ∈ b.held := by
  simp [live, mem_registered]

/-- Fewer references, fewer clones. -/
theorem live_mono
    (hstorages : ∀ (name : String) arc, b'.storages[name]? = some arc →
      b.storages[name]? = some arc)
    (hopened : ∀ p ∈ b'.opened, p ∈ b.opened) (hheld : ∀ arc ∈ b'.held, arc ∈ b.held) :
    ∀ arc ∈ b'.live, arc ∈ b.live := by
  intro arc harc
  rcases mem_live.mp harc with ⟨name, hreg⟩ | ⟨name, hmem⟩ | hmem
  · exact mem_live.mpr (Or.inl ⟨name, hstorages name arc hreg⟩)
  · exact mem_live.mpr (Or.inr (Or.inl ⟨name, hopened _ hmem⟩))
  · exact mem_live.mpr (Or.inr (Or.inr (hheld arc hmem)))

/-- A name that is removed is bound to nothing, the others are bound as they were. -/
theorem getElem?_of_erase {name' : String} (h : (b.storages.erase name)[name']? = some arc) :
    b.storages[name']? = some arc := by
  rw [getElem?_erase_eq_ite] at h
  split at h
  · cases h
  · exact h

section Fewer

variable (b)

theorem live_of_erase (name : String) :
    ∀ a ∈ { b with storages := b.storages.erase name }.live, a ∈ b.live :=
  live_mono (fun _ _ => getElem?_of_erase) (fun _ hopened => hopened) fun _ hheld => hheld

theorem live_of_clear : ∀ a ∈ { b with storages := ∅ }.live, a ∈ b.live :=
  live_mono (fun _ _ hreg => by cases hreg) (fun _ hopened => hopened) fun _ hheld => hheld

theorem live_of_release (arc : StorageArc) :
    ∀ a ∈ { b with held := b.held.erase arc }.live, a ∈ b.live :=
  live_mono (fun _ _ hreg => hreg) (fun _ hopened => hopened) fun _ => List.mem_of_mem_erase

end Fewer

theorem notMem_live_new (config : RedbBackendConfig) (disk : Disk) :
    arc ∉ (new config disk).live := by
  intro h
  rcases mem_live.mp h with ⟨_, h⟩ | ⟨_, h⟩ | h <;> cases h

/-! ## Dropping clones -/

section Drop

variable (b arc)

@[simp] theorem storages_dropArc : (b.dropArc arc).storages = b.storages := by
  unfold dropArc
  split <;> rfl

@[simp] theorem opened_dropArc : (b.dropArc arc).opened = b.opened := by
  unfold dropArc
  split <;> rfl

@[simp] theorem held_dropArc : (b.dropArc arc).held = b.held := by
  unfold dropArc
  split <;> rfl

@[simp] theorem live_dropArc : (b.dropArc arc).live = b.live := by
  simp only [live, registered, storages_dropArc, opened_dropArc, held_dropArc]

@[simp] theorem nextId_dropArc : (b.dropArc arc).nextId = b.nextId := by
  unfold dropArc
  split <;> rfl

variable {b}

theorem live_foldl_dropArc (arcs : List StorageArc) :
    (arcs.foldl dropArc b).live = b.live := by
  induction arcs generalizing b with
  | nil => rfl
  | cons arc arcs ih => exact ih.trans (live_dropArc b arc)

theorem nextId_foldl_dropArc (arcs : List StorageArc) :
    (arcs.foldl dropArc b).nextId = b.nextId := by
  induction arcs generalizing b with
  | nil => rfl
  | cons arc arcs ih => exact ih.trans (nextId_dropArc b arc)

end Drop

/-! ## Where the clones come from -/

/-- Registering an opened storage makes no new clones of other storages. -/
theorem mem_live_register (hopened : (name, arc) ∈ b.opened) {a : StorageArc}
    (ha : a ∈ (b.register name arc).live) : a ∈ b.live := by
  have harc : arc ∈ b.live := mem_live.mpr (Or.inr (Or.inl ⟨name, hopened⟩))
  rcases mem_live.mp ha with ⟨name', hreg⟩ | ⟨name', hmem⟩ | hheld
  · rw [register, getElem?_insert_eq_ite] at hreg
    split at hreg
    · exact Option.some.inj hreg ▸ harc
    · exact mem_live.mpr (Or.inl ⟨name', hreg⟩)
  · exact mem_live.mpr (Or.inr (Or.inl ⟨name', List.mem_of_mem_erase hmem⟩))
  · rcases List.mem_cons.mp hheld with rfl | hheld
    · exact harc
    · exact mem_live.mpr (Or.inr (Or.inr hheld))

/-- The path of the database `create_storage` opens. -/
def createPath (b : Backend) (name : String) (config : Option RedbStorageConfig) : PathBuf :=
  (config.getD b.config.defaultStorageConfig).effectiveDbPath name b.config

/-- A clone that is there after a step was there before, or the step has opened its storage. -/
theorem mem_live_step (h : arc ∈ (b.step a).2.live) :
    arc ∈ b.live ∨ ∃ name config faults, a = .openStorage name config faults ∧
      arc.storage
        = ⟨b.createPath name config, config.getD b.config.defaultStorageConfig, name⟩ := by
  cases a with
  | openStorage name config faults =>
      simp only [step, openStorage] at h
      rcases RedbStorage.new_locks b.disk faults (b.createPath name config)
        (config.getD b.config.defaultStorageConfig) name with ⟨e, d', hnew, -⟩ | ⟨d', hnew, -⟩
      · unfold createPath at hnew
        rw [hnew] at h
        exact Or.inl h
      · unfold createPath at hnew
        rw [hnew] at h
        rcases mem_live.mp h with hreg | ⟨name', hmem⟩ | hheld
        · exact Or.inl (mem_live.mpr (Or.inl hreg))
        · rcases List.mem_cons.mp hmem with heq | hmem
          · obtain ⟨-, rfl⟩ := Prod.mk.inj heq
            exact Or.inr ⟨name, config, faults, rfl, rfl⟩
          · exact Or.inl (mem_live.mpr (Or.inr (Or.inl ⟨name', hmem⟩)))
        · exact Or.inl (mem_live.mpr (Or.inr (Or.inr hheld)))
  | insertStorage id =>
      left
      simp only [step, insertStorage] at h
      cases hfind : b.opened.find? (·.2.id = id) with
      | none =>
          rw [hfind] at h
          exact h
      | some found =>
          obtain ⟨name, new⟩ := found
          have hopened : (name, new) ∈ b.opened := List.mem_of_find?_eq_some hfind
          simp only [hfind] at h
          cases hold : b.storages[name]? with
          | none =>
              rw [hold] at h
              exact mem_live_register hopened h
          | some replaced =>
              simp only [hold, live_dropArc] at h
              exact mem_live_register hopened h
  | getStorage name =>
      left
      simp only [step, getStorage] at h
      cases hreg : b.storages[name]? with
      | none =>
          rw [hreg] at h
          exact h
      | some found =>
          rw [hreg] at h
          rcases mem_live.mp h with hreg' | hopened | hheld
          · exact mem_live.mpr (Or.inl hreg')
          · exact mem_live.mpr (Or.inr (Or.inl hopened))
          · rcases List.mem_cons.mp hheld with rfl | hheld
            · exact mem_live.mpr (Or.inl ⟨name, hreg⟩)
            · exact mem_live.mpr (Or.inr (Or.inr hheld))
  | removeStorage name =>
      left
      simp only [step, removeStorage] at h
      cases hreg : b.storages[name]? with
      | none =>
          rw [hreg] at h
          exact h
      | some found =>
          simp only [hreg, live_dropArc] at h
          exact live_of_erase b name arc h
  | listStorages => exact Or.inl h
  | storageCount => exact Or.inl h
  | hasStorage name => exact Or.inl h
  | close =>
      left
      simp only [step, Backend.close, live_foldl_dropArc] at h
      exact live_of_clear b arc h
  | dropStorage id =>
      left
      simp only [step, dropStorage] at h
      cases hfind : b.held.find? (·.id = id) with
      | none =>
          rw [hfind] at h
          exact h
      | some found =>
          simp only [hfind, live_dropArc] at h
          exact live_of_release b found arc h
  | changeFile path entry =>
      simp only [step, changeFile] at h
      split at h <;> exact Or.inl h

/-! ## The numbers of the clones -/

/-- Clones of one storage have one number, and it has been given away. -/
structure Ids (b : Backend) : Prop where
  below : ∀ a ∈ b.live, a.id < b.nextId
  unique : ∀ a ∈ b.live, ∀ a' ∈ b.live, a.id = a'.id → a = a'

theorem ids_new (config : RedbBackendConfig) (disk : Disk) : (new config disk).Ids where
  below _ ha := absurd ha (notMem_live_new config disk)
  unique _ ha := absurd ha (notMem_live_new config disk)

theorem nextId_step (hopen : ∀ name config faults, a ≠ .openStorage name config faults) :
    (b.step a).2.nextId = b.nextId := by
  cases a with
  | openStorage name config faults => exact absurd rfl (hopen name config faults)
  | insertStorage id =>
      simp only [step, insertStorage]
      split
      · rfl
      · split
        · exact nextId_dropArc _ _
        · rfl
  | getStorage name =>
      simp only [step, getStorage]
      split <;> rfl
  | removeStorage name =>
      simp only [step, removeStorage]
      split
      · exact nextId_dropArc _ _
      · rfl
  | listStorages => rfl
  | storageCount => rfl
  | hasStorage name => rfl
  | close => exact nextId_foldl_dropArc _
  | dropStorage id =>
      simp only [step, dropStorage]
      split
      · rfl
      · exact nextId_dropArc _ _
  | changeFile path entry =>
      simp only [step, changeFile]
      split <;> rfl

theorem Ids.step (h : b.Ids) (a : BackendAction) : (b.step a).2.Ids := by
  by_cases hopen : ∃ name config faults, a = .openStorage name config faults
  · obtain ⟨name, config, faults, rfl⟩ := hopen
    simp only [Backend.step, openStorage]
    split
    · exact ⟨h.below, h.unique⟩
    · next storage d' _ =>
        -- one more number has been given away, to the storage that has been opened
        have hlive : ∀ x ∈ ({ b with
            disk := d'
            opened := (name, ⟨b.nextId, storage⟩) :: b.opened
            nextId := b.nextId + 1 } : Backend).live, x = ⟨b.nextId, storage⟩ ∨ x ∈ b.live := by
          intro x hx
          rcases mem_live.mp hx with hreg | ⟨name', hmem⟩ | hheld
          · exact Or.inr (mem_live.mpr (Or.inl hreg))
          · rcases List.mem_cons.mp hmem with heq | hmem
            · exact Or.inl (Prod.mk.inj heq).2
            · exact Or.inr (mem_live.mpr (Or.inr (Or.inl ⟨name', hmem⟩)))
          · exact Or.inr (mem_live.mpr (Or.inr (Or.inr hheld)))
        constructor
        case below =>
          intro x hx
          rcases hlive x hx with rfl | hx
          · exact Nat.lt_succ_self _
          · exact Nat.lt_succ_of_lt (h.below x hx)
        case unique =>
          intro x hx x' hx' hid
          rcases hlive x hx with rfl | hx <;> rcases hlive x' hx' with rfl | hx'
          · rfl
          · have hlt := h.below x' hx'
            exact absurd hid.symm hlt.ne
          · have hlt := h.below x hx
            exact absurd hid hlt.ne
          · exact h.unique x hx x' hx' hid
  · have hold : ∀ x ∈ (b.step a).2.live, x ∈ b.live := by
      intro x hx
      refine (mem_live_step hx).resolve_right ?_
      rintro ⟨name, config, faults, heq, -⟩
      exact hopen ⟨name, config, faults, heq⟩
    have hnext : (b.step a).2.nextId = b.nextId :=
      nextId_step fun name config faults heq => hopen ⟨name, config, faults, heq⟩
    constructor
    case below =>
      intro x hx
      rw [hnext]
      exact h.below x (hold x hx)
    case unique => exact fun x hx x' hx' => h.unique x (hold x hx) x' (hold x' hx')

end Backend

end ZenohRedb
