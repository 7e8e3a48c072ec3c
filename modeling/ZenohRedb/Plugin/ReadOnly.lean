import ZenohRedb.Plugin.Storage

set_option autoImplicit false

/-! # Read-only storages

A storage and the plugin around it each check the read-only flag on their own copy of the
configuration, in every operation that writes. Calls at both layers (`LayeredCall`) are run
in any order, and any call to redb may fail. A storage opened read-only never changes the
tables, refuses every write, and reads as any other storage does (`run_readOnly`).
-/

namespace ZenohRedb

/-! ## Calls at both layers -/

/-- A call of the storage, or of a method of the plugin around it. -/
inductive LayeredCall (K : ZKeyExpr)
  | storage (c : StorageCall)
  | plugin (c : PluginCall K)

/-- The result of such a call. -/
inductive LayeredResult (K : ZKeyExpr)
  | storage (r : Except RedbBackendError Reply)
  | plugin (r : Except ZError (PluginReply K))
  deriving DecidableEq

/-- The calls that write. -/
def LayeredCall.isWrite {K : ZKeyExpr} : LayeredCall K → Bool
  | .storage c => c.isWrite
  | .plugin c => c.isWrite

/-- Whether the call returned `Err`. -/
def LayeredResult.isErr {K : ZKeyExpr} : LayeredResult K → Bool
  | .storage (.error _) => true
  | .plugin (.error _) => true
  | _ => false

/-- One call at either layer. -/
def Session.layeredStep {K : ZKeyExpr} (z : ZExt) (storageConfig : RedbStorageConfig)
    (s : Session) : LayeredCall K × List (Option String) → LayeredResult K × Session
  | (.storage c, faults) =>
      match s.step z (.call c, faults) with
      | (r, s) => (.storage r, s)
  | (.plugin c, faults) =>
      match s.pluginStep z storageConfig (c, faults) with
      | (r, s) => (.plugin r, s)

/-! ## One call -/

namespace Session

variable {z : ZExt} {K : ZKeyExpr} {s s' : Session} {storage storage' : RedbStorage} {T : Tables}

/-- A call on a read-only storage leaves the tables as they are, and is refused if it
writes. -/
theorem step_readOnly (h : s.Serves storage T) (hro : storage.config.readOnly = true)
    (c : StorageCall) (fs : List (Option String)) :
    (s.step z (.call c, fs)).2.Serves storage T ∧
      (c.isWrite = true → ∃ e, (s.step z (.call c, fs)).1 = .error e) := by
  -- either something fails, which changes nothing, or the call does what `spec` says
  rcases step_call (z := z) h c fs with ⟨e, he, -, hs⟩ | ⟨hr, hs⟩
  · exact ⟨hs, fun _ => ⟨e, he⟩⟩
  · rw [hro] at hr hs
    rw [c.spec_readOnly] at hs
    exact ⟨hs, fun hc => ⟨_, hr.trans (StorageCall.spec_write_readOnly hc z T)⟩⟩

/-- The same for a method of the plugin, whatever its own copy of the flag says. -/
theorem pluginStep_readOnly (h : s.Serves storage T) (hro : storage.config.readOnly = true)
    (storageConfig : RedbStorageConfig) (c : PluginCall K) (fs : List (Option String)) :
    (s.pluginStep z storageConfig (c, fs)).2.Serves storage T ∧
      (c.isWrite = true → ∃ e, (s.pluginStep z storageConfig (c, fs)).1 = .error e) := by
  obtain ⟨hs, herr⟩ := step_readOnly (z := z) h hro c.storageCall fs
  rw [pluginStep_eq h]
  split
  · -- refused by the plugin itself
    exact ⟨h, fun _ => ⟨_, rfl⟩⟩
  · -- refused by the storage, whose error is converted
    refine ⟨hs, fun hc => ?_⟩
    obtain ⟨e, he⟩ := herr (c.isWrite_storageCall.trans hc)
    exact ⟨c.error e, by rw [he]; rfl⟩

theorem layeredStep_readOnly (h : s.Serves storage T) (hro : storage.config.readOnly = true)
    (storageConfig : RedbStorageConfig) (c : LayeredCall K) (fs : List (Option String)) :
    (s.layeredStep z storageConfig (c, fs)).2.Serves storage T ∧
      (c.isWrite = true → (s.layeredStep z storageConfig (c, fs)).1.isErr = true) := by
  cases c with
  | storage c =>
      obtain ⟨hs, herr⟩ := step_readOnly (z := z) h hro c fs
      refine ⟨hs, fun hc => ?_⟩
      obtain ⟨e, he⟩ := herr hc
      simp only [layeredStep, he, LayeredResult.isErr]
  | plugin c =>
      obtain ⟨hs, herr⟩ := pluginStep_readOnly (z := z) h hro storageConfig c fs
      refine ⟨hs, fun hc => ?_⟩
      obtain ⟨e, he⟩ := herr hc
      simp only [layeredStep, he, LayeredResult.isErr]

/-- Two storages with the same tables read alike, whatever their configurations. -/
theorem layeredStep_read (h : s.Serves storage T) (h' : s'.Serves storage' T)
    (storageConfig storageConfig' : RedbStorageConfig) {c : LayeredCall K}
    (hc : c.isWrite = false) :
    (s.layeredStep z storageConfig (c, [])).1 = (s'.layeredStep z storageConfig' (c, [])).1 := by
  have hstep : ∀ c : StorageCall, c.isWrite = false →
      (s.step z (.call c, [])).1 = (s'.step z (.call c, [])).1 := by
    intro c hc
    rw [(step_call_ok h c).1, (step_call_ok h' c).1]
    exact StorageCall.spec_read_result hc z _ _ T
  cases c with
  | storage c => exact congrArg LayeredResult.storage (hstep c hc)
  | plugin c =>
      have hw : c.isWrite = false := hc
      have hread := hstep c.storageCall (c.isWrite_storageCall.trans hw)
      simp only [layeredStep, pluginStep_eq h, pluginStep_eq h', hw, Bool.false_and,
        Bool.false_eq_true, if_false, hread]

/-! ## Whole runs -/

/-- What holds of the client `t` of a database opened read-only, when the client `s` of
before had the tables `T`: the tables are `T`, every write is refused, every read returns what
it returned to `s`, and so does every read when the database is opened again. -/
structure Frozen (z : ZExt) (K : ZKeyExpr) (s : Session) (T : Tables) (t : Session) : Prop where
  tables : t.disk.read s.path = some (.database T.db true)
  write : ∀ (c : LayeredCall K) storageConfig fs, c.isWrite = true →
    (t.layeredStep z storageConfig (c, fs)).1.isErr = true
  read : ∀ (c : LayeredCall K) storageConfig storageConfig', c.isWrite = false →
    (t.layeredStep z storageConfig (c, [])).1 = (s.layeredStep z storageConfig' (c, [])).1
  reopen : ∀ config name, (t.step z (.reopen config name, [])).1 = .ok .done ∧
    (t.step z (.reopen config name, [])).2.disk.read s.path = some (.database T.db true) ∧
    ∀ (c : LayeredCall K) storageConfig storageConfig', c.isWrite = false →
      ((t.step z (.reopen config name, [])).2.layeredStep z storageConfig (c, [])).1
        = (s.layeredStep z storageConfig' (c, [])).1

theorem Serves.frozen {t : Session} (hs : s.Serves storage T) (ht : t.Serves storage' T)
    (hdb : storage'.db = s.path) (hro : storage'.config.readOnly = true) : s.Frozen z K T t := by
  have hpath : t.path = s.path := by
    rw [← ht.db_eq]
    exact hdb
  constructor
  case tables =>
    rw [← hpath]
    exact ht.read_eq
  case write =>
    intro c storageConfig fs
    exact (layeredStep_readOnly ht hro storageConfig c fs).2
  case read =>
    intro c storageConfig storageConfig'
    exact layeredStep_read ht hs storageConfig storageConfig'
  case reopen =>
    intro config name
    obtain ⟨hok, ht'⟩ := step_reopen_ok (z := z) (Or.inl ⟨storage', ht⟩) config name
    refine ⟨hok, ?_, fun c storageConfig storageConfig' =>
      layeredStep_read ht' hs storageConfig storageConfig'⟩
    have hread := ht'.read_eq
    rwa [← ht'.db_eq, hpath] at hread

/-- **Read-only storages are a frame.** Take the client of a database after any run, with a
storage open, whatever failed in the run. Opening the database again read-only succeeds, and
from then on, after any calls at both layers, whatever fails in them: both tables are what
they were before, writes are refused, and reads return what they returned before. -/
theorem run_readOnly (z : ZExt) (K : ZKeyExpr) {disk : Disk} {path : PathBuf}
    (hd : disk.Fresh path) (buf : Bytes) (steps : List (Action × List (Option String)))
    {s : Session} (hs : (Runs.run (step z) (start disk path buf) steps).2 = s)
    (hopen : s.storage.isSome = true) {config : RedbStorageConfig}
    (hro : config.readOnly = true) (name : String) (storageConfig : RedbStorageConfig) :
    ∃ T : Tables, s.disk.read s.path = some (.database T.db true) ∧
      (s.step z (.reopen config name, [])).1 = .ok .done ∧
      ∀ calls : List (LayeredCall K × List (Option String)), s.Frozen z K T
        (Runs.run (layeredStep z storageConfig) (s.step z (.reopen config name, [])).2 calls).2 := by
  have hinv : s.Inv z := hs ▸ run_inv z hd buf steps
  obtain ⟨T, -, ⟨storage, hserves⟩ | hclosed⟩ := hinv
  · obtain ⟨hok, hserves'⟩ := step_reopen_ok (z := z) (Or.inl ⟨storage, hserves⟩) config name
    refine ⟨T, hserves.read_eq, hok, fun calls => ?_⟩
    have hkeep : ∀ (t : Session) (c : LayeredCall K × List (Option String)), c ∈ calls →
        t.Serves ⟨s.path, config, name⟩ T →
        (t.layeredStep z storageConfig c).2.Serves ⟨s.path, config, name⟩ T :=
      fun t c _ ht => (layeredStep_readOnly ht hro storageConfig c.1 c.2).1
    have hrun := Runs.run_inv (fun t : Session => t.Serves ⟨s.path, config, name⟩ T) hkeep hserves'
    exact hserves.frozen hrun rfl hro
  · rw [hclosed.1] at hopen
    cases hopen

/-- A value put before is read, and can be neither overwritten nor cleared. -/
theorem run_readOnly_value :
    let s := (Runs.run (step .layout) (start .blank (.ofString "s.redb") [])
      [(.reopen .new "s", []), (.call (.put "k" ⟨[1], .first, ⟨0, none⟩⟩), [])]).2
    let readOnly : RedbStorageConfig := { readOnly := true }
    let calls : List (LayeredCall .plain × List (Option String)) :=
      [(.storage (.put "k" ⟨[2], .first, ⟨0, none⟩⟩), []), (.plugin (.delete none .first), []),
        (.storage .clear, [])]
    ∃ T : Tables, s.disk.read s.path = some (.database T.db true) ∧
      (s.step .layout (.reopen readOnly "s", [])).1 = .ok .done ∧
      s.Frozen .layout .plain T (Runs.run (layeredStep .layout readOnly)
        (s.step .layout (.reopen readOnly "s", [])).2 calls).2 := by
  intro s readOnly calls
  obtain ⟨T, hT, hok, hfrozen⟩ := run_readOnly .layout .plain (Or.inl ⟨rfl, rfl⟩) []
    [(.reopen .new "s", []), (.call (.put "k" ⟨[1], .first, ⟨0, none⟩⟩), [])]
    (s := s) rfl rfl (show readOnly.readOnly = true from rfl) "s" readOnly
  exact ⟨T, hT, hok, hfrozen calls⟩

end Session

end ZenohRedb
