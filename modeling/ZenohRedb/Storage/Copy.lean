import ZenohRedb.Storage.KeyBuffer
import ZenohRedb.Storage.WriteBack

set_option autoImplicit false

/-! # What `get_all` returns is all there is

A storage keeps nothing that `get_all` does not return. The bytes of both tables are determined
by the entries (`Tables.eq_of_entries`), so two storages that list the same entries go on alike
for ever, however each has come by them (`run_observed`). That holds for storages that are opened
again because a commit that failed is assumed to leave the old contents on the disk as well
(`Lib/Store.lean`).

A storage can therefore be copied by its own calls. Putting the entries of a list that `get_all`
has returned gives the same two tables, in any order, with repetitions, with calls that fail in
between and with the storage opened again (`run_copy`). What carries the copy through its faults
is that its tables are at any time a part of those that are copied (`Tables.Part`).
-/

namespace ZenohRedb

open TxStore

namespace Tables

variable {z : ZExt} {T T' : Tables}

/-- Every binding of the first tables is one of the second. -/
structure Part (T' T : Tables) : Prop where
  payloads : Submap T'.payloads T.payloads
  dataInfo : Submap T'.dataInfo T.dataInfo

theorem part_empty (T : Tables) : Tables.empty.Part T where
  payloads k v h := by
    rw [show Tables.empty.payloads[k]? = none from rfl] at h
    cases h
  dataInfo k v h := by
    rw [show Tables.empty.dataInfo[k]? = none from rfl] at h
    cases h

/-- Putting what the whole holds leaves a part. -/
theorem Part.put (h : T'.Part T) (hT : T.Encoded z) {key : String} {v : StoredValue}
    (hv : T.Holds z key v) : (T'.put z key v).Part T := by
  rw [← hT.put_of_holds hv]
  exact ⟨h.payloads.insert _ _, h.dataInfo.insert _ _⟩

/-- A part in which no record is missing is the whole. -/
theorem Part.eq (h : T'.Part T) (hT' : T'.Consistent z) (hT : T.Consistent z)
    (hmem : ∀ k, k ∈ T.dataInfo → k ∈ T'.dataInfo) : T' = T := by
  have hi : T'.dataInfo = T.dataInfo := h.dataInfo.eq_of_mem hmem
  have hp : T'.payloads = T.payloads := by
    refine h.payloads.eq_of_mem fun k hk => ?_
    exact (hT'.sameKeys k).mpr (hmem k ((hT.sameKeys k).mp hk))
  cases T
  cases T'
  cases hi
  cases hp
  rfl

theorem mem_entries_iff_holds {key : String} {v : StoredValue} :
    (key, v) ∈ T.entries z ↔ T.Holds z key v :=
  (mem_entries key v).trans entry_eq_some_iff

/-- A key of consistent tables is a string that holds a value. -/
theorem Consistent.holds_of_mem (hT : T.Consistent z) {k : Bytes} (hk : k ∈ T.dataInfo) :
    ∃ key v, Str.asBytes key = k ∧ T.Holds z key v := by
  obtain ⟨key, rfl⟩ := hT.utf8 k hk
  obtain ⟨v, hv⟩ := Option.isSome_iff_exists.mp ((hT.entry_isSome key).mpr hk)
  exact ⟨key, v, rfl, entry_eq_some_iff.mp hv⟩

/-- Its record is the one `put` writes for this value. -/
theorem Encoded.record_of_holds (hT : T.Encoded z) {key : String} {v : StoredValue}
    (hv : T.Holds z key v) : T.dataInfo[Str.asBytes key]?
      = some (z.zSerialize (DataInfo.asTuple ⟨v.timestamp, false, v.encoding⟩)) := by
  have hrecord := put_dataInfo (z := z) T key v (Str.asBytes key)
  rwa [hT.put_of_holds hv, if_pos rfl] at hrecord

/-- **The entries determine the bytes.** -/
theorem eq_of_entries (hT : T.Consistent z) (hT' : T'.Consistent z) (he : T.Encoded z)
    (he' : T'.Encoded z) (h : T.entries z = T'.entries z) : T = T' := by
  have hheld : ∀ {key v}, T.Holds z key v ↔ T'.Holds z key v := by
    intro key v
    rw [← mem_entries_iff_holds, ← mem_entries_iff_holds, h]
  -- a key holds the same value in both, and this has one payload and one record
  have hpart : T.Part T' := by
    constructor
    case payloads =>
      intro k p hk
      have hmem : k ∈ T.dataInfo := (hT.sameKeys k).mp (mem_of_getElem?_eq_some hk)
      obtain ⟨key, v, rfl, hv⟩ := hT.holds_of_mem hmem
      rw [← hk, hv.1]
      exact (hheld.mp hv).1
    case dataInfo =>
      intro k info hk
      obtain ⟨key, v, rfl, hv⟩ := hT.holds_of_mem (mem_of_getElem?_eq_some hk)
      rw [← hk, he.record_of_holds hv]
      exact he'.record_of_holds (hheld.mp hv)
  refine hpart.eq hT hT' fun k hk => ?_
  obtain ⟨key, v, rfl, hv⟩ := hT'.holds_of_mem hk
  obtain ⟨-, info, hi, -⟩ := hheld.mpr hv
  exact mem_of_getElem?_eq_some hi

end Tables

namespace Session

variable {z : ZExt} {s s' : Session} {storage storage' : RedbStorage} {T : Tables}

/-- **One action** leaves the tables as they are, or it is a call that does what
`StorageCall.spec` says. -/
theorem Has.step_cases (h : s.Has T) (a : Action) (fs : List (Option String)) :
    (s.step z (a, fs)).2.Has T ∨
      ∃ storage c, a = .call c ∧ s.Serves storage T ∧
        (s.step z (a, fs)).2.Has (c.spec z storage.config.readOnly T).2 := by
  cases a with
  | reopen config name =>
      left
      rcases step_reopen h config name fs with ⟨e, -, -, hc⟩ | ⟨-, ho⟩
      · exact Or.inr hc
      · exact Or.inl ⟨_, ho⟩
  | call c =>
      rcases h with ⟨storage, hs⟩ | hs
      · rcases step_call hs c fs with ⟨e, -, -, hs'⟩ | ⟨-, hs'⟩
        · exact Or.inl (Or.inl ⟨storage, hs'⟩)
        · exact Or.inr ⟨storage, c, rfl, hs, Or.inl ⟨storage, hs'⟩⟩
      · left
        rw [step_call_closed hs.1]
        exact Or.inr hs

/-- A put that succeeds has put its value. -/
theorem Has.put_ok (h : s.Has T) {key : String} {v : StoredValue} {fs : List (Option String)}
    {r : Reply} (hr : (s.step z (.call (.put key v), fs)).1 = .ok r) :
    r = .done ∧ (s.step z (.call (.put key v), fs)).2.Has (T.put z key v) := by
  rcases h with ⟨storage, hs⟩ | hs
  · rcases step_call hs (.put key v) fs with ⟨e, he, -, -⟩ | ⟨hspec, hs'⟩
    · rw [hr] at he
      cases he
    · rw [hr] at hspec
      cases hro : storage.config.readOnly with
      | true =>
          rw [hro] at hspec
          cases hspec
      | false =>
          rw [hro] at hspec hs'
          exact ⟨Except.ok.inj hspec, Or.inl ⟨storage, hs'⟩⟩
  · rw [step_call_closed hs.1] at hr
    cases hr

/-! ## What two clients can tell apart -/

/-- What opening a closed database with the tables `T` returns. -/
def openResult (T : Tables) (fs : List (Option String)) : Except RedbBackendError Reply :=
  match fs.head?.join with
  | some msg => .error (.databaseError (.storage msg))
  | none => (initTables.exec fs.tail [] T.db).1.map fun _ => .done

/-- Opening it depends on the tables and on what fails, and on nothing else. -/
theorem new_openResult {d : Disk} {path : PathBuf} (h : d.read path = some (.database T.db false))
    (config : RedbStorageConfig) (name : String) (fs : List (Option String)) :
    (∃ e d', RedbStorage.new d fs path config name = (.error e, d') ∧ openResult T fs = .error e ∧
      d'.read path = some (.database T.db false)) ∨
    (RedbStorage.new d fs path config name
        = (.ok ⟨path, config, name⟩, d.write path (.database T.db true)) ∧
      openResult T fs = .ok .done) := by
  unfold RedbStorage.new Disk.createDatabase openResult
  cases fs.head?.join with
  | some msg => exact Or.inl ⟨_, d, rfl, rfl, h⟩
  | none =>
      simp only [h]
      rcases initTables_obeys.exec_faults fs.tail [] T.db with ⟨e, he, -, hdb⟩ | hsame
      · left
        rw [show initTables.exec fs.tail [] T.db = (.error e, _, T.db) from
          Prod.ext he (Prod.ext rfl hdb)]
        refine ⟨e, _, rfl, rfl, ?_⟩
        simp only [Disk.write_write, Disk.read_write]
      · right
        rw [hsame, initTables_exec]
        simp only [Disk.write_write]
        exact ⟨trivial, rfl⟩

/-- So does the action that opens it again. -/
theorem step_openResult (h : s.dropStorage.read s.path = some (.database T.db false))
    (config : RedbStorageConfig) (name : String) (fs : List (Option String)) :
    (s.step z (.reopen config name, fs)).1 = openResult T fs ∧
      ((∃ e, openResult T fs = .error e ∧ (s.step z (.reopen config name, fs)).2.storage = none ∧
          (s.step z (.reopen config name, fs)).2.disk.read
            (s.step z (.reopen config name, fs)).2.path = some (.database T.db false)) ∨
        (openResult T fs = .ok .done ∧
          (s.step z (.reopen config name, fs)).2.Serves ⟨s.path, config, name⟩ T)) := by
  rcases new_openResult h config name fs with ⟨e, d', hnew, hresult, hread⟩ | ⟨hnew, hresult⟩
  · simp only [step, hnew, hresult]
    exact ⟨trivial, Or.inl ⟨e, rfl, trivial, hread⟩⟩
  · simp only [step, hnew, hresult]
    exact ⟨trivial, Or.inr ⟨trivial, ⟨rfl, rfl, Disk.read_write _ _ _⟩⟩⟩

/-- Of a storage, its calls look at the flag and at nothing else. -/
theorem prog_eq (hro : storage.config.readOnly = storage'.config.readOnly) (c : StorageCall) :
    c.prog z storage = c.prog z storage' := by
  cases c with
  | put key value => simp only [StorageCall.prog, RedbStorage.put, hro]
  | delete key => simp only [StorageCall.prog, RedbStorage.delete, hro]
  | clear => simp only [StorageCall.prog, RedbStorage.clear, hro]
  | _ => rfl

/-- Nor does the key buffer matter. -/
theorem exec_eq (hro : storage.config.readOnly = storage'.config.readOnly) (c : StorageCall)
    (fs : List (Option String)) (buf buf' : Bytes) (db : Db) :
    ((c.prog z storage).exec fs buf db).1 = ((c.prog z storage').exec fs buf' db).1 ∧
      ((c.prog z storage).exec fs buf db).2.2 = ((c.prog z storage').exec fs buf' db).2.2 := by
  rw [prog_eq hro]
  obtain ⟨hr, hm⟩ := c.blind z storage' buf buf' ⟨db, .idle, fs⟩
  exact ⟨hr, congrArg Mach.db hm⟩

/-- The tables after a call are those its program leaves. -/
theorem Serves.step_call_exec (hs : s.Serves storage T) (c : StorageCall)
    (fs : List (Option String)) :
    ∃ T' : Tables, ((c.prog z storage).exec fs s.buf T.db).2.2 = T'.db ∧
      (s.step z (.call c, fs)).2.Serves storage T' := by
  have hdb : ∃ T' : Tables, ((c.prog z storage).exec fs s.buf T.db).2.2 = T'.db := by
    rcases StorageCall.exec_tables_faults z storage c fs s.buf T with ⟨-, -, -, hdb⟩ | ⟨-, hdb⟩
    · exact ⟨T, hdb⟩
    · exact ⟨_, hdb⟩
  obtain ⟨T', hdb⟩ := hdb
  refine ⟨T', hdb, ?_⟩
  rw [hs.step_call_eq, hdb]
  exact ⟨hs.storage_eq, hs.db_eq, Disk.read_write _ _ _⟩

/-- Two clients have the same tables, and both have them open, for the same calls, or neither. -/
inductive Alike (s s' : Session) : Prop
  | serve {T : Tables} {storage storage' : RedbStorage} (hs : s.Serves storage T)
      (hs' : s'.Serves storage' T) (hro : storage.config.readOnly = storage'.config.readOnly)
  | closed {T : Tables} (hs : s.storage = none) (hs' : s'.storage = none)
      (hread : s.disk.read s.path = some (.database T.db false))
      (hread' : s'.disk.read s'.path = some (.database T.db false))

/-- No action tells such clients apart. -/
theorem Alike.step (h : Alike s s') (a : Action × List (Option String)) :
    (s.step z a).1 = (s'.step z a).1 ∧ Alike (s.step z a).2 (s'.step z a).2 := by
  obtain ⟨a, fs⟩ := a
  cases a with
  | reopen config name =>
      have hdropped : ∃ T : Tables, s.dropStorage.read s.path = some (.database T.db false) ∧
          s'.dropStorage.read s'.path = some (.database T.db false) := by
        cases h with
        | @serve T _ _ hs hs' _ => exact ⟨T, hs.read_dropStorage, hs'.read_dropStorage⟩
        | @closed T hs hs' hread hread' =>
            refine ⟨T, ?_, ?_⟩
            · unfold dropStorage
              rwa [hs]
            · unfold dropStorage
              rwa [hs']
      obtain ⟨T, hd, hd'⟩ := hdropped
      obtain ⟨hr, hend⟩ := step_openResult (z := z) hd config name fs
      obtain ⟨hr', hend'⟩ := step_openResult (z := z) hd' config name fs
      refine ⟨hr.trans hr'.symm, ?_⟩
      rcases hend with ⟨e, he, hnone, hread⟩ | ⟨hok, hs⟩
      · rcases hend' with ⟨e', -, hnone', hread'⟩ | ⟨hok', -⟩
        · exact .closed hnone hnone' hread hread'
        · rw [he] at hok'
          cases hok'
      · rcases hend' with ⟨e', he', -, -⟩ | ⟨-, hs'⟩
        · rw [hok] at he'
          cases he'
        · exact .serve hs hs' rfl
  | call c =>
      cases h with
      | @serve T storage storage' hs hs' hro =>
          obtain ⟨hr, hdb⟩ := exec_eq (z := z) hro c fs s.buf s'.buf T.db
          obtain ⟨T₁, hT₁, hs₁⟩ := hs.step_call_exec (z := z) c fs
          obtain ⟨T₂, hT₂, hs₂⟩ := hs'.step_call_exec (z := z) c fs
          have hsame : T₁ = T₂ := Tables.db_inj (hT₁.symm.trans (hdb.trans hT₂))
          rw [← hsame] at hs₂
          refine ⟨?_, .serve hs₁ hs₂ hro⟩
          rw [hs.step_call_eq, hs'.step_call_eq]
          exact hr
      | closed hs hs' hread hread' =>
          rw [step_call_closed hs, step_call_closed hs']
          exact ⟨rfl, .closed hs hs' hread hread'⟩

/-- A run at whose end `get_all` succeeds has left the database open, with consistent tables whose
records are serialized tuples. -/
theorem run_listed {disk : Disk} {path : PathBuf} {buf : Bytes}
    {steps : List (Action × List (Option String))} (hd : disk.Fresh path)
    (hrun : s = (Runs.run (step z) (start disk path buf) steps).2) {fs : List (Option String)}
    {l : List (String × StoredValue)} (hl : (s.step z (.call .getAll, fs)).1 = .ok (.entries l)) :
    ∃ storage, ∃ T : Tables, T.Consistent z ∧ T.Encoded z ∧ s.Serves storage T := by
  obtain ⟨T, ⟨hT, he⟩, hs⟩ := run_tables (z := z) (P := fun T => T.Consistent z ∧ T.Encoded z)
    ⟨Tables.consistent_empty, Tables.encoded_empty⟩
    (fun T c ro h => ⟨h.1.spec c ro, h.2.spec c ro⟩) hd buf steps
  rw [← hrun] at hs
  rcases hs with ⟨storage, hs⟩ | hclosed
  · exact ⟨storage, T, hT, he, hs⟩
  · rw [step_call_closed hclosed.1] at hl
    cases hl

/-- **What `get_all` returns is all there is.** Let any two runs, whatever fails in them, end with
open storages that allow the same calls, and let `get_all` return the same list on both. If a
failing commit leaves the old contents, also on the disk, then the two databases have the same
tables, byte for byte, and whatever is done next, opening them again included, and whatever fails
in it, has the same results on both. -/
theorem run_observed (z : ZExt) {disk disk' : Disk} {path path' : PathBuf} (hd : disk.Fresh path)
    (hd' : disk'.Fresh path') (buf buf' : Bytes)
    (steps steps' : List (Action × List (Option String)))
    {s s' : Session} (hrun : s = (Runs.run (step z) (start disk path buf) steps).2)
    (hrun' : s' = (Runs.run (step z) (start disk' path' buf') steps').2)
    (hopen : s.storage = some storage) (hopen' : s'.storage = some storage')
    (hro : storage.config.readOnly = storage'.config.readOnly)
    {l : List (String × StoredValue)} {fs fs' : List (Option String)}
    (hl : (s.step z (.call .getAll, fs)).1 = .ok (.entries l))
    (hl' : (s'.step z (.call .getAll, fs')).1 = .ok (.entries l)) :
    (∃ T : Tables, s.disk.read s.path = some (.database T.db true) ∧
      s'.disk.read s'.path = some (.database T.db true)) ∧
    ∀ more, (Runs.run (step z) s more).1 = (Runs.run (step z) s' more).1 := by
  obtain ⟨st, T, hT, he, hs⟩ := run_listed hd hrun hl
  obtain ⟨st', T', hT', he', hs'⟩ := run_listed hd' hrun' hl'
  obtain rfl : storage = st := Option.some.inj (hopen.symm.trans hs.storage_eq)
  obtain rfl : storage' = st' := Option.some.inj (hopen'.symm.trans hs'.storage_eq)
  have hentries : T.entries z = T'.entries z := by
    rw [hs.entries_of_getAll hT hl, hs'.entries_of_getAll hT' hl']
  obtain rfl : T = T' := Tables.eq_of_entries hT hT' he he' hentries
  refine ⟨⟨T, hs.read_eq, hs'.read_eq⟩, fun more => ?_⟩
  have hstep : ∀ s s', ∀ a ∈ more, Alike s s' →
      id (s.step z a).1 = id (s'.step z (id a)).1 ∧ Alike (s.step z a).2 (s'.step z (id a)).2 :=
    fun s s' a _ h => h.step a
  have hsim := (Runs.run_sim (step z) (step z) Alike id id id hstep (.serve hs hs' hro)).1
  rwa [List.map_id, List.map_id, List.map_id] at hsim

/-- Two puts of which one is deleted again, and one put on another database. -/
theorem run_observed_delete :
    let v : StoredValue := ⟨[1], .first, ⟨0, none⟩⟩
    let s := (Runs.run (step .layout) (start .blank (.ofString "s.redb") [])
      [(.reopen .new "s", []), (.call (.put "a" v), []), (.call (.put "b" v), []),
        (.call (.delete "b"), [])]).2
    let s' := (Runs.run (step .layout) (start .blank (.ofString "t.redb") [])
      [(.reopen .new "t", []), (.call (.put "a" v), [])]).2
    ∀ more, (Runs.run (step .layout) s more).1 = (Runs.run (step .layout) s' more).1 := by
  intro v s s'
  have hfresh : ∀ name, Disk.blank.Fresh (.ofString name) := fun _ => Or.inl ⟨rfl, rfl⟩
  have hopen : s.storage = some ⟨.ofString "s.redb", .new, "s"⟩ := by rfl
  have hopen' : s'.storage = some ⟨.ofString "t.redb", .new, "t"⟩ := by rfl
  have hl : (s.step .layout (.call .getAll, [])).1 = .ok (.entries [("a", v)]) := by
    decide +kernel
  have hl' : (s'.step .layout (.call .getAll, [])).1 = .ok (.entries [("a", v)]) := by
    decide +kernel
  exact (run_observed .layout (hfresh "s.redb") (hfresh "t.redb") [] [] _ _ (@rfl _ s) (@rfl _ s')
    hopen hopen' rfl hl hl').2

/-! ## Copying a storage -/

/-- The actions of a copy: opening the storage, and calls that read or put an entry of `l`. -/
def Copies (l : List (String × StoredValue)) : Action → Prop
  | .reopen _ _ => True
  | .call (.put key value) => (key, value) ∈ l
  | .call c => c.isWrite = false

/-- Tables that are filled from a list, and are a part of those it was taken from. -/
structure Copied (z : ZExt) (T T' : Tables) : Prop where
  consistent : T'.Consistent z
  part : T'.Part T

theorem Copied.put {T' : Tables} (h : Copied z T T') (hT : T.Encoded z) {key : String}
    {v : StoredValue} (hv : T.Holds z key v) : Copied z T (T'.put z key v) where
  consistent := h.consistent.put
  part := h.part.put hT hv

/-- What putting entries of the list keeps of the tables, an action of a copy keeps. -/
theorem step_copies {P : Tables → Prop} {l : List (String × StoredValue)}
    (hput : ∀ T', P T' → ∀ e ∈ l, P (T'.put z e.1 e.2)) (h : ∃ T', P T' ∧ s.Has T') {a : Action}
    (ha : Copies l a) (fs : List (Option String)) : ∃ T', P T' ∧ (s.step z (a, fs)).2.Has T' := by
  obtain ⟨T', hT', hs⟩ := h
  rcases hs.step_cases (z := z) a fs with hs' | ⟨storage, c, rfl, -, hs'⟩
  · exact ⟨T', hT', hs'⟩
  · refine ⟨_, ?_, hs'⟩
    rcases c.spec_cases z storage.config.readOnly T' with
      hc | ⟨key, value, rfl, hc⟩ | ⟨key, rfl, hc⟩ | ⟨rfl, hc⟩
    · rwa [hc]
    · rw [hc]
      exact hput T' hT' (key, value) ha
    · cases ha
    · cases ha

/-- **Copies.** Let the steps of a client be actions of a copy of `l`, and let every entry of `l`
be put with success in one of them. If `l` has all entries of `T`, the client ends with the
tables `T`, if it ends with tables at all. -/
theorem run_copied {β ρ : Type} (next : Session → β → ρ × Session) (hT : T.Consistent z)
    (he : T.Encoded z) {l : List (String × StoredValue)} (hheld : ∀ e ∈ l, T.Holds z e.1 e.2)
    (hlist : ∀ k ∈ T.dataInfo, ∃ e ∈ l, Str.asBytes e.1 = k) {as : List β}
    (hcopy : ∀ (s : Session) (T' : Tables), s.Has T' → ∀ b ∈ as, ∃ a fs, Copies l a ∧
      (next s b).2 = (s.step z (a, fs)).2)
    {s₀ : Session} (hs₀ : s₀.Closed .empty)
    (hdone : ∀ e ∈ l, ∃ b r, (b, r) ∈ as.zip (Runs.run next s₀ as).1 ∧
      ∀ (s : Session) (T' : Tables), s.Has T' → (next s b).1 = r →
        ∃ fs, (s.step z (.call (.put e.1 e.2), fs)).1 = .ok .done ∧
          (next s b).2 = (s.step z (.call (.put e.1 e.2), fs)).2)
    (hopen : (Runs.run next s₀ as).2.storage = some storage) :
    (Runs.run next s₀ as).2.Serves storage T := by
  have hput : ∀ T', Copied z T T' → ∀ e ∈ l, Copied z T (T'.put z e.1 e.2) :=
    fun T' h e hmem => h.put he (hheld e hmem)
  have hkeep : ∀ {P : Tables → Prop}, (∀ T', P T' → ∀ e ∈ l, P (T'.put z e.1 e.2)) →
      ∀ s : Session, ∀ b ∈ as, (∃ T', P T' ∧ s.Has T') → ∃ T', P T' ∧ (next s b).2.Has T' := by
    rintro P hP s b hb ⟨T', hT', hs⟩
    obtain ⟨a, fs, ha, hnext⟩ := hcopy s T' hs b hb
    rw [hnext]
    exact step_copies hP ⟨T', hT', hs⟩ ha fs
  have hstart : ∃ T', Copied z T T' ∧ s₀.Has T' :=
    ⟨.empty, ⟨Tables.consistent_empty, Tables.part_empty T⟩, Or.inr hs₀⟩
  -- every key of the list is in the copy in the end, whatever has happened in between
  have hkeys : ∀ e ∈ l, ∃ T', (Copied z T T' ∧ Str.asBytes e.1 ∈ T'.dataInfo) ∧
      (Runs.run next s₀ as).2.Has T' := by
    intro e hmem
    obtain ⟨b, r, hzip, hb⟩ := hdone e hmem
    have hmono : ∀ T', (Copied z T T' ∧ Str.asBytes e.1 ∈ T'.dataInfo) → ∀ e' ∈ l,
        Copied z T (T'.put z e'.1 e'.2) ∧ Str.asBytes e.1 ∈ (T'.put z e'.1 e'.2).dataInfo :=
      fun T' h e' hmem' => ⟨hput T' h.1 e' hmem', Std.ExtTreeMap.mem_insert.mpr (Or.inr h.2)⟩
    refine Runs.run_reached (fun s : Session => ∃ T', Copied z T T' ∧ s.Has T')
      (fun s : Session => ∃ T', (Copied z T T' ∧ Str.asBytes e.1 ∈ T'.dataInfo) ∧ s.Has T')
      (hkeep hput) (hkeep hmono) ?_ hstart hzip
    rintro s ⟨T', hT', hs⟩ hr
    obtain ⟨fs, hok, hnext⟩ := hb s T' hs hr
    rw [hnext]
    have hin : Str.asBytes e.1 ∈ (T'.put z e.1 e.2).dataInfo := Std.ExtTreeMap.mem_insert_self
    exact ⟨_, ⟨hput T' hT' e hmem, hin⟩, (hs.put_ok hok).2⟩
  obtain ⟨T', hT', ⟨st', hs'⟩ | hclosed'⟩ :=
    Runs.run_inv (fun s : Session => ∃ T', Copied z T T' ∧ s.Has T') (hkeep hput) hstart
  swap
  · rw [hclosed'.1] at hopen
    cases hopen
  obtain rfl : storage = st' := Option.some.inj (hopen.symm.trans hs'.storage_eq)
  have hsame : T' = T := by
    refine hT'.part.eq hT'.consistent hT fun k hk => ?_
    obtain ⟨e, hmem, rfl⟩ := hlist k hk
    obtain ⟨T'', ⟨-, hin⟩, ⟨st'', hs''⟩ | hclosed''⟩ := hkeys e hmem
    · rwa [hs'.tables_eq hs' hs''.read_eq]
    · rw [hclosed''.1] at hopen
      cases hopen
  rwa [hsame] at hs'

/-- **A copy is exact.** Let `get_all` return a list at the end of any run, and let another client
with a fresh database do any actions that open it, read it or put entries of that list, whatever
fails in them. If every entry of the list has been put with success at least once, the two
databases have the same tables, byte for byte. -/
theorem run_copy (z : ZExt) {disk disk' : Disk} {path path' : PathBuf} (hd : disk.Fresh path)
    (hd' : disk'.Fresh path') (buf buf' : Bytes) (steps : List (Action × List (Option String)))
    {s : Session} (hrun : s = (Runs.run (step z) (start disk path buf) steps).2)
    {l : List (String × StoredValue)} {fs : List (Option String)}
    (hl : (s.step z (.call .getAll, fs)).1 = .ok (.entries l))
    {copy : List (Action × List (Option String))} (hcopy : ∀ a ∈ copy, Copies l a.1)
    (hdone : ∀ e ∈ l, ∃ fs', ((.call (.put e.1 e.2), fs'), .ok .done) ∈
      copy.zip (Runs.run (step z) (start disk' path' buf') copy).1)
    {s' : Session} (hrun' : s' = (Runs.run (step z) (start disk' path' buf') copy).2)
    {storage' : RedbStorage} (hopen : s'.storage = some storage') :
    ∃ T : Tables, s.disk.read s.path = some (.database T.db true) ∧
      s'.disk.read s'.path = some (.database T.db true) := by
  obtain ⟨storage, T, hT, he, hs⟩ := run_listed hd hrun hl
  rw [hrun'] at hopen
  have hs' := run_copied (step z) hT he (fun e hmem => hs.holds_of_getAll hl hmem)
    ((hs.reads hT).getAll fs l hl) (fun s _ _ b hb => ⟨b.1, b.2, hcopy b hb, rfl⟩)
    (start_closed hd')
    (fun e hmem => by
      obtain ⟨fs', hzip⟩ := hdone e hmem
      exact ⟨_, _, hzip, fun s _ _ hr => ⟨fs', hr, rfl⟩⟩) hopen
  rw [← hrun'] at hs'
  exact ⟨T, hs.read_eq, hs'.read_eq⟩

/-- A copy in the other order, in which a put fails and is made again. -/
theorem run_copy_retry :
    let v : StoredValue := ⟨[1], .first, ⟨0, some []⟩⟩
    let w : StoredValue := ⟨[1], .first, ⟨0, none⟩⟩
    let s := (Runs.run (step .layout) (start .blank (.ofString "s.redb") [])
      [(.reopen .new "s", []), (.call (.put "a" v), []), (.call (.put "b" v), [])]).2
    let s' := (Runs.run (step .layout) (start .blank (.ofString "t.redb") [])
      [(.reopen .new "t", []), (.call (.put "b" w), [none, some "full"]),
        (.call (.put "b" w), []), (.call (.put "a" w), [])]).2
    ∃ T : Tables, s.disk.read s.path = some (.database T.db true) ∧
      s'.disk.read s'.path = some (.database T.db true) := by
  intro v w s s'
  have hfresh : ∀ name, Disk.blank.Fresh (.ofString name) := fun _ => Or.inl ⟨rfl, rfl⟩
  have hopen : s'.storage = some ⟨.ofString "t.redb", .new, "t"⟩ := by rfl
  have hl : (s.step .layout (.call .getAll, [])).1 = .ok (.entries [("a", w), ("b", w)]) := by
    decide +kernel
  refine run_copy .layout (hfresh "s.redb") (hfresh "t.redb") [] [] _ (@rfl _ s) hl
    (by simp [Copies]) ?_ (@rfl _ s') hopen
  intro e he
  simp only [List.mem_cons, List.not_mem_nil, or_false] at he
  rcases he with rfl | rfl
  · exact ⟨[], List.mem_of_getElem? (i := 3) (by rfl)⟩
  · exact ⟨[], List.mem_of_getElem? (i := 2) (by rfl)⟩

end Session

end ZenohRedb
