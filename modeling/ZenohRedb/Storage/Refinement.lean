import ZenohRedb.Storage.Session

set_option autoImplicit false

/-! # A storage is a map

The operations on the abstract contents (`EntryMap.call`) and, for whole runs on a writable
storage, the refinement: started on a fresh database, every operation succeeds and returns
what the map says, and dropping the storage and opening the database again changes nothing
(`run_refines`). Encodings are compared in canonical form.
-/

namespace ZenohRedb

open TxStore

/-- The value or the values of a reply, with encodings in canonical form. -/
def Reply.canon : Reply → Reply
  | .done => .done
  | .value v => .value (v.map StoredValue.canon)
  | .entries l => .entries (l.map fun e => (e.1, e.2.canon))
  | .number n => .number n

namespace EntryMap

/-- What a call does to the map, and what it returns. -/
def call (m : EntryMap) : StorageCall → Reply × EntryMap
  | .put key value => (.done, m.insert key value)
  | .delete key => (.done, m.erase key)
  | .clear => (.done, ∅)
  | .get key => (.value m[key]?, m)
  | .getAll => (.entries m.toList, m)
  | .getByPrefix keyPrefix => (.entries (m.toList.filter (Str.startsWith ·.1 keyPrefix)), m)
  | .getByWildcard pattern => (.entries (m.toList.filter (matchesWildcard ·.1 pattern)), m)
  | .count => (.number m.size, m)

/-- What an action of a client does to the map: opening the database again does nothing. -/
def act (m : EntryMap) : Action → Reply × EntryMap
  | .reopen _ _ => (.done, m)
  | .call c => m.call c

end EntryMap

/-! ## One call -/

namespace Tables

variable {z : ZExt} {T : Tables} {m : EntryMap}

theorem canon_entries (l : List (String × StoredValue)) :
    Reply.canon (.entries (l.map fun e => (e.1, e.2.canon))) = Reply.canon (.entries l) := by
  simp only [Reply.canon, List.map_map, Function.comp_def, StoredValue.canon_canon]

/-- On tables that represent a map, a call on a writable storage succeeds, returns what the
map returns, and leaves tables that represent the map after the call. -/
theorem Represents.spec (h : T.Represents z m) (c : StorageCall) :
    (c.spec z false T).1.map Reply.canon = .ok (m.call c).1.canon ∧
      (c.spec z false T).2.Represents z (m.call c).2 := by
  cases c with
  | put key value => exact ⟨rfl, h.put key value⟩
  | delete key => exact ⟨rfl, h.delete key⟩
  | clear => exact ⟨rfl, represents_empty⟩
  | get key =>
      refine ⟨?_, h⟩
      simp only [StorageCall.spec, h.get, EntryMap.call, Except.map, Reply.canon, Option.map_map,
        Function.comp_def, StoredValue.canon_canon]
  | getAll =>
      refine ⟨?_, h⟩
      simp only [StorageCall.spec, h.scan, EntryMap.call, Except.map, canon_entries,
        List.filter_true]
  | getByPrefix keyPrefix =>
      refine ⟨?_, h⟩
      simp only [StorageCall.spec, h.scan, EntryMap.call, Except.map, canon_entries]
  | getByWildcard pattern =>
      refine ⟨?_, h⟩
      simp only [StorageCall.spec, h.scan, EntryMap.call, Except.map, canon_entries]
  | count =>
      refine ⟨?_, h⟩
      simp only [StorageCall.spec, h.count, EntryMap.call, Except.map]

/-- The lists a call returns are in strictly increasing order of the key bytes. -/
theorem spec_sorted (T : Tables) (hT : T.Consistent z) {c : StorageCall} {ro : Bool}
    {l : List (String × StoredValue)} (h : (c.spec z ro T).1 = .ok (.entries l)) :
    l.Pairwise keyLt := by
  have hscan : ∀ sel, (T.scan z sel).map Reply.entries = .ok (.entries l) → l.Pairwise keyLt := by
    intro sel hl
    rw [hT.scan] at hl
    cases hl
    exact (pairwise_entries T).filter _
  cases c with
  | put key value => cases ro <;> cases h
  | delete key => cases ro <;> cases h
  | clear => cases ro <;> cases h
  | get key =>
      simp only [StorageCall.spec, hT.get, Except.map] at h
      cases h
  | getAll => exact hscan _ h
  | getByPrefix keyPrefix => exact hscan _ h
  | getByWildcard pattern => exact hscan _ h
  | count =>
      simp only [StorageCall.spec, hT.count, Except.map] at h
      cases h

end Tables

/-! ## Whole runs -/

/-- An action that does not open the database read-only. -/
def Action.Writable : Action → Prop
  | .reopen config _ => config.readOnly = false
  | .call _ => True

namespace Session

variable {z : ZExt} {s : Session} {m : EntryMap}

/-- The client has a writable storage whose tables represent the map. -/
def Refines (z : ZExt) (s : Session) (m : EntryMap) : Prop :=
  ∃ storage T, s.Serves storage T ∧ storage.config.readOnly = false ∧ T.Represents z m

theorem start_refines {disk : Disk} {path : PathBuf} (hd : disk.Fresh path) (buf : Bytes)
    {config : RedbStorageConfig} (hc : config.readOnly = false) (name : String) :
    ((start disk path buf).step z (.reopen config name, [])).1 = .ok .done ∧
      ((start disk path buf).step z (.reopen config name, [])).2.Refines z ∅ := by
  have hclosed : (start disk path buf).Has .empty := Or.inr (start_closed hd)
  obtain ⟨hr, hs⟩ := step_reopen_ok (z := z) hclosed config name
  exact ⟨hr, _, _, hs, hc, Tables.represents_empty⟩

theorem step_refines (h : s.Refines z m) {a : Action} (ha : a.Writable) :
    (s.step z (a, [])).1.map Reply.canon = .ok (m.act a).1.canon ∧
      (s.step z (a, [])).2.Refines z (m.act a).2 := by
  obtain ⟨storage, T, hs, hro, hT⟩ := h
  cases a with
  | reopen config name =>
      obtain ⟨hr, hs'⟩ := step_reopen_ok (z := z) (Or.inl ⟨storage, hs⟩) config name
      rw [hr]
      exact ⟨rfl, _, T, hs', ha, hT⟩
  | call c =>
      obtain ⟨hr, hs'⟩ := step_call_ok (z := z) hs c
      rw [hro] at hr hs'
      rw [hr]
      exact ⟨(hT.spec c).1, storage, _, hs', hro, (hT.spec c).2⟩

/-- The lists an action returns are sorted. -/
theorem step_sorted (h : s.Refines z m) (a : Action) (l : List (String × StoredValue))
    (hl : (s.step z (a, [])).1 = .ok (.entries l)) : l.Pairwise keyLt := by
  obtain ⟨storage, T, hs, -, hT⟩ := h
  cases a with
  | reopen config name =>
      rw [(step_reopen_ok (Or.inl ⟨storage, hs⟩) config name).1] at hl
      cases hl
  | call c =>
      rw [(step_call_ok hs c).1] at hl
      exact Tables.spec_sorted T hT.consistent hl

/-- **A storage refines a map.** Open a fresh database writable and do any actions, opening
it again writable included. Every action succeeds and returns what it returns on the map,
starting from the empty one; and every list of entries is in strictly increasing order of the
key bytes. -/
theorem run_refines (z : ZExt) {disk : Disk} {path : PathBuf} (hd : disk.Fresh path)
    (buf : Bytes) {config : RedbStorageConfig} (hc : config.readOnly = false) (name : String)
    {actions : List Action} (ha : ∀ a ∈ actions, a.Writable) :
    let results := (Runs.run (step z) (start disk path buf)
      ((.reopen config name :: actions).map (·, []))).1
    results.map (Except.map Reply.canon)
        = (Runs.run EntryMap.act ∅ (.reopen config name :: actions)).1.map (.ok ·.canon) ∧
      ∀ l, .ok (.entries l) ∈ results → l.Pairwise keyLt := by
  intro results
  obtain ⟨hfirst, hopen⟩ := start_refines (z := z) hd buf hc name
  -- an action of the map becomes one of the storage by adding that nothing fails in it
  have hstep : ∀ (m : EntryMap) (s : Session), ∀ a ∈ actions, s.Refines z m →
      Except.ok (m.act a).1.canon = (s.step z (a, [])).1.map Reply.canon ∧
        (s.step z (a, [])).2.Refines z (m.act a).2 :=
    fun m s a hmem h => ⟨(step_refines h (ha a hmem)).1.symm, (step_refines h (ha a hmem)).2⟩
  obtain ⟨hsim, -⟩ := Runs.run_sim EntryMap.act (step z) (fun m s => s.Refines z m)
    (fun r => (.ok r.canon : Except RedbBackendError Reply)) (Except.map Reply.canon) (·, [])
    hstep hopen
  constructor
  · show Except.map Reply.canon _ :: List.map _ _ = Except.ok (Reply.canon _) :: List.map _ _
    rw [hfirst]
    exact congrArg _ hsim.symm
  · intro l hl
    rcases List.mem_cons.mp hl with hdone | hl
    · rw [hfirst] at hdone
      cases hdone
    · have hsorted : ∀ s : Session, ∀ b ∈ actions.map (fun a => (a, ([] : List (Option String)))),
          (∃ m, s.Refines z m) →
          (∀ l, (s.step z b).1 = .ok (.entries l) → l.Pairwise keyLt) ∧
            ∃ m, (s.step z b).2.Refines z m := by
        rintro s b hb ⟨m, h⟩
        obtain ⟨a, hmem, rfl⟩ := List.mem_map.mp hb
        exact ⟨step_sorted h a, _, (step_refines h (ha a hmem)).2⟩
      exact Runs.run_results (fun s : Session => ∃ m, s.Refines z m)
        (fun r => ∀ l, r = .ok (.entries l) → l.Pairwise keyLt) hsorted ⟨∅, hopen⟩ _ hl l rfl

/-- The empty key is a key like any other, and an empty schema is stored as none. -/
theorem run_refines_empty_key :
    (Runs.run (step .layout) (start .blank (.ofString "s.redb") [])
      [(.reopen .new "s", []), (.call (.put "" ⟨[1], .first, ⟨0, some []⟩⟩), []),
        (.reopen .new "s", []), (.call .getAll, [])]).1.map (Except.map Reply.canon)
      = [.ok .done, .ok .done, .ok .done, .ok (.entries [("", ⟨[1], .first, ⟨0, none⟩⟩)])] :=
  have hw : ∀ a ∈ [Action.call (.put "" ⟨[1], .first, ⟨0, some []⟩⟩), .reopen .new "s",
      .call .getAll], a.Writable := by simp [Action.Writable, RedbStorageConfig.new]
  (run_refines .layout (Or.inl ⟨rfl, rfl⟩) []
    (show RedbStorageConfig.new.readOnly = false from rfl) "s" hw).1

end Session

end ZenohRedb
