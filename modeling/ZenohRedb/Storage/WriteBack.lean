import ZenohRedb.Storage.Session

set_option autoImplicit false

/-! # Writing back what was read

A record that `decode_data_info` accepts need not be restored by `encode_data_info`, because a
schema that was present and empty is read as none. It is restored as bytes all the same: the
records of a database are serialized tuples (`Tables.Encoded`), and `from_tuple` reads no two
tuples alike. So a `put` of what `get` has returned writes the bytes that are there
(`write_back`).
-/

namespace ZenohRedb

open TxStore

namespace Tables

variable {z : ZExt} {T : Tables}

variable (z) in
/-- Every record is a serialized tuple of some metadata. -/
def Encoded (T : Tables) : Prop :=
  ∀ k info : Bytes, T.dataInfo[k]? = some info → ∃ d : DataInfo, info = z.zSerialize d.asTuple

theorem encoded_empty : Tables.empty.Encoded z := by
  intro k info hi
  rw [show Tables.empty.dataInfo[k]? = none from rfl] at hi
  cases hi

theorem Encoded.put (h : T.Encoded z) (key : String) (value : StoredValue) :
    (T.put z key value).Encoded z := by
  intro k info hi
  rcases record_of_put hi with rfl | hi
  · exact ⟨_, rfl⟩
  · exact h k info hi

theorem Encoded.delete (h : T.Encoded z) (key : String) : (T.delete key).Encoded z :=
  fun k info hi => h k info (record_of_delete hi)

theorem Encoded.spec (h : T.Encoded z) (c : StorageCall) (ro : Bool) :
    (c.spec z ro T).2.Encoded z :=
  c.spec_keeps h (fun key value _ => h.put key value) h.delete encoded_empty ro

/-- What a serialized tuple is read as is serialized to the same bytes. -/
theorem zSerialize_of_decodeDataInfo {d : DataInfo} {encoding : Encoding} {timestamp : Timestamp}
    {deleted : Bool}
    (h : decodeDataInfo z (z.zSerialize d.asTuple) = .ok (encoding, timestamp, deleted)) :
    z.zSerialize (DataInfo.asTuple ⟨timestamp, deleted, encoding⟩) = z.zSerialize d.asTuple := by
  unfold decodeDataInfo at h
  rw [z.deserialize_serialize] at h
  simp only at h
  cases hd : DataInfo.fromTuple d.asTuple with
  | error e =>
      rw [hd] at h
      cases h
  | ok d' =>
      rw [hd] at h
      obtain ⟨timestamp', deleted', encoding'⟩ := d'
      cases h
      rw [DataInfo.asTuple_of_fromTuple hd]

/-- **One key.** Putting what the key holds changes neither table. -/
theorem Encoded.put_of_holds (h : T.Encoded z) {key : String} {v : StoredValue}
    (hv : T.Holds z key v) : T.put z key v = T := by
  obtain ⟨hp, info, hi, hd⟩ := hv
  obtain ⟨d, rfl⟩ := h _ info hi
  have hrecord := zSerialize_of_decodeDataInfo hd
  unfold Tables.put
  rw [hrecord, insert_of_getElem?_eq_some hp, insert_of_getElem?_eq_some hi]

end Tables

namespace Session

variable {z : ZExt} {s : Session} {storage : RedbStorage} {T : Tables}

/-- A call that reads leaves the tables as they are. -/
theorem Serves.step_read (hs : s.Serves storage T) {c : StorageCall} (hc : c.isWrite = false)
    (fs : List (Option String)) : (s.step z (.call c, fs)).2.Serves storage T := by
  have hread := StorageCall.spec_read hc z storage.config.readOnly T
  rcases step_call (z := z) hs c fs with ⟨-, -, -, hs'⟩ | ⟨-, hs'⟩
  · exact hs'
  · rwa [hread] at hs'

/-- Putting what the key holds leaves them as they are as well. -/
theorem Serves.step_put_same (hs : s.Serves storage T) (hT : T.Encoded z) {key : String}
    {v : StoredValue} (hv : T.Holds z key v) (fs : List (Option String)) :
    (s.step z (.call (.put key v), fs)).2.Serves storage T := by
  have hsame : ((StorageCall.put key v).spec z storage.config.readOnly T).2 = T := by
    unfold StorageCall.spec
    cases storage.config.readOnly with
    | true => rfl
    | false => exact hT.put_of_holds hv
  rcases step_call (z := z) hs (.put key v) fs with ⟨-, -, -, hs'⟩ | ⟨-, hs'⟩
  · exact hs'
  · rwa [hsame] at hs'

/-- What a `get` has returned is what the tables hold. -/
theorem Serves.holds_of_get (hs : s.Serves storage T) {key : String} {v : StoredValue}
    {fs : List (Option String)} (h : (s.step z (.call (.get key), fs)).1 = .ok (.value (some v))) :
    T.Holds z key v := by
  have hspec := hs.spec_of_ok h
  obtain ⟨o, ho, hv⟩ := map_eq_ok.mp hspec
  cases hv
  exact Tables.get_eq_some_iff.mp ho

/-- So is everything `get_all` has returned. -/
theorem Serves.holds_of_getAll (hs : s.Serves storage T) {fs : List (Option String)}
    {l : List (String × StoredValue)} (h : (s.step z (.call .getAll, fs)).1 = .ok (.entries l))
    {e : String × StoredValue} (he : e ∈ l) : T.Holds z e.1 e.2 := by
  have hspec := hs.spec_of_ok h
  obtain ⟨l', hl', hl⟩ := map_eq_ok.mp hspec
  cases hl
  exact Tables.get_eq_some_iff.mp (Tables.get_of_scan hl' he)

/-- **Writing back what was read changes nothing.** `from_tuple` accepts the tuples whose id is
not all zero, and `as_tuple` restores each of them. At the end of every run that leaves the
database open, putting the value that `get` has returned leaves both tables as they are, and so
does putting entries that `get_all` has returned, in any order and any number of times, whatever
fails in these calls. -/
theorem run_write_back (z : ZExt) :
    (∀ t : DataInfoTuple,
      ((∃ d, DataInfo.fromTuple t = .ok d) ↔ ∃ b ∈ t.2.1.toList, b ≠ 0) ∧
        ∀ d, DataInfo.fromTuple t = .ok d → d.asTuple = t) ∧
    ∀ {disk : Disk} {path : PathBuf}, disk.Fresh path →
      ∀ (buf : Bytes) (steps : List (Action × List (Option String))) {s : Session},
      s = (Runs.run (step z) (start disk path buf) steps).2 →
      ∀ {storage : RedbStorage}, s.storage = some storage →
      ∃ T : Tables, s.disk.read s.path = some (.database T.db true) ∧
        (∀ key v fs fs', (s.step z (.call (.get key), fs)).1 = .ok (.value (some v)) →
          ((s.step z (.call (.get key), fs)).2.step z (.call (.put key v), fs')).2.disk.read s.path
            = some (.database T.db true)) ∧
        ∀ fs l, (s.step z (.call .getAll, fs)).1 = .ok (.entries l) →
          ∀ puts : List ((String × StoredValue) × List (Option String)), (∀ p ∈ puts, p.1 ∈ l) →
            (Runs.run (step z) (s.step z (.call .getAll, fs)).2
                (puts.map fun p => (.call (.put p.1.1 p.1.2), p.2))).2.disk.read s.path
              = some (.database T.db true) := by
  refine ⟨fun t => ⟨DataInfo.fromTuple_ok_iff t, fun d => DataInfo.asTuple_of_fromTuple⟩, ?_⟩
  intro disk path hd buf steps s hrun storage hstorage
  obtain ⟨T, hT, hhas⟩ := run_tables (z := z) (P := Tables.Encoded z) Tables.encoded_empty
    (fun T c ro h => h.spec c ro) hd buf steps
  rw [← hrun] at hhas
  obtain ⟨storage', hs⟩ | hclosed := hhas
  swap
  · rw [hclosed.1] at hstorage
    cases hstorage
  refine ⟨T, hs.read_eq, ?_, ?_⟩
  · intro key v fs fs' hget
    exact hs.read_path ((hs.step_read rfl fs).step_put_same hT (hs.holds_of_get hget) fs')
  · intro fs l hall puts hputs
    refine hs.read_path (Runs.run_inv (fun s : Session => s.Serves storage' T) ?_
      (hs.step_read rfl fs))
    -- every put is of an entry, and the entries stay what they are
    intro s' a ha hs'
    obtain ⟨p, hp, rfl⟩ := List.mem_map.mp ha
    exact hs'.step_put_same hT (hs.holds_of_getAll hall (hputs p hp)) p.2

/-- A value that was put with an empty schema is read without one, and putting it back changes
nothing. -/
theorem run_write_back_empty_schema :
    let s := (Runs.run (step .layout) (start .blank (.ofString "s.redb") [])
      [(.reopen .new "s", []), (.call (.put "k" ⟨[1], .first, ⟨0, some []⟩⟩), [])]).2
    ((s.step .layout (.call (.get "k"), [])).2.step .layout
        (.call (.put "k" ⟨[1], .first, ⟨0, none⟩⟩), [])).2.disk.read s.path
      = s.disk.read s.path := by
  intro s
  have hstorage : s.storage = some ⟨.ofString "s.redb", .new, "s"⟩ := by rfl
  obtain ⟨T, hread, hget, -⟩ :=
    (run_write_back .layout).2 (Or.inl ⟨rfl, rfl⟩) [] _ (s := s) rfl hstorage
  rw [hread]
  exact hget "k" _ [] [] (by decide +kernel)

end Session

end ZenohRedb
