import ZenohRedb.Plugin.NoneKey
import ZenohRedb.Storage.Queries

set_option autoImplicit false

/-! # Enumeration and point reads

Replication starts from `get_all_entries`, which reads the stored strings back as keys, while
`get` goes the other way and looks a key up under its string. The storage below may hold any
strings (`run_getAllEntries`): what is listed is what `get` finds, and what is skipped is
exactly the strings that no key has.
-/

namespace ZenohRedb

open RedbStoragePlugin (keyStr keyExpr entryKeys storedData)

/-- The strings that are skipped. -/
theorem keyExpr_eq_none_iff {K : ZKeyExpr} {s : String} :
    keyExpr K s = none ↔ s ≠ NONE_KEY ∧ OwnedKeyExpr.new K s = none := by
  unfold keyExpr
  by_cases h : s = NONE_KEY
  · simp [h]
  · cases OwnedKeyExpr.new K s <;> simp [h]

/-- An entry is listed under its string exactly if the string is read back as a key. -/
theorem notListed_iff {K : ZKeyExpr} {l : List (String × StoredValue)} {s : String}
    (hs : s ∈ l.map Prod.fst) :
    (∀ key ∈ (entryKeys K l).map Prod.fst, keyStr key ≠ s) ↔ keyExpr K s = none := by
  rw [map_fst_entryKeys]
  constructor
  · intro hmissing
    cases hkey : keyExpr K s with
    | none => rfl
    | some key =>
        have hlisted := List.mem_filterMap.mpr ⟨s, hs, hkey⟩
        exact absurd (keyStr_of_keyExpr hkey) (hmissing key hlisted)
  · intro hnone key hlisted hkey
    obtain ⟨s', -, hkey'⟩ := List.mem_filterMap.mp hlisted
    rw [← hkey, keyStr_of_keyExpr hkey', hkey'] at hnone
    cases hnone

namespace Session

variable {z : ZExt} {K : ZKeyExpr} {s : Session} {storage : RedbStorage} {T : Tables}

/-- What `get` of the plugin returns, on a plugin configured in any way. -/
theorem Serves.plugin_get (hs : s.Serves storage T) (hT : T.Consistent z)
    (storageConfig : RedbStorageConfig) (key : Option (OwnedKeyExpr K)) (parameters : String) :
    (s.pluginStep z storageConfig (.get key parameters, [])).1
      = .ok (.data (storedData (T.entry z (keyStr key)))) := by
  have hget := hs.answer_get hT (keyStr key)
  unfold answer at hget
  rw [pluginStep_eq hs]
  simp only [PluginCall.isWrite, Bool.false_and, Bool.false_eq_true, if_false,
    PluginCall.storageCall, hget, PluginCall.result, PluginCall.reply]

theorem Serves.plugin_getAllEntries (hs : s.Serves storage T) (hT : T.Consistent z)
    (storageConfig : RedbStorageConfig) :
    (s.pluginStep z storageConfig (.getAllEntries, [])).1
      = .ok (.entries (entryKeys K (T.entries z))) := by
  have hall := hs.answer_getAll hT
  unfold answer at hall
  rw [pluginStep_eq hs]
  simp only [PluginCall.isWrite, Bool.false_and, Bool.false_eq_true, if_false,
    PluginCall.storageCall, hall, PluginCall.result, PluginCall.reply]

/-- **The enumeration agrees with point reads.** At the end of every run that leaves the
database open, `get_all_entries` succeeds. For every key it lists, `get` returns one value, with
the timestamp that is listed; no key is listed twice; and a live string is the string of no
listed key exactly if it is neither `NONE_KEY` nor a key expression. -/
theorem run_getAllEntries (z : ZExt) (K : ZKeyExpr) {disk : Disk} {path : PathBuf}
    (hd : disk.Fresh path) (buf : Bytes) (steps : List (Action × List (Option String)))
    {s : Session} (hs : s = (Runs.run (step z) (start disk path buf) steps).2)
    {storage : RedbStorage} (hstorage : s.storage = some storage)
    (storageConfig : RedbStorageConfig) :
    ∃ l : List (Option (OwnedKeyExpr K) × Timestamp),
      (s.pluginStep z storageConfig (.getAllEntries, [])).1 = .ok (.entries l) ∧
      (∀ key timestamp, (key, timestamp) ∈ l → ∃ d : StoredData, d.timestamp = timestamp ∧
        ∀ parameters, (s.pluginStep z storageConfig (.get key parameters, [])).1
          = .ok (.data [d])) ∧
      (l.map Prod.fst).Nodup ∧
      ∀ string, s.Live z string →
        ((∀ key ∈ l.map Prod.fst, keyStr key ≠ string) ↔
          string ≠ NONE_KEY ∧ OwnedKeyExpr.new K string = none) := by
  subst hs
  obtain ⟨T, hT, hs⟩ := (run_inv z hd buf steps).serves hstorage
  refine ⟨entryKeys K (T.entries z), hs.plugin_getAllEntries hT storageConfig, ?_,
    nodup_entryKeys (nodup_of_pairwise_keyLt (Tables.pairwise_entries T)), ?_⟩
  · intro key timestamp hmem
    obtain ⟨string, hkey, v, hv, rfl⟩ := mem_entryKeys.mp hmem
    refine ⟨⟨v.payload, v.encoding, v.timestamp⟩, rfl, fun parameters => ?_⟩
    -- the string that was read back is the one the key is looked up under
    rw [hs.plugin_get hT, keyStr_of_keyExpr hkey, (Tables.mem_entries string v).mp hv]
    rfl
  · intro string hlive
    obtain ⟨v, hv⟩ := (hs.live_iff hT string).mp hlive
    have hstring : string ∈ (T.entries z).map Prod.fst :=
      List.mem_map.mpr ⟨(string, v), (Tables.mem_entries string v).mpr hv, rfl⟩
    exact (notListed_iff hstring).trans keyExpr_eq_none_iff

/-- The empty string is stored and skipped; the missing key is listed. -/
theorem run_getAllEntries_skips :
    let value : StoredValue := ⟨[1], .first, ⟨0, none⟩⟩
    let s := (Runs.run (step .layout) (start .blank (.ofString "s.redb") [])
      [(.reopen .new "s", []), (.call (.put "" value), []), (.call (.put NONE_KEY value), [])]).2
    ∃ l : List (Option (OwnedKeyExpr .plain) × Timestamp),
      (s.pluginStep .layout .new (.getAllEntries, [])).1 = .ok (.entries l) ∧
      (l.map Prod.fst).Nodup ∧ (∃ key ∈ l.map Prod.fst, keyStr key = NONE_KEY) ∧
      ∀ key ∈ l.map Prod.fst, keyStr key ≠ "" := by
  intro value s
  have hstorage : s.storage = some ⟨.ofString "s.redb", .new, "s"⟩ := by rfl
  obtain ⟨l, hl, -, hnodup, hlive⟩ :=
    run_getAllEntries .layout .plain (Or.inl ⟨rfl, rfl⟩) [] _ (s := s) rfl hstorage .new
  refine ⟨l, hl, hnodup, ?_, (hlive "" ⟨value, by decide +kernel⟩).mpr (by decide)⟩
  by_contra hnone
  have hmissing := (hlive NONE_KEY ⟨value, by decide +kernel⟩).mp
    fun key hkey heq => hnone ⟨key, hkey, heq⟩
  exact hmissing.1 rfl

end Session

end ZenohRedb
