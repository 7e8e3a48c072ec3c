import ZenohRedb.Plugin.Storage
import ZenohRedb.Storage.Refinement

set_option autoImplicit false

/-! # The plugin as a map from optional keys

What Zenoh's storage interface is for: a map from optional key expressions to values
(`PluginMap`). The plugin stores a key under a string, and the string of the missing key,
`NONE_KEY`, is a key expression as well. So the plugin serves a map in which the key
expression `NONE_KEY` and the missing key are one key (`run_collapse`), and it is the map of
the interface in every run that does not name that key expression (`run_avoiding`).
-/

namespace ZenohRedb

open TxStore
open RedbStoragePlugin (keyStr keyExpr entryKeys storedData)

/-! ## The map of the interface -/

/-- A map from optional key expressions to values. -/
abbrev PluginMap (K : ZKeyExpr) := Option (OwnedKeyExpr K) → Option StoredValue

namespace PluginMap

variable {K : ZKeyExpr}

/-- What a call does to the map. -/
def call (m : PluginMap K) : PluginCall K → PluginMap K
  | .put key payload encoding timestamp =>
      Function.update m key (some ⟨payload, timestamp, encoding⟩)
  | .delete key _ => Function.update m key none
  | .get _ _ => m
  | .getAllEntries => m

/-- The map after some calls, starting without entries: every key holds the value of its last
`put`, unless a `delete` of that key followed. -/
def after (cs : List (PluginCall K)) : PluginMap K := cs.foldl call fun _ => none

/-- What the interface promises a call on the map: `get` returns the value of the key alone,
or nothing, and `get_all_entries` every key that has a value, once, with its timestamp.
Encodings are compared in canonical form. -/
def Answers (m : PluginMap K) : PluginCall K → PluginReply K → Prop
  | .put _ _ _ _, r => r = .insertion .inserted
  | .delete _ _, r => r = .insertion .deleted
  | .get key _, r =>
      match m key with
      | none => r = .data []
      | some v => ∃ d : StoredData, r = .data [d] ∧ d.payload = v.payload ∧
          d.timestamp = v.timestamp ∧ d.encoding.canon = v.encoding.canon
  | .getAllEntries, r =>
      ∃ l, r = .entries l ∧ (l.map Prod.fst).Nodup ∧
        ∀ key timestamp, (key, timestamp) ∈ l ↔ ∃ v, m key = some v ∧ v.timestamp = timestamp

end PluginMap

/-! ## Keys and strings -/

section Keys

variable {K : ZKeyExpr}

/-- The key under whose string a key is stored: the key expression `NONE_KEY` shares its
string with the missing key. -/
def collapseKey (key : Option (OwnedKeyExpr K)) : Option (OwnedKeyExpr K) :=
  if key = some (.noneKey K) then none else key

theorem keyStr_collapseKey (key : Option (OwnedKeyExpr K)) :
    keyStr (collapseKey key) = keyStr key := by
  unfold collapseKey
  split
  · next h => rw [h]; rfl
  · rfl

/-- Reading back the string of a key. -/
theorem keyExpr_keyStr (key : Option (OwnedKeyExpr K)) :
    keyExpr K (keyStr key) = some (collapseKey key) := by
  cases key with
  | none => rfl
  | some k =>
      obtain ⟨s, hs⟩ := k
      by_cases h : s = NONE_KEY
      · -- the string is taken for the missing key before it is tried as a key expression
        subst h
        simp [keyExpr, keyStr, collapseKey, OwnedKeyExpr.noneKey]
      · simp [keyExpr, keyStr, collapseKey, OwnedKeyExpr.noneKey, OwnedKeyExpr.new, h, hs]

theorem keyStr_of_keyExpr {s : String} {key : Option (OwnedKeyExpr K)}
    (h : keyExpr K s = some key) : keyStr key = s := by
  unfold keyExpr OwnedKeyExpr.new at h
  by_cases hs : s = NONE_KEY
  · rw [if_pos hs] at h
    cases h
    exact hs.symm
  · rw [if_neg hs] at h
    by_cases hv : K.valid s = true
    · rw [dif_pos hv] at h
      cases h
      rfl
    · rw [dif_neg hv] at h
      cases h

/-- The keys `get_all_entries` returns are those its strings are read back as. -/
theorem map_fst_entryKeys (l : List (String × StoredValue)) :
    (entryKeys K l).map Prod.fst = (l.map Prod.fst).filterMap (keyExpr K) := by
  unfold entryKeys
  rw [List.map_filterMap, List.filterMap_map]
  congr 1
  funext e
  simp only [Function.comp_def, Option.map_map, Option.map_id']

/-- Different strings are read back as different keys. -/
theorem nodup_entryKeys {l : List (String × StoredValue)} (h : (l.map Prod.fst).Nodup) :
    ((entryKeys K l).map Prod.fst).Nodup := by
  rw [map_fst_entryKeys]
  refine List.Nodup.filterMap ?_ h
  intro s s' key hs hs'
  rw [← keyStr_of_keyExpr hs, ← keyStr_of_keyExpr hs']

theorem mem_entryKeys {l : List (String × StoredValue)} {key : Option (OwnedKeyExpr K)}
    {timestamp : Timestamp} : (key, timestamp) ∈ entryKeys K l ↔
      ∃ s, keyExpr K s = some key ∧ ∃ v, (s, v) ∈ l ∧ v.timestamp = timestamp := by
  unfold entryKeys
  rw [List.mem_filterMap]
  constructor
  · rintro ⟨⟨s, v⟩, hv, he⟩
    obtain ⟨key', hkey, he⟩ := Option.map_eq_some_iff.mp he
    cases he
    exact ⟨s, hkey, v, hv, rfl⟩
  · rintro ⟨s, hkey, v, hv, rfl⟩
    refine ⟨(s, v), hv, ?_⟩
    show (keyExpr K s).map _ = _
    rw [hkey]
    rfl

end Keys

namespace PluginCall

variable {K : ZKeyExpr}

/-- The key a call names, if it names one. -/
def key? : PluginCall K → Option (Option (OwnedKeyExpr K))
  | .put key _ _ _ => some key
  | .delete key _ => some key
  | .get key _ => some key
  | .getAllEntries => none

/-- The call with its key collapsed. -/
def collapse : PluginCall K → PluginCall K
  | .put key payload encoding timestamp => .put (collapseKey key) payload encoding timestamp
  | .delete key timestamp => .delete (collapseKey key) timestamp
  | .get key parameters => .get (collapseKey key) parameters
  | .getAllEntries => .getAllEntries

theorem isWrite_collapse (c : PluginCall K) : c.collapse.isWrite = c.isWrite := by
  cases c <;> rfl

/-- A call that does not name the key expression `NONE_KEY` is its own collapsed form. -/
theorem collapse_eq_self {c : PluginCall K} (h : c.key? ≠ some (some (.noneKey K))) :
    c.collapse = c := by
  have hkey : ∀ {key : Option (OwnedKeyExpr K)}, some key ≠ some (some (.noneKey K)) →
      collapseKey key = key := fun hk => if_neg fun he => hk (congrArg some he)
  cases c with
  | put key payload encoding timestamp => rw [collapse, hkey h]
  | delete key timestamp => rw [collapse, hkey h]
  | get key parameters => rw [collapse, hkey h]
  | getAllEntries => rfl

end PluginCall

/-! ## The map of strings encodes the map of keys -/

/-- The map of strings `M` holds what the map of keys `m` holds, and nothing else; the key
expression `NONE_KEY` is not a key of `m`. -/
structure Encodes {K : ZKeyExpr} (M : EntryMap) (m : PluginMap K) : Prop where
  value : ∀ s key, keyExpr K s = some key → M[s]? = m key
  isKey : ∀ s ∈ M, (keyExpr K s).isSome
  noneKey : m (some (.noneKey K)) = none

namespace Encodes

variable {K : ZKeyExpr} {M : EntryMap} {m : PluginMap K}

theorem empty : Encodes (K := K) ∅ fun _ => none where
  value _ _ _ := rfl
  isKey _ hs := absurd hs Std.ExtTreeMap.not_mem_empty
  noneKey := rfl

theorem get (h : Encodes M m) (key : Option (OwnedKeyExpr K)) :
    M[keyStr key]? = m (collapseKey key) := h.value _ _ (keyExpr_keyStr key)

theorem collapseKey_ne_noneKey (key : Option (OwnedKeyExpr K)) :
    collapseKey key ≠ some (.noneKey K) := by
  unfold collapseKey
  split
  · exact (Option.some_ne_none _).symm
  · assumption

/-- Two strings that are read back as keys are the same string when the keys are. -/
theorem keyStr_eq_iff {s : String} {key key' : Option (OwnedKeyExpr K)}
    (hs : keyExpr K s = some key') : keyStr key = s ↔ key' = collapseKey key := by
  constructor
  · rintro rfl
    rw [keyExpr_keyStr] at hs
    exact (Option.some.inj hs).symm
  · rintro rfl
    rw [← keyStr_collapseKey]
    exact keyStr_of_keyExpr hs

theorem put (h : Encodes M m) (key : Option (OwnedKeyExpr K)) (v : StoredValue) :
    Encodes (M.insert (keyStr key) v) (Function.update m (collapseKey key) (some v)) where
  value s key' hs := by
    rw [getElem?_insert_eq_ite]
    simp only [keyStr_eq_iff hs, Function.update_apply]
    rw [h.value s key' hs]
  isKey s hs := by
    rw [Std.ExtTreeMap.mem_insert, Std.LawfulEqCmp.compare_eq_iff_eq] at hs
    rcases hs with rfl | hs
    · rw [keyExpr_keyStr]
      rfl
    · exact h.isKey s hs
  noneKey := by
    rw [Function.update_of_ne (collapseKey_ne_noneKey key).symm]
    exact h.noneKey

theorem delete (h : Encodes M m) (key : Option (OwnedKeyExpr K)) :
    Encodes (M.erase (keyStr key)) (Function.update m (collapseKey key) none) where
  value s key' hs := by
    rw [getElem?_erase_eq_ite]
    simp only [keyStr_eq_iff hs, Function.update_apply]
    rw [h.value s key' hs]
  isKey s hs := h.isKey s (Std.ExtTreeMap.mem_of_mem_erase hs)
  noneKey := by
    rw [Function.update_of_ne (collapseKey_ne_noneKey key).symm]
    exact h.noneKey

/-- A call keeps the two maps in step. -/
theorem call (h : Encodes M m) (c : PluginCall K) :
    Encodes (M.call c.storageCall).2 (m.call c.collapse) := by
  cases c with
  | put key payload encoding timestamp => exact h.put key _
  | delete key timestamp => exact h.delete key
  | get key parameters => exact h
  | getAllEntries => exact h

/-- What `get_all_entries` returns when the storage lists the entries of `M`. -/
theorem answers_entries (h : Encodes M m) {l : List (String × StoredValue)}
    (hl : l.map (fun e => (e.1, e.2.canon)) = M.toList.map fun e => (e.1, e.2.canon)) :
    m.Answers .getAllEntries (.entries (entryKeys K l)) := by
  -- an entry of the list and the entry of the map it comes from differ in the encoding only
  have hmem : ∀ s ts, (∃ v, (s, v) ∈ l ∧ v.timestamp = ts) ↔
      ∃ v, M[s]? = some v ∧ v.timestamp = ts := by
    intro s ts
    have hstamp : l.map (fun e => (e.1, e.2.timestamp))
        = M.toList.map fun e => (e.1, e.2.timestamp) := by
      have := congrArg (List.map fun e : String × StoredValue => (e.1, e.2.timestamp)) hl
      simpa only [List.map_map, Function.comp_def, StoredValue.canon] using this
    have hin : (s, ts) ∈ l.map (fun e => (e.1, e.2.timestamp)) ↔
        (s, ts) ∈ M.toList.map fun e => (e.1, e.2.timestamp) := by rw [hstamp]
    simpa [Std.ExtTreeMap.mem_toList_iff_getElem?_eq_some] using hin
  refine ⟨_, rfl, ?_, ?_⟩
  · have hstrings : l.map Prod.fst = M.keys := by
      have := congrArg (List.map Prod.fst) hl
      simpa only [List.map_map, Function.comp_def, Std.ExtTreeMap.map_fst_toList_eq_keys] using this
    exact nodup_entryKeys (hstrings ▸ Std.ExtTreeMap.nodup_keys)
  · intro key ts
    rw [mem_entryKeys]
    constructor
    · rintro ⟨s, hkey, hv⟩
      obtain ⟨w, hw, hts⟩ := (hmem s ts).mp hv
      exact ⟨w, (h.value s key hkey).symm.trans hw, hts⟩
    · rintro ⟨w, hw, hts⟩
      -- a key with a value is not the key expression `NONE_KEY`, so its string is read back
      have hkey : collapseKey key = key := by
        refine if_neg fun he => ?_
        rw [he, h.noneKey] at hw
        cases hw
      have hback : keyExpr K (keyStr key) = some key := by rw [keyExpr_keyStr, hkey]
      exact ⟨keyStr key, hback, (hmem (keyStr key) ts).mpr ⟨w, by rw [h.get, hkey, hw], hts⟩⟩

/-- What `get` returns when the storage finds the value `M` has, up to its encoding. -/
theorem answers_get (h : Encodes M m) (key : Option (OwnedKeyExpr K)) (parameters : String)
    {v : Option StoredValue} (hv : v.map StoredValue.canon = M[keyStr key]?.map StoredValue.canon) :
    m.Answers (.get (collapseKey key) parameters) (.data (storedData v)) := by
  rw [h.get] at hv
  cases hm : m (collapseKey key) with
  | none =>
      rw [hm, Option.map_none, Option.map_eq_none_iff] at hv
      simp only [PluginMap.Answers, hm, hv, storedData]
  | some w =>
      rw [hm, Option.map_some, Option.map_eq_some_iff] at hv
      obtain ⟨u, rfl, hu⟩ := hv
      simp only [PluginMap.Answers, hm]
      simp only [StoredValue.canon, StoredValue.mk.injEq] at hu
      exact ⟨_, rfl, hu.1, hu.2.1, hu.2.2⟩

/-- A method answers as the map does, if the storage answers as its map does. -/
theorem answers (h : Encodes M m) (c : PluginCall K) {r : Reply}
    (hr : r.canon = (M.call c.storageCall).1.canon) : m.Answers c.collapse (c.reply r) := by
  cases c with
  | put key payload encoding timestamp => rfl
  | delete key timestamp => rfl
  | get key parameters =>
      cases r with
      | value v => exact h.answers_get key parameters (Reply.value.inj hr)
      | done => cases hr
      | entries l => cases hr
      | number n => cases hr
  | getAllEntries =>
      cases r with
      | entries l => exact h.answers_entries (Reply.entries.inj hr)
      | done => cases hr
      | value v => cases hr
      | number n => cases hr

end Encodes

/-! ## Runs -/

namespace Session

variable {z : ZExt} {K : ZKeyExpr} {s : Session} {m : PluginMap K}
  {storageConfig : RedbStorageConfig}

/-- The client has a writable storage whose contents encode the map. -/
def PluginRefines (z : ZExt) (s : Session) (m : PluginMap K) : Prop :=
  ∃ M : EntryMap, s.Refines z M ∧ Encodes M m

theorem pluginStep_refines (hro : storageConfig.readOnly = false) (h : s.PluginRefines z m)
    (c : PluginCall K) :
    (∃ r, (s.pluginStep z storageConfig (c, [])).1 = .ok r ∧ m.Answers c.collapse r) ∧
      (s.pluginStep z storageConfig (c, [])).2.PluginRefines z (m.call c.collapse) := by
  obtain ⟨M, hM, henc⟩ := h
  obtain ⟨storage, T, hs⟩ : ∃ storage T, s.Serves storage T := by
    obtain ⟨storage, T, hs, -⟩ := hM
    exact ⟨storage, T, hs⟩
  obtain ⟨hr, hM'⟩ := step_refines (a := .call c.storageCall) hM trivial
  rw [pluginStep_eq hs, hro, Bool.and_false, if_neg Bool.false_ne_true]
  refine ⟨?_, _, hM', henc.call c⟩
  cases hres : (s.step z (.call c.storageCall, [])).1 with
  | error e =>
      rw [hres] at hr
      cases hr
  | ok r =>
      rw [hres] at hr
      exact ⟨c.reply r, rfl, henc.answers c (Except.ok.inj hr)⟩

/-- In the run of `cs` every call is answered as the map after the calls before it answers
it. -/
def AnswersAsMap (z : ZExt) (storageConfig : RedbStorageConfig) (s : Session)
    (cs : List (PluginCall K)) : Prop :=
  ∀ before c rest, cs = before ++ c :: rest →
    ∃ r, ((Runs.run (pluginStep z storageConfig) s (before.map (·, []))).2.pluginStep z
        storageConfig (c, [])).1 = .ok r ∧
      (PluginMap.after before).Answers c r

/-- A client that has just opened a fresh database. -/
def opened (z : ZExt) (disk : Disk) (path : PathBuf) (buf : Bytes) (config : RedbStorageConfig)
    (name : String) : Session :=
  ((start disk path buf).step z (.reopen config name, [])).2

/-- Whatever the calls, the plugin serves the map in which the key expression `NONE_KEY` and
the missing key are one key. -/
theorem run_collapse (hro : storageConfig.readOnly = false) (h : s.PluginRefines z m)
    (cs : List (PluginCall K)) :
    (Runs.run (pluginStep z storageConfig) s (cs.map (·, []))).2.PluginRefines z
      ((cs.map PluginCall.collapse).foldl PluginMap.call m) := by
  induction cs generalizing s m with
  | nil => exact h
  | cons c cs ih => exact ih (pluginStep_refines hro h c).2

/-- **The plugin refines the map of the interface** in every run that does not name the key
expression `NONE_KEY`. -/
theorem run_avoiding (z : ZExt) (K : ZKeyExpr) {disk : Disk} {path : PathBuf}
    (hd : disk.Fresh path) (buf : Bytes) {config storageConfig : RedbStorageConfig}
    (hc : config.readOnly = false) (hro : storageConfig.readOnly = false) (name : String)
    {cs : List (PluginCall K)} (hcs : ∀ c ∈ cs, c.key? ≠ some (some (.noneKey K))) :
    (opened z disk path buf config name).AnswersAsMap z storageConfig cs := by
  rintro before c rest rfl
  -- the calls of the run are their own collapsed forms
  have hbefore : before.map PluginCall.collapse = before := by
    have hself : ∀ c' ∈ before, c'.collapse = c' := fun c' hc' =>
      PluginCall.collapse_eq_self (hcs c' (List.mem_append_left _ hc'))
    rw [List.map_congr_left hself, List.map_id']
  have hself : c.collapse = c := PluginCall.collapse_eq_self (hcs c (by simp))
  obtain ⟨-, hopen⟩ := start_refines (z := z) hd buf hc name
  have hrun := run_collapse (m := fun _ => none) hro ⟨∅, hopen, .empty⟩ before
  rw [hbefore] at hrun
  obtain ⟨⟨r, hr, hans⟩, -⟩ := pluginStep_refines hro hrun c
  rw [hself] at hans
  exact ⟨r, hr, hans⟩

/-- A key and the missing key do not interfere. -/
theorem run_avoiding_two_keys :
    (opened .layout .blank (.ofString "s.redb") [] .new "s").AnswersAsMap .layout .new
      [PluginCall.put none [1] ⟨0, none⟩ .first,
        .put (some ⟨"a", ZKeyExpr.plain.valid_of_plain "a" (by simp [Plain, Str.splitChars])⟩) [2]
          ⟨0, some []⟩ .first,
        .delete none .first, .getAllEntries] :=
  run_avoiding .layout .plain (Or.inl ⟨rfl, rfl⟩) [] rfl rfl "s"
    (by simp [PluginCall.key?, OwnedKeyExpr.noneKey, NONE_KEY])

/-- A value put under the key expression `NONE_KEY` is what `get` finds without a key. -/
theorem not_answersAsMap_noneKey :
    ¬ (opened .layout .blank (.ofString "s.redb") [] .new "s").AnswersAsMap .layout .new
      [PluginCall.put (K := .plain) (some (.noneKey .plain)) [1] ⟨0, none⟩ .first,
        .get none ""] := by
  intro h
  -- the call behind the `put` is the `get`; the map has nothing for it
  obtain ⟨r, hr, hans⟩ := h [_] (.get none "") [] rfl
  have hget : r = .data [⟨[1], ⟨0, none⟩, .first⟩] := (Except.ok.inj hr).symm
  have hmap : r = .data [] := hans
  rw [hget] at hmap
  cases hmap

end Session

end ZenohRedb
