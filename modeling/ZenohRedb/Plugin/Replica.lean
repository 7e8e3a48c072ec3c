import ZenohRedb.Plugin.ReadOnly
import ZenohRedb.Plugin.NoneKey
import ZenohRedb.Storage.Copy

set_option autoImplicit false

/-! # Bringing a replica up to date

A storage that is replicated is read by `get_all_entries`, which lists the keys, and by `get`,
which returns their values; a replica is filled by `put`. `run_replica` says that this is enough:
if the storage has been used through the plugin only, and what its `get` returned has been put
for every listed key, the replica has the same tables, byte for byte.

A client of the plugin (`methodStep`) is the client of a storage that makes the calls of its
methods (`methodStep_snd`), so what is said of copies in `Storage/Copy.lean` carries over.
-/

namespace ZenohRedb

open TxStore
open RedbStoragePlugin (keyStr keyExpr entryKeys storedData)

/-- What a client of the plugin does: open the storage again, or call a method. -/
inductive MethodAction (K : ZKeyExpr)
  | reopen (config : RedbStorageConfig) (name : String)
  | call (c : PluginCall K)

/-- The action of the storage behind it. -/
def MethodAction.action {K : ZKeyExpr} : MethodAction K → Action
  | .reopen config name => .reopen config name
  | .call c => .call c.storageCall

/-- Every string but the empty one is a key expression. -/
def ZKeyExpr.nonempty : ZKeyExpr where
  valid s := decide (s ≠ "")
  valid_of_plain s h := by
    refine decide_eq_true ?_
    rintro rfl
    exact (h [] (by simp [Str.splitChars])).1 rfl

namespace Session

/-- One action of a client of the plugin, with the faults that happen in it. The plugin has the
configuration of its storage. -/
def methodStep {K : ZKeyExpr} (z : ZExt) (s : Session) :
    MethodAction K × List (Option String) → LayeredResult K × Session
  | (.reopen config name, faults) =>
      match s.step z (.reopen config name, faults) with
      | (r, s) => (.storage r, s)
  | (.call c, faults) =>
      match s.storage with
      | none => (.plugin (.error (.text "no storage")), s)
      | some storage =>
          match s.pluginStep z storage.config (c, faults) with
          | (r, s) => (.plugin r, s)

/-! ## One action -/

section Step

variable {z : ZExt} {K : ZKeyExpr} {s : Session} {storage : RedbStorage} {T : Tables}

/-- A storage that is read-only refuses a write and leaves everything as it is. -/
theorem step_refused (h : s.Serves storage T) (hro : storage.config.readOnly = true)
    {c : StorageCall} (hc : c.isWrite = true) (fs : List (Option String)) :
    (s.step z (.call c, fs)).2 = s := by
  have hexec : ∃ r, (c.prog z storage).exec fs s.buf T.db = (r, s.buf, T.db) := by
    cases c with
    | put key value =>
        refine ⟨.error readOnlyError, ?_⟩
        simp only [StorageCall.prog, exec_bind_pure, put_readOnly z storage _ key value fs _ hro]
        rfl
    | delete key =>
        refine ⟨.error readOnlyError, ?_⟩
        simp only [StorageCall.prog, exec_bind_pure, delete_readOnly storage _ key fs _ hro]
        rfl
    | clear =>
        refine ⟨.error readOnlyError, ?_⟩
        simp only [StorageCall.prog, exec_bind_pure, clear_readOnly storage _ fs _ hro]
        rfl
    | _ => cases hc
  obtain ⟨r, hexec⟩ := hexec
  rw [h.step_call_eq, hexec, Disk.write_read h.read_eq]

/-- A method of a client that has the storage open. -/
theorem Serves.methodStep_call (h : s.Serves storage T) (c : PluginCall K)
    (fs : List (Option String)) :
    s.methodStep z (.call c, fs) =
      (.plugin (s.pluginStep z storage.config (c, fs)).1,
        (s.pluginStep z storage.config (c, fs)).2) := by
  simp only [methodStep, h.storage_eq]

/-- **An action leaves the client as the action of the storage behind it does.** -/
theorem methodStep_snd (h : s.Has T) (a : MethodAction K) (fs : List (Option String)) :
    (s.methodStep z (a, fs)).2 = (s.step z (a.action, fs)).2 := by
  cases a with
  | reopen config name => rfl
  | call c =>
      rcases h with ⟨storage, hs⟩ | hs
      · rw [hs.methodStep_call, pluginStep_eq hs]
        by_cases hrefused : (c.isWrite && storage.config.readOnly) = true
        · rw [if_pos hrefused]
          rw [Bool.and_eq_true] at hrefused
          exact (step_refused hs hrefused.2 (c.isWrite_storageCall.trans hrefused.1) fs).symm
        · rw [if_neg hrefused]
          rfl
      · simp only [methodStep, hs.1, MethodAction.action, step_call_closed hs.1]

/-- A method that succeeds is a call of the storage that succeeds. -/
theorem methodStep_ok (h : s.Has T) {c : PluginCall K} {fs : List (Option String)}
    {a : PluginReply K} (hr : (s.methodStep z (.call c, fs)).1 = .plugin (.ok a)) :
    ∃ r, (s.step z (.call c.storageCall, fs)).1 = .ok r ∧ a = c.reply r := by
  rcases h with ⟨storage, hs⟩ | hs
  · rw [hs.methodStep_call, pluginStep_eq hs] at hr
    by_cases hrefused : (c.isWrite && storage.config.readOnly) = true
    · rw [if_pos hrefused] at hr
      cases hr
    · rw [if_neg hrefused] at hr
      cases hstep : (s.step z (.call c.storageCall, fs)).1 with
      | error e =>
          rw [hstep] at hr
          cases hr
      | ok r =>
          rw [hstep] at hr
          cases hr
          exact ⟨r, rfl, rfl⟩
  · simp only [methodStep, hs.1] at hr
    cases hr

/-- A method that succeeds is a method of a client that has the storage open. -/
theorem methodStep_serves (h : s.Has T) {c : PluginCall K} {fs : List (Option String)}
    {a : PluginReply K} (hr : (s.methodStep z (.call c, fs)).1 = .plugin (.ok a)) :
    ∃ storage, s.Serves storage T := by
  rcases h with hs | hs
  · exact hs
  · simp only [methodStep, hs.1] at hr
    cases hr

/-- What a `get` has returned is what the tables hold. -/
theorem Serves.holds_of_method_get (h : s.Serves storage T) {key : Option (OwnedKeyExpr K)}
    {parameters : String} {fs : List (Option String)} {d : StoredData}
    (hr : (s.methodStep z (.call (.get key parameters), fs)).1 = .plugin (.ok (.data [d]))) :
    T.Holds z (keyStr key) ⟨d.payload, d.timestamp, d.encoding⟩ := by
  obtain ⟨r, hstep, hreply⟩ := methodStep_ok (Or.inl ⟨storage, h⟩) hr
  obtain ⟨o, -, rfl⟩ := map_eq_ok.mp (h.spec_of_ok hstep)
  cases o with
  | none => cases hreply
  | some v =>
      cases hreply
      exact h.holds_of_get hstep

/-- What a `get_all_entries` has returned are the keys of the entries. -/
theorem Serves.entries_of_method (h : s.Serves storage T) (hT : T.Consistent z)
    {fs : List (Option String)} {entries : List (Option (OwnedKeyExpr K) × Timestamp)}
    (hr : (s.methodStep z (.call .getAllEntries, fs)).1 = .plugin (.ok (.entries entries))) :
    entries = entryKeys K (T.entries z) := by
  obtain ⟨r, hstep, hreply⟩ := methodStep_ok (Or.inl ⟨storage, h⟩) hr
  obtain ⟨l, -, rfl⟩ := map_eq_ok.mp (h.spec_of_ok hstep)
  have hl := h.entries_of_getAll hT hstep
  cases hreply
  rw [hl]

end Step

/-! ## Whole runs -/

section Runs

variable {z : ZExt} {K : ZKeyExpr} {s : Session} {T : Tables}

variable (K) in
/-- Every string that is stored is the string of a key. -/
def Keyed (T : Tables) : Prop :=
  ∀ k ∈ T.dataInfo, ∃ key : Option (OwnedKeyExpr K), Str.asBytes (keyStr key) = k

/-- The methods name no other strings. -/
theorem Keyed.spec (h : Keyed K T) (c : PluginCall K) (ro : Bool) :
    Keyed K (c.storageCall.spec z ro T).2 := by
  refine c.storageCall.spec_keeps h ?_ ?_ ?_ ro
  · intro key value hc k hk
    rcases Std.ExtTreeMap.mem_insert.mp hk with heq | hk
    · cases c with
      | put key' payload encoding timestamp =>
          cases hc
          exact ⟨key', Std.LawfulEqCmp.eq_of_compare heq⟩
      | _ => cases hc
    · exact h k hk
  · intro key k hk
    exact h k (Std.ExtTreeMap.mem_of_mem_erase hk)
  · intro k hk
    exact absurd hk Std.ExtTreeMap.not_mem_empty

/-- The tables of a client of the plugin are consistent, their records are serialized tuples, and
their keys are strings of keys. -/
theorem run_keyed {disk : Disk} {path : PathBuf} (hd : disk.Fresh path) (buf : Bytes)
    (steps : List (MethodAction K × List (Option String))) :
    ∃ T : Tables, (T.Consistent z ∧ T.Encoded z ∧ Keyed K T) ∧
      (Runs.run (methodStep z) (start disk path buf) steps).2.Has T := by
  refine Runs.run_inv (fun s : Session => ∃ T : Tables,
    (T.Consistent z ∧ T.Encoded z ∧ Keyed K T) ∧ s.Has T) ?_ ?_
  · rintro s ⟨a, fs⟩ - ⟨T, ⟨hT, he, hkeyed⟩, hs⟩
    rw [methodStep_snd hs]
    rcases hs.step_cases (z := z) a.action fs with hs' | ⟨storage, c, hc, -, hs'⟩
    · exact ⟨T, ⟨hT, he, hkeyed⟩, hs'⟩
    · refine ⟨_, ⟨hT.spec c _, he.spec c _, ?_⟩, hs'⟩
      cases a with
      | reopen config name => cases hc
      | call c' =>
          cases hc
          exact hkeyed.spec c' _
  · refine ⟨.empty, ⟨Tables.consistent_empty, Tables.encoded_empty, ?_⟩, Or.inr (start_closed hd)⟩
    exact fun k hk => absurd hk Std.ExtTreeMap.not_mem_empty

/-- The actions that fill a replica of the storage of `s`: opening it, methods that read, and
putting a value that `get` has returned for its key. -/
def Replicates (z : ZExt) (s : Session) : MethodAction K → Prop
  | .reopen _ _ => True
  | .call (.put key payload encoding timestamp) => ∃ parameters fs,
      (s.methodStep z (.call (.get key parameters), fs)).1
        = .plugin (.ok (.data [⟨payload, encoding, timestamp⟩]))
  | .call c => c.isWrite = false

/-- They are actions of a copy of the entries. -/
theorem Replicates.copies {storage : RedbStorage} (hs : s.Serves storage T) {a : MethodAction K}
    (h : Replicates z s a) : Copies (T.entries z) a.action := by
  cases a with
  | reopen config name => trivial
  | call c =>
      cases c with
      | put key payload encoding timestamp =>
          obtain ⟨parameters, fs, hget⟩ := h
          exact Tables.mem_entries_iff_holds.mpr (hs.holds_of_method_get hget)
      | delete key timestamp => cases h
      | get key parameters => rfl
      | getAllEntries => rfl

/-- **A replica is exact.** Let a storage be used through the methods of the plugin in any way,
whatever fails in them, and let `get_all_entries` return a list in the end. Let another client
with a fresh database open it, call methods that read, and put values that `get` returned for
their keys, whatever fails in that. If for every listed key such a put has succeeded at least
once, the two databases have the same tables, byte for byte. -/
theorem run_replica (z : ZExt) (K : ZKeyExpr) {disk disk' : Disk} {path path' : PathBuf}
    (hd : disk.Fresh path) (hd' : disk'.Fresh path') (buf buf' : Bytes)
    (steps : List (MethodAction K × List (Option String)))
    (hrun : s = (Runs.run (methodStep z) (start disk path buf) steps).2)
    {entries : List (Option (OwnedKeyExpr K) × Timestamp)} {fs : List (Option String)}
    (hl : (s.methodStep (K := K) z (.call .getAllEntries, fs)).1
      = .plugin (.ok (.entries entries)))
    {fill : List (MethodAction K × List (Option String))} (hfill : ∀ a ∈ fill, Replicates z s a.1)
    (hdone : ∀ e ∈ entries, ∃ (d : StoredData) (fs' : List (Option String)),
      ((.call (.put e.1 d.payload d.encoding d.timestamp), fs'),
        .plugin (.ok (.insertion .inserted))) ∈
        fill.zip (Runs.run (methodStep z) (start disk' path' buf') fill).1)
    {s' : Session} (hrun' : s' = (Runs.run (methodStep z) (start disk' path' buf') fill).2)
    {storage' : RedbStorage} (hopen : s'.storage = some storage') :
    ∃ T : Tables, s.disk.read s.path = some (.database T.db true) ∧
      s'.disk.read s'.path = some (.database T.db true) := by
  obtain ⟨T, ⟨hT, he, hkeyed⟩, hhas⟩ := run_keyed (z := z) (K := K) hd buf steps
  rw [← hrun] at hhas
  obtain ⟨storage, hs⟩ := methodStep_serves hhas hl
  have hentries := hs.entries_of_method hT hl
  have hheld : ∀ e ∈ T.entries z, T.Holds z e.1 e.2 := fun e hmem =>
    Tables.mem_entries_iff_holds.mp hmem
  have hlist : ∀ k ∈ T.dataInfo, ∃ e ∈ T.entries z, Str.asBytes e.1 = k := by
    intro k hk
    obtain ⟨string, v, rfl, hv⟩ := hT.holds_of_mem hk
    exact ⟨(string, v), Tables.mem_entries_iff_holds.mpr hv, rfl⟩
  rw [hrun'] at hopen
  have hs' := run_copied (methodStep z) hT he hheld hlist
    (fun s'' T'' h b hb => ⟨b.1.action, b.2, (hfill b hb).copies hs, methodStep_snd h b.1 b.2⟩)
    (start_closed hd') ?_ hopen
  · rw [← hrun'] at hs'
    exact ⟨T, hs.read_eq, hs'.read_eq⟩
  -- an entry is listed under its key, and what was put for this key is its value
  rintro ⟨string, v⟩ hmem
  have hentry := (Tables.mem_entries string v).mp hmem
  obtain ⟨key, hkey⟩ := hkeyed _ ((hT.entry_isSome string).mp (by rw [hentry]; rfl))
  obtain rfl : keyStr key = string := Str.asBytes_inj.mp hkey
  have hlisted : (collapseKey key, v.timestamp) ∈ entries := by
    rw [hentries, mem_entryKeys]
    exact ⟨keyStr key, keyExpr_keyStr key, v, hmem, rfl⟩
  obtain ⟨d, fs', hzip⟩ := hdone _ hlisted
  have hput := (hfill _ (List.of_mem_zip hzip).1).copies hs
  have hvalue := (Tables.mem_entries _ _).mp hput
  rw [keyStr_collapseKey, hentry] at hvalue
  obtain rfl : v = ⟨d.payload, d.timestamp, d.encoding⟩ := Option.some.inj hvalue
  refine ⟨_, _, hzip, fun s'' T'' h hr => ⟨fs', ?_⟩⟩
  obtain ⟨r, hstep, -⟩ := methodStep_ok h hr
  rw [methodStep_snd h]
  simp only [MethodAction.action, PluginCall.storageCall, keyStr_collapseKey] at hstep ⊢
  rw [(h.put_ok hstep).1] at hstep
  exact ⟨hstep, trivial⟩

/-- The missing key and a key expression: a put to the replica fails and is made again, and an empty
schema, which `get` does not return, makes no difference. -/
theorem run_replica_retry :
    let key : Option (OwnedKeyExpr .nonempty) := some ⟨"a", rfl⟩
    let s := (Runs.run (methodStep .layout) (start .blank (.ofString "s.redb") [])
      [(.reopen .new "s", []), (.call (.put key [1] ⟨0, some []⟩ .first), []),
        (.call (.put none [2] ⟨1, none⟩ .first), [])]).2
    let s' := (Runs.run (methodStep (K := .nonempty) .layout) (start .blank (.ofString "t.redb") [])
      [(.reopen .new "t", []), (.call (.put key [1] ⟨0, none⟩ .first), [none, some "full"]),
        (.call (.put none [2] ⟨1, none⟩ .first), []),
        (.call (.put key [1] ⟨0, none⟩ .first), [])]).2
    ∃ T : Tables, s.disk.read s.path = some (.database T.db true) ∧
      s'.disk.read s'.path = some (.database T.db true) := by
  intro key s s'
  have hfresh : ∀ name, Disk.blank.Fresh (.ofString name) := fun _ => Or.inl ⟨rfl, rfl⟩
  have hopen : s'.storage = some ⟨.ofString "t.redb", .new, "t"⟩ := by rfl
  have hl : (s.methodStep (K := .nonempty) .layout (.call .getAllEntries, [])).1
      = .plugin (.ok (.entries [(none, .first), (key, .first)])) := by
    decide +kernel
  refine run_replica .layout .nonempty (hfresh "s.redb") (hfresh "t.redb") [] [] _ (@rfl _ s) hl
    ?_ ?_ (@rfl _ s') hopen
  · intro a ha
    simp only [List.mem_cons, List.not_mem_nil, or_false] at ha
    rcases ha with rfl | rfl | rfl | rfl
    · trivial
    · exact ⟨"", [], by decide +kernel⟩
    · exact ⟨"", [], by decide +kernel⟩
    · exact ⟨"", [], by decide +kernel⟩
  · intro e he
    simp only [List.mem_cons, List.not_mem_nil, or_false] at he
    rcases he with rfl | rfl
    · exact ⟨⟨[2], ⟨1, none⟩, .first⟩, [], List.mem_of_getElem? (i := 2) (by rfl)⟩
    · exact ⟨⟨[1], ⟨0, none⟩, .first⟩, [], List.mem_of_getElem? (i := 3) (by rfl)⟩

end Runs

end Session

end ZenohRedb
