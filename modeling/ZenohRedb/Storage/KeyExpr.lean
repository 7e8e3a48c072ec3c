import ZenohRedb.Storage.Session

set_option autoImplicit false

/-! # The key expression of a storage

The configuration says of `key_expr` that only keys matching this prefix will be stored. The
operations do not look at it: a `put` stores any key, and a storage keeps to its key expression
only if it is read-only or the client puts no other key (`run_keeps_to_keyExpr`).
-/

namespace ZenohRedb

open TxStore

/-- The key lies under the key expression: it starts with it, or matches it as a wildcard
pattern. -/
def Under (keyExpr key : String) : Prop :=
  Str.startsWith key keyExpr = true ∨ matchesWildcard key keyExpr = true

instance (keyExpr key : String) : Decidable (Under keyExpr key) :=
  inferInstanceAs (Decidable (_ ∨ _))

/-- A call puts no key but those of `P`. -/
def StorageCall.PutsIn (P : String → Prop) : StorageCall → Prop
  | .put key _ => P key
  | _ => True

/-! ## Tables with the keys of a set -/

namespace Tables

variable {z : ZExt} {T : Tables} {P : String → Prop} {key : String} {value : StoredValue}

/-- Every key of either table is one of `P`. -/
def Confined (P : String → Prop) (T : Tables) : Prop :=
  ∀ k, k ∈ T.payloads ∨ k ∈ T.dataInfo → ∃ key, Str.asBytes key = k ∧ P key

theorem confined_empty : Tables.empty.Confined P := by
  rintro k (hk | hk)
  · exact absurd hk Std.ExtTreeMap.not_mem_empty
  · exact absurd hk Std.ExtTreeMap.not_mem_empty

/-- What `put` adds to the keys. -/
theorem mem_put {k : Bytes} :
    k ∈ (T.put z key value).payloads ∨ k ∈ (T.put z key value).dataInfo ↔
      Str.asBytes key = k ∨ k ∈ T.payloads ∨ k ∈ T.dataInfo := by
  show k ∈ T.payloads.insert _ _ ∨ k ∈ T.dataInfo.insert _ _ ↔ _
  rw [Std.ExtTreeMap.mem_insert, Std.ExtTreeMap.mem_insert, Std.LawfulEqCmp.compare_eq_iff_eq]
  tauto

/-- **A put** keeps the tables confined exactly if its key is one of the set. -/
theorem Confined.put_iff (h : T.Confined P) : (T.put z key value).Confined P ↔ P key := by
  constructor
  · intro hput
    obtain ⟨key', hkey, hP⟩ := hput (Str.asBytes key) (mem_put.mpr (.inl rfl))
    rwa [Str.asBytes_inj.mp hkey] at hP
  · intro hP k hk
    rcases mem_put.mp hk with rfl | hk
    · exact ⟨key, rfl, hP⟩
    · exact h k hk

theorem Confined.delete (h : T.Confined P) : (T.delete key).Confined P := by
  rintro k (hk | hk)
  · exact h k (.inl (Std.ExtTreeMap.mem_of_mem_erase hk))
  · exact h k (.inr (Std.ExtTreeMap.mem_of_mem_erase hk))

/-- A call on a read-only storage keeps them confined, and so does one that puts no other
key. -/
theorem Confined.spec (h : T.Confined P) {c : StorageCall} {ro : Bool}
    (hc : ro = true ∨ c.PutsIn P) : (c.spec z ro T).2.Confined P := by
  rcases hc with rfl | hc
  · rwa [StorageCall.spec_readOnly]
  · refine c.spec_keeps h ?_ (fun _ => h.delete) confined_empty ro
    rintro key value rfl
    exact h.put_iff.mpr hc

end Tables

/-! ## Runs of calls -/

namespace Session

variable {z : ZExt} {s : Session} {storage : RedbStorage} {T : Tables} {P : String → Prop}
  {cs : List (StorageCall × List (Option String))}

/-- The actions that make the calls, with the faults that happen in each. -/
def calls (cs : List (StorageCall × List (Option String))) :
    List (Action × List (Option String)) :=
  cs.map fun c => (.call c.1, c.2)

/-- The storage keeps to the keys of `P`: in every state that the calls reach, both tables have
keys of `P` only, and a call that puts another key next leaves them as they are. -/
def KeepsTo (z : ZExt) (P : String → Prop) (s : Session)
    (cs : List (StorageCall × List (Option String))) : Prop :=
  ∀ done todo, cs = done ++ todo → ∀ s', s' = (Runs.run (step z) s (calls done)).2 →
    (∃ T : Tables, s'.disk.read s.path = some (.database T.db true) ∧ T.Confined P) ∧
    ∀ key value fs rest, todo = (.put key value, fs) :: rest → ¬ P key →
      (s'.step z (.call (.put key value), fs)).2.disk.read s.path = s'.disk.read s.path

/-- What is kept of the tables while a client makes calls. -/
theorem Serves.run_calls {Q : Tables → Prop} (hs : s.Serves storage T) (hT : Q T)
    (cs : List (StorageCall × List (Option String)))
    (hspec : ∀ c ∈ cs, ∀ T, Q T → Q (c.1.spec z storage.config.readOnly T).2) :
    ∃ T', Q T' ∧ (Runs.run (step z) s (calls cs)).2.Serves storage T' := by
  refine Runs.run_inv (fun s : Session => ∃ T, Q T ∧ s.Serves storage T) ?_ ⟨T, hT, hs⟩
  rintro s a ha ⟨T, hT, hs⟩
  obtain ⟨c, hc, rfl⟩ := List.mem_map.mp ha
  rcases step_call (z := z) hs c.1 c.2 with ⟨-, -, -, hs'⟩ | ⟨-, hs'⟩
  · exact ⟨T, hT, hs'⟩
  · exact ⟨_, hspec c hc T hT, hs'⟩

/-- On a read-only storage, or if no other key is put, the storage keeps to the keys. -/
theorem Serves.keepsTo (hs : s.Serves storage T) (hT : T.Confined P)
    (hcs : storage.config.readOnly = true ∨ ∀ c ∈ cs, c.1.PutsIn P) : s.KeepsTo z P cs := by
  rintro done todo rfl s' rfl
  have hspec : ∀ c ∈ done, ∀ T, T.Confined P →
      (c.1.spec z storage.config.readOnly T).2.Confined P := by
    intro c hc T hT
    exact hT.spec (hcs.imp_right fun h => h c (List.mem_append_left _ hc))
  obtain ⟨T', hT', hs'⟩ := hs.run_calls (z := z) hT done hspec
  refine ⟨⟨T', hs.read_path hs', hT'⟩, ?_⟩
  rintro key value fs rest rfl hkey
  have hro : storage.config.readOnly = true := by
    refine hcs.resolve_right fun h => hkey ?_
    exact h (.put key value, fs) (List.mem_append_right _ List.mem_cons_self)
  have hnext : (((Runs.run (step z) s (calls done)).2).step z (.call (.put key value), fs)).2.Serves
      storage T' := by
    rcases step_call (z := z) hs' (.put key value) fs with ⟨-, -, -, h⟩ | ⟨-, h⟩
    · exact h
    · rwa [hro, StorageCall.spec_readOnly] at h
  rw [hs.read_path hs', hs.read_path hnext]

/-- A storage that is not read-only and keeps to the keys is asked to put no other, if nothing
fails: the put would have stored its key. -/
theorem Serves.putsIn_of_keepsTo (hs : s.Serves storage T)
    (hro : storage.config.readOnly = false) (hfree : ∀ c ∈ cs, c.2 = [])
    (h : s.KeepsTo z P cs) : ∀ c ∈ cs, c.1.PutsIn P := by
  rintro ⟨c, fs⟩ hc
  obtain ⟨done, rest, rfl⟩ := List.append_of_mem hc
  obtain rfl : fs = [] := hfree _ hc
  cases c with
  | put key value =>
      obtain ⟨T₁, -, hs₁⟩ := hs.run_calls (z := z) (Q := fun _ => True) trivial done
        (fun _ _ _ _ => trivial)
      obtain ⟨T₁', hread₁, hT₁⟩ := (h done _ rfl _ rfl).1
      have hs₂ := (step_call_ok (z := z) hs₁ (.put key value)).2
      rw [hro] at hs₂
      -- the state that is reached when the put is done
      have hdone : (Runs.run (step z) s (calls (done ++ [(.put key value, [])]))).2
          = ((Runs.run (step z) s (calls done)).2.step z (.call (.put key value), [])).2 := by
        unfold calls
        rw [List.map_append, Runs.run_append]
        rfl
      obtain ⟨T₂', hread₂, hT₂⟩ := (h (done ++ [_]) rest (by simp) _ hdone.symm).1
      obtain rfl := hs.tables_eq hs₁ hread₁
      obtain rfl := hs.tables_eq hs₂ hread₂
      exact hT₁.put_iff.mp hT₂
  | _ => trivial

/-- Opening the storage on a fresh database gives empty tables. -/
theorem serves_of_open {disk : Disk} {path : PathBuf} (hd : disk.Fresh path) {buf : Bytes}
    {config : RedbStorageConfig} {name : String} {fs : List (Option String)}
    (hopen : (start disk path buf).step z (.reopen config name, fs) = (.ok .done, s)) :
    s.Serves ⟨path, config, name⟩ .empty := by
  have hclosed : (start disk path buf).Closed .empty := start_closed hd
  rcases step_reopen (z := z) (.inr hclosed) config name fs with ⟨e, he, -, -⟩ | ⟨-, hs⟩
  · rw [hopen] at he
    cases he
  · rwa [hopen] at hs

/-- **The key expression.** A storage that is opened with one on a fresh database keeps to the
keys under it if it is read-only or no other key is put, whatever fails. If nothing fails in
the calls, only then. -/
theorem run_keeps_to_keyExpr (z : ZExt) {disk : Disk} {path : PathBuf} (hd : disk.Fresh path)
    (buf : Bytes) (config : RedbStorageConfig) (name : String) {fs : List (Option String)}
    {s : Session}
    (hopen : (start disk path buf).step z (.reopen config name, fs) = (.ok .done, s))
    (cs : List (StorageCall × List (Option String))) :
    ∀ p, config.keyExpr = some p →
      (config.readOnly = true ∨ (∀ c ∈ cs, c.1.PutsIn (Under p)) → s.KeepsTo z (Under p) cs) ∧
      ((∀ c ∈ cs, c.2 = []) → s.KeepsTo z (Under p) cs →
        config.readOnly = true ∨ ∀ c ∈ cs, c.1.PutsIn (Under p)) := by
  intro p _
  have hs := serves_of_open hd hopen
  refine ⟨hs.keepsTo Tables.confined_empty, ?_⟩
  intro hfree hkeeps
  cases hro : config.readOnly with
  | true => exact .inl rfl
  | false => exact .inr (hs.putsIn_of_keepsTo hro hfree hkeeps)

/-- Puts under the key expression, in both forms, one of which fails. -/
theorem run_keeps_to_keyExpr_demo :
    let s := ((start .blank (.ofString "s.redb") []).step .layout
      (.reopen { keyExpr := some "demo/**" } "s", [])).2
    s.KeepsTo .layout (Under "demo/**")
      [(.put "demo/a" ⟨[1], .first, ⟨0, none⟩⟩, []), (.delete "other", []),
        (.put "demo/**" ⟨[2], .first, ⟨0, none⟩⟩, [some "disk full"]), (.clear, [])] := by
  intro s
  refine (run_keeps_to_keyExpr .layout (Or.inl ⟨rfl, rfl⟩) [] _ "s" (Prod.ext (by rfl) rfl) _
    "demo/**" rfl).1 (.inr ?_)
  simp only [List.forall_mem_cons, StorageCall.PutsIn]
  exact ⟨by decide +kernel, trivial, by decide +kernel, trivial, by simp⟩

/-- A put of any other key stores it. -/
theorem run_stores_other_key :
    let s := ((start .blank (.ofString "s.redb") []).step .layout
      (.reopen { keyExpr := some "demo/**" } "s", [])).2
    ¬ Under "demo/**" "other" ∧
      ¬ s.KeepsTo .layout (Under "demo/**") [(.put "other" ⟨[1], .first, ⟨0, none⟩⟩, [])] := by
  intro s
  have hother : ¬ Under "demo/**" "other" := by decide +kernel
  refine ⟨hother, fun h => hother ?_⟩
  have hs : s.Serves ⟨.ofString "s.redb", { keyExpr := some "demo/**" }, "s"⟩ .empty :=
    serves_of_open (z := .layout) (Or.inl ⟨rfl, rfl⟩) (Prod.ext (by rfl) rfl)
  exact hs.putsIn_of_keepsTo rfl (by simp) h _ List.mem_cons_self

end Session

end ZenohRedb
