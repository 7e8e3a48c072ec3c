import ZenohRedb.Storage.Matching
import ZenohRedb.Storage.Session

set_option autoImplicit false

/-! # The reads agree with each other

`get_all`, `get_by_prefix` and `get_by_wildcard` are one loop with three selectors (`Query`).
`queries_agree` compares them with each other and with `get` on any two tables, also where no
run of the storage leaves them; all it needs is that the keys are strings. On what a run does
leave, a pattern without wildcards is a `get`, and `/**` behind it a search by prefix
(`run_wildcard_paths`).
-/

namespace ZenohRedb

open Wild

/-! ## Queries -/

/-- The operations that list entries. -/
inductive Query
  | all
  | byPrefix (keyPrefix : String)
  | byWildcard (pattern : String)

namespace Query

/-- The keys a query asks for. -/
def selects : Query → String → Bool
  | .all, _ => true
  | .byPrefix keyPrefix, key => Str.startsWith key keyPrefix
  | .byWildcard pattern, key => matchesWildcard key pattern

/-- The operation that answers a query. -/
def prog (z : ZExt) : Query → StorageM (List (String × StoredValue))
  | .all => RedbStorage.getAll z
  | .byPrefix keyPrefix => RedbStorage.getByPrefix z keyPrefix
  | .byWildcard pattern => RedbStorage.getByWildcard z pattern

theorem exec_eq (z : ZExt) (q : Query) (buf : Bytes) (T : Tables) :
    (q.prog z).exec [] buf T.db = (T.scan z q.selects, buf, T.db) := by
  cases q with
  | all => exact scan_exec z buf T _
  | byPrefix keyPrefix => exact scan_exec z buf T _
  | byWildcard pattern => exact scan_exec z buf T _

end Query

namespace Tables

variable {z : ZExt} {T : Tables}

/-- `get` fails on a record that does not decode, and on nothing else. -/
theorem undecodable_of_get_error {key : String} {e : RedbBackendError}
    (h : T.get z key = .error e) : T.Undecodable z key := by
  unfold Tables.get at h
  cases hp : T.payloads[Str.asBytes key]? with
  | none => cases hi : T.dataInfo[Str.asBytes key]? <;> simp [hp, hi, RedbStorage.getMatch] at h
  | some payload =>
      cases hi : T.dataInfo[Str.asBytes key]? with
      | none => simp [hp, hi, RedbStorage.getMatch] at h
      | some info =>
          cases hd : decodeDataInfo z info with
          | error e' => exact ⟨info, e', hi, hd⟩
          | ok decoded =>
              simp only [hp, hi, RedbStorage.getMatch, hd] at h
              split at h <;> cases h

/-- Where every record decodes, `get` looks the key up among the entries. -/
theorem get_eq_lookup (hd : ∀ key, ¬ T.Undecodable z key) (key : String) :
    T.get z key = .ok ((T.entries z).lookup key) := by
  cases h : T.get z key with
  | error e => exact absurd (undecodable_of_get_error h) (hd key)
  | ok o =>
      congr 1
      ext v
      rw [lookup_of_pairwise_keyLt (pairwise_entries T), mem_entries, entry_eq_some_iff,
        ← get_eq_some_iff, h, Except.ok.injEq]

end Tables

/-- **All reads agree**, on any two tables in which the metadata has string keys. A query fails
exactly if it selects a record that does not decode. Otherwise it returns, in the order of the
key bytes, the selected keys that have a payload and a record that decodes and is not a
tombstone, with their values. So once `get_all` succeeds, it determines every query and every
`get`. -/
theorem queries_agree (z : ZExt) (T : Tables)
    (h8 : ∀ k ∈ T.dataInfo, ∃ key, Str.asBytes key = k) :
    (∀ (q : Query) (buf : Bytes),
      ((∃ e, ((q.prog z).exec [] buf T.db).1 = .error e) ↔
        ∃ key, q.selects key = true ∧ T.Undecodable z key) ∧
      ∀ l, ((q.prog z).exec [] buf T.db).1 = .ok l →
        l.Pairwise keyLt ∧
          ∀ key v, (key, v) ∈ l ↔ q.selects key = true ∧ T.Holds z key v) ∧
    ∀ (buf : Bytes) (L : List (String × StoredValue)),
      ((RedbStorage.getAll z).exec [] buf T.db).1 = .ok L →
      (∀ (q : Query) (buf' : Bytes),
        ((q.prog z).exec [] buf' T.db).1 = .ok (L.filter (q.selects ·.1))) ∧
      ∀ (key : String) (buf' : Bytes),
        ((RedbStorage.get z key).exec [] buf' T.db).1 = .ok (L.lookup key) := by
  constructor
  · intro q buf
    rw [Query.exec_eq]
    refine ⟨Tables.Utf8.scan_error_iff h8, fun l hl => ?_⟩
    obtain ⟨-, rfl⟩ := Tables.scan_eq_ok_iff.mp hl
    refine ⟨(Tables.pairwise_entries T).filter _, fun key v => ?_⟩
    rw [List.mem_filter, Tables.mem_entries, Tables.entry_eq_some_iff]
    exact and_comm
  · intro buf L hL
    rw [show RedbStorage.getAll z = Query.all.prog z from rfl, Query.exec_eq] at hL
    obtain ⟨⟨-, hd⟩, rfl⟩ := Tables.scan_eq_ok_iff.mp hL
    have hall : (T.entries z).filter (Query.all.selects ·.1) = T.entries z :=
      List.filter_eq_self.mpr fun _ _ => rfl
    rw [hall]
    refine ⟨fun q buf' => ?_, fun key buf' => ?_⟩
    · rw [Query.exec_eq]
      exact Tables.Utf8.scan_eq h8 fun key _ => hd key rfl
    · rw [get_exec]
      exact Tables.get_eq_lookup (fun key => hd key rfl) key

/-- A record without a payload: every query succeeds and skips it. -/
theorem queries_agree_no_payload :
    let T : Tables :=
      ⟨∅, (Tables.empty.put .layout "b" ⟨[1], .first, ⟨0, none⟩⟩).dataInfo⟩
    ∀ (q : Query) (buf : Bytes), ((q.prog .layout).exec [] buf T.db).1 = .ok [] := by
  intro T q buf
  have h8 : ∀ k ∈ T.dataInfo, ∃ key, Str.asBytes key = k :=
    (Tables.consistent_empty (z := .layout).put).utf8
  exact ((queries_agree .layout T h8).2 [] [] (by rfl)).1 q buf

/-! ## Patterns that other reads answer -/

section Literal

variable {p : String}

theorem map_segment_lit {ps : List String} (h : ∀ seg ∈ ps, seg ≠ "*" ∧ seg ≠ "**") :
    ps.map segment = ps.map .lit :=
  List.map_congr_left fun seg hseg => segment_lit (h seg hseg).2 (h seg hseg).1

/-- A pattern without wildcards matches the key it is. -/
theorem matchesWildcard_literal (hp : ∀ seg ∈ Str.split p '/', seg ≠ "*" ∧ seg ≠ "**")
    (key : String) : matchesWildcard key p = true ↔ key = p := by
  unfold matchesWildcard
  rw [matchesParts_iff, map_segment_lit hp]
  unfold lang
  rw [mem_lits, Str.split_inj]

/-- With `/**` behind it, it matches that key and the keys that go on with a slash. -/
theorem matchesWildcard_below (hp : ∀ seg ∈ Str.split p '/', seg ≠ "*" ∧ seg ≠ "**")
    (key : String) :
    matchesWildcard key (p ++ "/**") = true ↔
      key = p ∨ Str.startsWith key (p ++ "/") = true := by
  have hsplit : Str.split (p ++ "/**") '/' = Str.split p '/' ++ ["**"] := by
    have htail : Str.split "**" '/' = ["**"] := Str.split_of_notMem (by decide)
    rw [← htail]
    exact Str.split_of_toList String.toList_append
  have hslash : (∃ t : String, key.toList = p.toList ++ '/' :: t.toList) ↔
      ∃ rest, key = p ++ "/" ++ rest := by
    refine exists_congr fun t => ?_
    rw [← String.toList_inj, String.toList_append, String.toList_append, List.append_assoc]
    rfl
  unfold matchesWildcard
  rw [matchesParts_iff, hsplit, List.map_append, map_segment_lit hp, List.map_singleton,
    segment_many, mem_lang_lits_many, Str.split_prefix_iff, hslash, Str.startsWith_iff]

theorem matchesWildcard_many (key : String) : matchesWildcard key "**" = true := by
  have hsplit : Str.split "**" '/' = ["**"] := Str.split_of_notMem (by decide)
  unfold matchesWildcard
  rw [matchesParts_iff, hsplit, List.map_singleton, segment_many]
  exact mem_lang_many

theorem startsWith_empty (key : String) : Str.startsWith key "" = true :=
  Str.startsWith_iff.mpr ⟨key, (String.empty_append).symm⟩

end Literal

namespace Tables

variable {z : ZExt} {T : Tables} {p : String}

/-- The entry of one key, as a list. -/
theorem filter_entries_eq (T : Tables) (p : String) :
    (T.entries z).filter (fun e => decide (e.1 = p)) = ((T.entry z p).map (p, ·)).toList := by
  refine List.Pairwise.eq_of_mem_iff ((pairwise_entries T).filter _) ?_ ?_
  · cases T.entry z p <;> simp
  · rintro ⟨key, v⟩
    rw [List.mem_filter, mem_entries, decide_eq_true_eq, Option.mem_toList, Option.map_eq_some_iff]
    constructor
    · rintro ⟨h, rfl⟩
      exact ⟨v, h, rfl⟩
    · rintro ⟨w, h, he⟩
      cases he
      exact ⟨h, rfl⟩

/-- The entry of `p` comes before those of the keys that `p` and a slash begin. -/
theorem filter_entries_below (T : Tables) (p : String) :
    (T.entries z).filter (fun e => decide (e.1 = p) || Str.startsWith e.1 (p ++ "/"))
      = ((T.entry z p).map (p, ·)).toList
        ++ (T.entries z).filter (fun e => Str.startsWith e.1 (p ++ "/")) := by
  rw [← filter_entries_eq]
  refine List.Pairwise.eq_of_mem_iff ((pairwise_entries T).filter _) ?_ ?_
  · rw [List.pairwise_append]
    refine ⟨(pairwise_entries T).filter _, (pairwise_entries T).filter _, ?_⟩
    intro a ha b hb
    obtain ⟨-, ha⟩ := List.mem_filter.mp ha
    obtain ⟨-, hb⟩ := List.mem_filter.mp hb
    obtain ⟨rest, hrest⟩ := Str.startsWith_iff.mp hb
    have hlonger : "/" ++ rest ≠ "" := by simp [String.append_eq_empty_iff]
    unfold keyLt
    rw [of_decide_eq_true ha, hrest, String.append_assoc]
    exact Str.compareBytes_append p hlonger
  · intro e
    rw [List.mem_append, List.mem_filter, List.mem_filter, List.mem_filter, Bool.or_eq_true,
      and_or_left]

end Tables

namespace Session

/-- What a call returns if nothing fails in it. -/
def answer (z : ZExt) (s : Session) (c : StorageCall) : Except RedbBackendError Reply :=
  (s.step z (.call c, [])).1

/-- The key is in the database. -/
def Live (z : ZExt) (s : Session) (key : String) : Prop :=
  ∃ v, s.answer z (.get key) = .ok (.value (some v))

section

variable {z : ZExt} {s : Session} {storage : RedbStorage} {T : Tables}

theorem Serves.answer_get (hs : s.Serves storage T) (hT : T.Consistent z) (key : String) :
    s.answer z (.get key) = .ok (.value (T.entry z key)) := by
  unfold answer
  rw [(step_call_ok hs _).1]
  simp only [StorageCall.spec, hT.get, Except.map]

theorem Serves.live_iff (hs : s.Serves storage T) (hT : T.Consistent z) (key : String) :
    s.Live z key ↔ ∃ v, T.entry z key = some v := by
  unfold Live
  rw [hs.answer_get hT]
  simp only [Except.ok.injEq, Reply.value.injEq]

theorem Serves.answer_getAll (hs : s.Serves storage T) (hT : T.Consistent z) :
    s.answer z .getAll = .ok (.entries (T.entries z)) := by
  unfold answer
  rw [(step_call_ok hs _).1]
  simp only [StorageCall.spec, hT.scan, Except.map, List.filter_true]

theorem Serves.answer_getByPrefix (hs : s.Serves storage T) (hT : T.Consistent z)
    (keyPrefix : String) :
    s.answer z (.getByPrefix keyPrefix)
      = .ok (.entries ((T.entries z).filter (Str.startsWith ·.1 keyPrefix))) := by
  unfold answer
  rw [(step_call_ok hs _).1]
  simp only [StorageCall.spec, hT.scan, Except.map]

theorem Serves.answer_getByWildcard (hs : s.Serves storage T) (hT : T.Consistent z)
    (pattern : String) :
    s.answer z (.getByWildcard pattern)
      = .ok (.entries ((T.entries z).filter (matchesWildcard ·.1 pattern))) := by
  unfold answer
  rw [(step_call_ok hs _).1]
  simp only [StorageCall.spec, hT.scan, Except.map]

end

/-- **Wildcard queries and the direct reads.** At the end of every run that leaves the database
open, let no segment of `p` be a wildcard. Then the pattern `p` gives the entry of `get(p)`, the
pattern `p/**` that entry and behind it what the prefix `p/` gives, and the patterns `**` and
the empty prefix give everything. -/
theorem run_wildcard_paths (z : ZExt) {disk : Disk} {path : PathBuf} (hd : disk.Fresh path)
    (buf : Bytes) (steps : List (Action × List (Option String))) {s : Session}
    (hs : s = (Runs.run (step z) (start disk path buf) steps).2) {storage : RedbStorage}
    (hstorage : s.storage = some storage) {p : String}
    (hp : ∀ seg ∈ Str.split p '/', seg ≠ "*" ∧ seg ≠ "**") :
    ∃ (v : Option StoredValue) (below all : List (String × StoredValue)),
      s.answer z (.get p) = .ok (.value v) ∧
      s.answer z (.getByWildcard p) = .ok (.entries (v.map (p, ·)).toList) ∧
      s.answer z (.getByPrefix (p ++ "/")) = .ok (.entries below) ∧
      s.answer z (.getByWildcard (p ++ "/**"))
        = .ok (.entries ((v.map (p, ·)).toList ++ below)) ∧
      s.answer z .getAll = .ok (.entries all) ∧
      s.answer z (.getByWildcard "**") = .ok (.entries all) ∧
      s.answer z (.getByPrefix "") = .ok (.entries all) := by
  subst hs
  obtain ⟨T, hT, hs⟩ := (run_inv z hd buf steps).serves hstorage
  -- the selectors of the patterns, as those of the other reads
  have hliteral : ∀ key, matchesWildcard key p = decide (key = p) := by
    intro key
    rw [Bool.eq_iff_iff, matchesWildcard_literal hp, decide_eq_true_eq]
  have hbelow : ∀ key, matchesWildcard key (p ++ "/**")
      = (decide (key = p) || Str.startsWith key (p ++ "/")) := by
    intro key
    rw [Bool.eq_iff_iff, matchesWildcard_below hp, Bool.or_eq_true, decide_eq_true_eq]
  refine ⟨T.entry z p, (T.entries z).filter (Str.startsWith ·.1 (p ++ "/")), T.entries z,
    hs.answer_get hT p, ?_, hs.answer_getByPrefix hT _, ?_, hs.answer_getAll hT, ?_, ?_⟩
  · rw [hs.answer_getByWildcard hT]
    simp only [hliteral, Tables.filter_entries_eq]
  · rw [hs.answer_getByWildcard hT]
    simp only [hbelow, Tables.filter_entries_below]
  · rw [hs.answer_getByWildcard hT]
    simp only [matchesWildcard_many, List.filter_true]
  · rw [hs.answer_getByPrefix hT]
    simp only [startsWith_empty, List.filter_true]

/-- A sibling whose name goes on without a slash is not below `a`. -/
theorem run_wildcard_paths_sibling :
    let value : StoredValue := ⟨[1], .first, ⟨0, none⟩⟩
    let s := (Runs.run (step .layout) (start .blank (.ofString "s.redb") [])
      [(.reopen .new "s", []), (.call (.put "a/b" value), []), (.call (.put "ab" value), []),
        (.call (.put "a" value), [])]).2
    s.answer .layout (.getByWildcard "a/**")
      = .ok (.entries [("a", value), ("a/b", value)]) := by
  intro value s
  obtain ⟨v, below, all, hget, -, hbelow, hwild, -⟩ :=
    run_wildcard_paths .layout (Or.inl ⟨rfl, rfl⟩) [] _ (s := s) rfl (by rfl) (p := "a")
      (by decide)
  have hv : s.answer .layout (.get "a") = .ok (.value (some value)) := by
    decide +kernel
  have hb : s.answer .layout (.getByPrefix ("a" ++ "/")) = .ok (.entries [("a/b", value)]) := by
    decide +kernel
  rw [hv] at hget
  rw [hb] at hbelow
  cases hget
  cases hbelow
  exact hwild

end Session

end ZenohRedb
