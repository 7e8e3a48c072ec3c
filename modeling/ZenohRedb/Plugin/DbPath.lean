import ZenohRedb.Plugin.Volume

set_option autoImplicit false

/-! # Which database file a storage gets

`create_storage` of the volume makes the path of the database from the property `dir` or
`db_file`, and `effective_db_path` makes one from the field `db_file`. All of them name files
with the extension `redb`, but they go about it differently: `set_extension` replaces what
stands behind the last dot of a name, `effective_db_path` appends. For names without a dot that
is the same; `dbPath_dir` and `dbPath_dbFile` say what comes of the others.
-/

namespace ZenohRedb

open PathBuf (FileName rsplitAtDot)

/-! ## Names -/

/-- A single file name: not empty, without a slash, and neither `.` nor `..`. -/
structure Ordinary (d : String) : Prop where
  ne_empty : d ≠ ""
  ne_dot : d ≠ "."
  ne_dotdot : d ≠ ".."
  notMem : '/' ∉ d.toList

/-- `s` is what stands in front of the last dot of `d`, or all of it if there is no dot. A dot
at the beginning does not count. -/
def Stem (s d : String) : Prop :=
  (d = s ∧ '.' ∉ d.toList.tail) ∨
    (s ≠ "" ∧ ∃ ext : String, '.' ∉ ext.toList ∧ d = s ++ "." ++ ext)

theorem sep_mem_asBytes {d : String} : PathBuf.sep ∈ Str.asBytes d ↔ '/' ∈ d.toList :=
  Str.ascii_mem_asBytes (c := '/') (by decide)

theorem dot_mem_asBytes {d : String} : PathBuf.dot ∈ Str.asBytes d ↔ '.' ∈ d.toList :=
  Str.ascii_mem_asBytes (c := '.') (by decide)

theorem dot_mem_tail_asBytes {d : String} :
    PathBuf.dot ∈ (Str.asBytes d).tail ↔ '.' ∈ d.toList.tail :=
  Str.ascii_mem_tail_asBytes (c := '.') (by decide)

theorem Ordinary.fileName {d : String} (h : Ordinary d) : FileName (Str.asBytes d) where
  ne_nil heq := h.ne_empty (Str.asBytes_inj.mp heq)
  ne_dot heq := h.ne_dot (Str.asBytes_inj.mp heq)
  ne_dotdot heq := h.ne_dotdot (Str.asBytes_inj.mp heq)
  notMem hmem := h.notMem (sep_mem_asBytes.mp hmem)

theorem exists_stem (d : String) : ∃ s, Stem s d := by
  by_cases hdot : '.' ∈ d.toList.tail
  · cases hd : d.toList with
    | nil =>
        rw [hd] at hdot
        cases hdot
    | cons c rest =>
        rw [hd, List.tail_cons, ← List.mem_reverse] at hdot
        -- the last dot is the first one from behind
        obtain ⟨after, before, heq, hafter⟩ := List.eq_append_cons_of_mem hdot
        have hrest : rest = before.reverse ++ '.' :: after.reverse := by
          rw [← List.reverse_reverse rest, heq]
          simp
        refine ⟨String.ofList (c :: before.reverse), Or.inr ⟨by simp, String.ofList after.reverse,
          by simpa using hafter, ?_⟩⟩
        rw [← String.toList_inj, hd, hrest]
        simp
  · exact ⟨d, Or.inl ⟨rfl, hdot⟩⟩

section

variable {s d ext : String} {base : PathBuf}

/-- Without a dot that counts there is no extension. -/
theorem rsplitAtDot_whole (h : '.' ∉ d.toList.tail) :
    rsplitAtDot (Str.asBytes d) = (Str.asBytes d, none) :=
  PathBuf.rsplitAtDot_of_notMem (mt dot_mem_tail_asBytes.mp h)

theorem rsplitAtDot_ext (hs : s ≠ "") (hext : '.' ∉ ext.toList) :
    rsplitAtDot (Str.asBytes (s ++ "." ++ ext)) = (Str.asBytes s, some (Str.asBytes ext)) := by
  have hbytes : Str.asBytes (s ++ "." ++ ext) = Str.asBytes s ++ PathBuf.dot :: Str.asBytes ext := by
    rw [Str.asBytes_append, Str.asBytes_append, List.append_assoc]
    rfl
  have hne : Str.asBytes s ≠ [] := fun heq => hs (Str.asBytes_inj.mp heq)
  rw [hbytes, PathBuf.rsplitAtDot_append hne (mt dot_mem_asBytes.mp hext)]

theorem Stem.rsplitAtDot_eq (h : Stem s d) : (rsplitAtDot (Str.asBytes d)).1 = Str.asBytes s := by
  rcases h with ⟨rfl, hdot⟩ | ⟨hs, ext, hext, rfl⟩
  · rw [rsplitAtDot_whole hdot]
  · rw [rsplitAtDot_ext hs hext]

theorem Stem.notMem (h : Stem s d) (hd : Ordinary d) : '/' ∉ s.toList := by
  rcases h with ⟨rfl, -⟩ | ⟨-, ext, -, rfl⟩
  · exact hd.notMem
  · intro hmem
    exact hd.notMem (by simp [hmem])

/-- The stem of a name is the name exactly if no dot counts. -/
theorem Stem.eq_iff (h : Stem s d) : s = d ↔ '.' ∉ d.toList.tail := by
  rcases h with ⟨rfl, hdot⟩ | ⟨hs, ext, -, rfl⟩
  · exact iff_of_true rfl hdot
  · refine iff_of_false ?_ ?_
    · intro heq
      have hlen := congrArg (fun t : String => t.toList.length) heq
      simp at hlen
    · rw [not_not]
      cases hs' : s.toList with
      | nil => exact absurd (String.toList_inj.mp (hs'.trans String.toList_empty.symm)) hs
      | cons c rest => simp [hs']

/-- `<name>.redb` under a base directory. -/
def redbPath (base : PathBuf) (name : String) : PathBuf := base.join (.ofString (name ++ ".redb"))

theorem notMem_redb (h : '/' ∉ s.toList) : PathBuf.sep ∉ Str.asBytes (s ++ ".redb") := by
  rw [sep_mem_asBytes, String.toList_append, List.mem_append, not_or]
  exact ⟨h, by decide⟩

theorem redbPath_inj {s' : String} (h : '/' ∉ s.toList) (h' : '/' ∉ s'.toList) :
    redbPath base s = redbPath base s' ↔ s = s' := by
  unfold redbPath PathBuf.join PathBuf.ofString
  rw [PathBuf.push_inj (notMem_redb h) (notMem_redb h'), Str.asBytes_append, Str.asBytes_append,
    List.append_cancel_right_eq, Str.asBytes_inj]

/-- A name without the extension is a different file. -/
theorem join_ne_redbPath (h : '/' ∉ s.toList) : base.join (.ofString s) ≠ redbPath base s := by
  have hlen : (Str.asBytes s).length ≠ (Str.asBytes (s ++ ".redb")).length := by
    have hredb : (Str.asBytes ".redb").length = 5 := by decide
    rw [Str.asBytes_append, List.length_append]
    omega
  unfold redbPath PathBuf.join PathBuf.ofString
  rw [ne_eq, PathBuf.push_inj (mt sep_mem_asBytes.mp h) (notMem_redb h)]
  exact fun heq => hlen (congrArg List.length heq)

/-- Setting the extension puts `.redb` behind the stem of the name. -/
theorem setExtension_eq (hd : Ordinary d) (h : Stem s d) :
    (base.push (.ofString d)).setExtension "redb" = redbPath base s := by
  calc (base.push (.ofString d)).setExtension "redb"
      = ⟨base.dirBytes ++ (rsplitAtDot (Str.asBytes d)).1 ++ PathBuf.dot :: Str.asBytes "redb"⟩ :=
        PathBuf.setExtension_push hd.fileName "redb"
    _ = ⟨base.dirBytes ++ Str.asBytes (s ++ ".redb")⟩ := by
        rw [h.rsplitAtDot_eq, Str.asBytes_append, List.append_assoc]
        rfl
    _ = redbPath base s := (PathBuf.push_of_notMem (notMem_redb (h.notMem hd))).symm

/-- A name has an extension exactly if a dot counts. -/
theorem extension_isNone (hd : Ordinary d) :
    (base.push (.ofString d)).extension.isNone = true ↔ '.' ∉ d.toList.tail := by
  unfold PathBuf.ofString
  rw [PathBuf.extension_push hd.fileName, Option.isNone_iff_eq_none]
  constructor
  · intro hnone hdot
    obtain ⟨s, h⟩ := exists_stem d
    rcases h with ⟨-, hno⟩ | ⟨hs, ext, hext, rfl⟩
    · exact hno hdot
    · rw [rsplitAtDot_ext hs hext] at hnone
      cases hnone
  · intro hdot
    rw [rsplitAtDot_whole hdot]

end

/-! ## The properties `dir` and `db_file` -/

namespace RedbVolume

variable (self : RedbVolume) {d s : String} {o : Json.Object}

/-- The file of a storage with the property `dir`. -/
theorem dbPath_of_stem (hd : Ordinary d) (ho : o.get PROP_STORAGE_DIR = some (.string d))
    (hs : Stem s d) : self.dbPath o = .ok (redbPath self.config.baseDir s) := by
  unfold dbPath
  simp only [ho]
  rw [setExtension_eq hd hs]

/-- **One file for one `dir`?** The path is `<dir>.redb` under the base directory exactly if
the name has no dot behind its first character. Two names give the same path exactly if they
are the same up to their last dots. -/
theorem dbPath_dir (hd : Ordinary d) (ho : o.get PROP_STORAGE_DIR = some (.string d)) :
    (self.dbPath o = .ok (self.config.baseDir.join (.ofString (d ++ ".redb"))) ↔
      '.' ∉ d.toList.tail) ∧
    ∀ {d' : String} {o' : Json.Object}, Ordinary d' →
      o'.get PROP_STORAGE_DIR = some (.string d') →
      (self.dbPath o = self.dbPath o' ↔ ∃ s, Stem s d ∧ Stem s d') := by
  obtain ⟨s, hs⟩ := exists_stem d
  rw [self.dbPath_of_stem hd ho hs]
  constructor
  · rw [← hs.eq_iff, Except.ok.injEq]
    exact redbPath_inj (hs.notMem hd) hd.notMem
  · intro d' o' hd' ho'
    constructor
    · intro heq
      obtain ⟨s', hs'⟩ := exists_stem d'
      rw [self.dbPath_of_stem hd' ho' hs', Except.ok.injEq,
        redbPath_inj (hs.notMem hd) (hs'.notMem hd')] at heq
      exact ⟨s, hs, heq ▸ hs'⟩
    · rintro ⟨t, ht, ht'⟩
      rw [← self.dbPath_of_stem hd ho hs, self.dbPath_of_stem hd ho ht,
        self.dbPath_of_stem hd' ho' ht']

/-- A hidden name keeps its dot, and does not share its file with one that has an extension. -/
theorem dbPath_dir_hidden :
    (RedbVolume.mk {}).dbPath [("dir", .string ".a")]
        = .ok (defaultBaseDir.join (.ofString ".a.redb")) ∧
      (RedbVolume.mk {}).dbPath [("dir", .string ".a")]
        = (RedbVolume.mk {}).dbPath [("dir", .string ".a.b")] := by
  have ha : Ordinary ".a" := ⟨by decide, by decide, by decide, by decide⟩
  have hab : Ordinary ".a.b" := ⟨by decide, by decide, by decide, by decide⟩
  obtain ⟨hpath, hsame⟩ := dbPath_dir ⟨{}⟩ ha (o := [("dir", .string ".a")]) rfl
  refine ⟨hpath.mpr (by decide), (hsame hab rfl).mpr ⟨".a", Or.inl ⟨rfl, by decide⟩, Or.inr ?_⟩⟩
  exact ⟨by decide, "b", by decide, by decide⟩

/-- The storages of two names that differ behind a dot have one file, and neither is the
documented one. -/
theorem not_dbPath_dir_dotted :
    Ordinary "data.v1" ∧ Ordinary "data.v2" ∧
      (RedbVolume.mk {}).dbPath [("dir", .string "data.v1")]
        = (RedbVolume.mk {}).dbPath [("dir", .string "data.v2")] ∧
      (RedbVolume.mk {}).dbPath [("dir", .string "data.v1")]
        ≠ .ok (defaultBaseDir.join (.ofString "data.v1.redb")) :=
  ⟨⟨by decide, by decide, by decide, by decide⟩, ⟨by decide, by decide, by decide, by decide⟩,
    by decide, by decide⟩

/-- The file of a storage with the property `db_file`. -/
theorem dbPath_of_dbFile {f : String} (hf : Ordinary f)
    (hdir : ∀ dir, o.get PROP_STORAGE_DIR ≠ some (.string dir))
    (hfile : o.get PROP_STORAGE_DB_FILE = some (.string f)) :
    self.dbPath o = .ok (self.config.baseDir.join
      (.ofString (if '.' ∈ f.toList.tail then f else f ++ ".redb"))) := by
  have hbranch : self.dbPath o =
      (let path := self.config.baseDir.push (.ofString f)
      if path.extension.isNone then .ok (path.setExtension "redb") else .ok path) := by
    unfold dbPath
    split
    · next dir hd => exact absurd hd (hdir dir)
    · rw [hfile]
  rw [hbranch]
  by_cases hdot : '.' ∈ f.toList.tail
  · simp only [extension_isNone hf, hdot, not_true_eq_false, if_false, if_true]
    rfl
  · simp only [extension_isNone hf, hdot, not_false_eq_true, if_false, if_true]
    rw [setExtension_eq hf (Or.inl ⟨rfl, hdot⟩)]
    rfl

/-- **Two paths for one `db_file`.** The volume uses the file `effective_db_path` names exactly
if the name has no dot behind its first character. Otherwise the volume uses the name as it is,
while `effective_db_path` appends the extension to every name. -/
theorem dbPath_dbFile {f : String} (hf : Ordinary f)
    (hdir : ∀ dir, o.get PROP_STORAGE_DIR ≠ some (.string dir))
    (hfile : o.get PROP_STORAGE_DB_FILE = some (.string f)) {c : RedbStorageConfig}
    (hcFile : c.dbFile = some f) (hcPath : c.dbPath = none) {backendConfig : RedbBackendConfig}
    (hbase : backendConfig.baseDir = self.config.baseDir) (name : String) :
    (self.dbPath o = .ok (c.effectiveDbPath name backendConfig) ↔ '.' ∉ f.toList.tail) ∧
    c.effectiveDbPath name backendConfig
      = self.config.baseDir.join (.ofString (f ++ ".redb")) ∧
    self.dbPath o = .ok (self.config.baseDir.join
      (.ofString (if '.' ∈ f.toList.tail then f else f ++ ".redb"))) := by
  have heffective : c.effectiveDbPath name backendConfig = redbPath self.config.baseDir f := by
    unfold RedbStorageConfig.effectiveDbPath
    rw [hcPath, hcFile, hbase]
    rfl
  have hpath := self.dbPath_of_dbFile hf hdir hfile
  refine ⟨?_, heffective, hpath⟩
  rw [hpath, heffective, Except.ok.injEq]
  by_cases hdot : '.' ∈ f.toList.tail
  · rw [if_pos hdot]
    exact iff_of_false (join_ne_redbPath hf.notMem) (not_not.mpr hdot)
  · rw [if_neg hdot]
    exact iff_of_true rfl hdot

/-- A name without an extension. -/
theorem dbPath_dbFile_plain :
    (RedbVolume.mk {}).dbPath [("db_file", .string "metrics")]
      = .ok ({ dbFile := some "metrics" : RedbStorageConfig }.effectiveDbPath "s" {}) :=
  have hf : Ordinary "metrics" := ⟨by decide, by decide, by decide, by decide⟩
  have hdir : ∀ dir, Json.Object.get [("db_file", .string "metrics")] PROP_STORAGE_DIR
      ≠ some (.string dir) := by simp [Json.Object.get, PROP_STORAGE_DIR, List.lookup]
  (dbPath_dbFile ⟨{}⟩ hf hdir rfl (c := { dbFile := some "metrics" }) rfl rfl rfl "s").1.mpr
    (by decide)

/-- A name that has the extension: `db_file` is to be the name of the file, and
`effective_db_path` appends the extension once more. -/
theorem not_dbPath_dbFile_redb :
    Ordinary "custom.redb" ∧
      (RedbVolume.mk {}).dbPath [("db_file", .string "custom.redb")]
        ≠ .ok ({ dbFile := some "custom.redb" : RedbStorageConfig }.effectiveDbPath "s" {}) :=
  ⟨⟨by decide, by decide, by decide, by decide⟩, by decide⟩

end RedbVolume

end ZenohRedb
