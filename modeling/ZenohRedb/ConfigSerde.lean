import Mathlib.Data.Set.List
import ZenohRedb.Config
import ZenohRedb.Json

set_option autoImplicit false

/-! # Reading configurations (`config.rs`, the derived `Deserialize`)

The fields of the two configurations with what is done when one is left out: a function of its
own (`default_true`, `default_table_name`, `default_base_dir`), the `Default` of its type, or
`None` for an optional one. A storage configuration can also be built, by `new` and the
setters, and `new` is the derived `Default`, which asks none of these functions.

`deserialize_eq_build_iff` compares the two ways.
-/

namespace ZenohRedb

open Json

/-! ## The fields -/

namespace RedbStorageConfig

/-- The fields, under their names. An optional one has no default of its own. -/
def fields : List (Derive.Field Json RedbStorageConfig) :=
  [.of "db_file" (readOption readString) false fun dbFile c => { c with dbFile },
    .of "db_path" (readOption readPathBuf) false fun dbPath c => { c with dbPath },
    .of "cache_size" (readOption readUsize) false fun cacheSize c => { c with cacheSize },
    .of "fsync" readBool true fun fsync c => { c with fsync },
    .of "key_expr" (readOption readString) false fun keyExpr c => { c with keyExpr },
    .of "strip_prefix" readBool true fun stripPrefix c => { c with stripPrefix },
    .of "table_name" readString true fun tableName c => { c with tableName },
    .of "create_db" readBool true fun createDb c => { c with createDb },
    .of "read_only" readBool true fun readOnly c => { c with readOnly }]

/-- What the fields are that are left out. -/
def missing : RedbStorageConfig where
  dbFile := none
  dbPath := none
  cacheSize := none
  fsync := defaultTrue
  keyExpr := none
  stripPrefix := false
  tableName := defaultTableName
  createDb := defaultTrue
  readOnly := false

def deserialize : Json → Except Derive.Error RedbStorageConfig := readStruct fields missing

end RedbStorageConfig

namespace RedbBackendConfig

def fields : List (Derive.Field Json RedbBackendConfig) :=
  [.of "base_dir" readPathBuf true fun baseDir c => { c with baseDir },
    .of "create_dir" readBool true fun createDir c => { c with createDir },
    .of "default_storage_config" RedbStorageConfig.deserialize true
      fun defaultStorageConfig c => { c with defaultStorageConfig }]

/-- What the fields are that are left out. The storage configuration is the derived `Default`
of its type. -/
def missing : RedbBackendConfig where
  baseDir := defaultBaseDir
  createDir := defaultTrue
  defaultStorageConfig := {}

def deserialize : Json → Except Derive.Error RedbBackendConfig := readStruct fields missing

end RedbBackendConfig

/-! ## The setters -/

namespace RedbStorageConfig

/-- A call of a setter. The values are those that stand for one in JSON. -/
inductive Setter
  | dbFile (dbFile : String)
  | dbPath (dbPath : String)
  | cacheSize (cacheSize : UInt64)
  | fsync (fsync : Bool)
  | keyExpr (keyExpr : String)
  | stripPrefix (stripPrefix : Bool)
  | tableName (tableName : String)
  | createDb (createDb : Bool)
  | readOnly (readOnly : Bool)

namespace Setter

/-- The member of an object that gives the same field the same value. -/
def member : Setter → String × Json
  | dbFile s => ("db_file", .string s)
  | dbPath s => ("db_path", .string s)
  | cacheSize n => ("cache_size", .number (.posInt n))
  | fsync b => ("fsync", .bool b)
  | keyExpr s => ("key_expr", .string s)
  | stripPrefix b => ("strip_prefix", .bool b)
  | tableName s => ("table_name", .string s)
  | createDb b => ("create_db", .bool b)
  | readOnly b => ("read_only", .bool b)

/-- The name of the field. -/
def name (s : Setter) : String := s.member.1

/-- The call. -/
def call : Setter → RedbStorageConfig → RedbStorageConfig
  | dbFile s, c => c.withDbFile s
  | dbPath s, c => c.withDbPath (.ofString s)
  | cacheSize n, c => c.withCacheSize n.toNat
  | fsync b, c => c.withFsync b
  | keyExpr s, c => c.withKeyExpr s
  | stripPrefix b, c => c.withStripPrefix b
  | tableName s, c => c.withTableName s
  | createDb b, c => c.withCreateDb b
  | readOnly b, c => c.withReadOnly b

theorem reads_member (s : Setter) : Derive.Reads fields s.member s.call := by
  cases s <;> exact ⟨_, rfl, rfl⟩

theorem member_ne_null (s : Setter) : s.member.2 ≠ .null := by
  cases s <;> exact nofun

theorem known_name (s : Setter) : Derive.known fields s.name = true := s.reads_member.known

/-- Setters of different fields can change places. -/
theorem call_comm (s t : Setter) (h : s.name ≠ t.name) (c : RedbStorageConfig) :
    s.call (t.call c) = t.call (s.call c) := by
  cases s <;> cases t <;> first | rfl | exact absurd rfl h

end Setter

/-- Build a configuration: `new`, then the setters in their order. -/
def build (calls : List Setter) : RedbStorageConfig :=
  Derive.setAll (calls.map Setter.call) new

/-- The fields that come in the object, with their values, are those of the setters, and none
of them comes twice. -/
def Describes (o : Object) (setters : List Setter) : Prop :=
  Derive.fieldMembers fields o = setters.map Setter.member ∧ (setters.map Setter.name).Nodup

variable {o : Object} {setters calls : List Setter}

theorem Describes.names (h : Describes o setters) :
    setters.map Setter.name = (Derive.fieldMembers fields o).map Prod.fst := by
  rw [h.1, List.map_map]
  rfl

theorem Describes.mem_names_iff (h : Describes o setters) (s : Setter) :
    s.name ∈ setters.map Setter.name ↔ s.name ∈ o.keys := by
  rw [h.names]
  exact Derive.mem_fieldMembers_names_iff s.known_name

/-- Reading makes the same calls, from what the fields are that are left out. -/
theorem Describes.deserialize_eq (h : Describes o setters) :
    deserialize (.object o) = .ok (Derive.setAll (setters.map Setter.call) missing) := by
  refine Derive.visitMap_eq_ok_iff.mpr ⟨h.names ▸ h.2, setters.map Setter.call, ?_, rfl⟩
  rw [h.1, List.forall₂_map_left_iff, List.forall₂_map_right_iff, List.forall₂_same]
  exact fun s _ => s.reads_member

/-- A member that can be read and is not `null` is that of a setter. -/
theorem exists_setter {m : String × Json} {set : RedbStorageConfig → RedbStorageConfig}
    (h : Derive.Reads fields m set) (hnull : m.2 ≠ .null) : ∃ s : Setter, s.member = m := by
  obtain ⟨name, v⟩ := m
  obtain ⟨f, hf, hread⟩ := h
  obtain ⟨hmem, rfl⟩ := Derive.lookup_eq_some hf
  simp only [fields, List.mem_cons, List.not_mem_nil, or_false] at hmem
  rcases hmem with rfl | rfl | rfl | rfl | rfl | rfl | rfl | rfl | rfl <;>
    obtain ⟨b, hb, -⟩ := Derive.Field.of_read_eq_ok_iff.mp hread
  · obtain ⟨s, hs⟩ := exists_of_readOption hnull hb
    obtain rfl := readString_eq_ok_iff.mp hs
    exact ⟨.dbFile s, rfl⟩
  · obtain ⟨p, hp⟩ := exists_of_readOption hnull hb
    obtain ⟨s, rfl, -⟩ := readPathBuf_eq_ok_iff.mp hp
    exact ⟨.dbPath s, rfl⟩
  · obtain ⟨k, hk⟩ := exists_of_readOption hnull hb
    obtain ⟨n, rfl, -⟩ := readUsize_eq_ok_iff.mp hk
    exact ⟨.cacheSize n, rfl⟩
  · obtain rfl := readBool_eq_ok_iff.mp hb
    exact ⟨.fsync b, rfl⟩
  · obtain ⟨s, hs⟩ := exists_of_readOption hnull hb
    obtain rfl := readString_eq_ok_iff.mp hs
    exact ⟨.keyExpr s, rfl⟩
  · obtain rfl := readBool_eq_ok_iff.mp hb
    exact ⟨.stripPrefix b, rfl⟩
  · obtain rfl := readString_eq_ok_iff.mp hb
    exact ⟨.tableName b, rfl⟩
  · obtain rfl := readBool_eq_ok_iff.mp hb
    exact ⟨.createDb b, rfl⟩
  · obtain rfl := readBool_eq_ok_iff.mp hb
    exact ⟨.readOnly b, rfl⟩

/-- The objects that setters describe are those that are accepted and give no field as
`null`. -/
theorem exists_describes_iff : (∃ setters, Describes o setters) ↔
    (∃ c, deserialize (.object o) = .ok c) ∧
      ∀ m ∈ o, Derive.known fields m.1 = true → m.2 ≠ .null := by
  constructor
  · rintro ⟨setters, h⟩
    refine ⟨⟨_, h.deserialize_eq⟩, ?_⟩
    intro m hm hknown
    have hmem : m ∈ Derive.fieldMembers fields o := List.mem_filter.mpr ⟨hm, hknown⟩
    rw [h.1] at hmem
    obtain ⟨s, -, rfl⟩ := List.mem_map.mp hmem
    exact s.member_ne_null
  · rintro ⟨⟨c, hc⟩, hnull⟩
    obtain ⟨hnodup, sets, hsets, -⟩ := Derive.visitMap_eq_ok_iff.mp hc
    have hall : ∀ m ∈ Derive.fieldMembers fields o, m ∈ Set.range Setter.member := by
      intro m hm
      obtain ⟨hmem, hknown⟩ := List.mem_filter.mp hm
      obtain ⟨set, hset⟩ := Derive.exists_reads hsets hm
      exact exists_setter hset (hnull m hmem hknown)
    obtain ⟨setters, hsetters⟩ : Derive.fieldMembers fields o ∈ Set.range (List.map Setter.member) :=
      Set.range_list_map Setter.member ▸ hall
    refine ⟨setters, hsetters.symm, ?_⟩
    rw [← hsetters, List.map_map] at hnodup
    exact hnodup

/-! ## What is left out -/

/-- The order of the calls does not matter. -/
theorem build_perm (hnodup : (setters.map Setter.name).Nodup) (h : calls.Perm setters) :
    build calls = build setters :=
  (Derive.setAll_perm Setter.call_comm hnodup h.symm).symm

/-- The fields that the two ways begin with alike. -/
def Alike (c c' : RedbStorageConfig) : Prop :=
  c = { c' with fsync := c.fsync, tableName := c.tableName, createDb := c.createDb }

theorem Alike.eq_iff {c c' : RedbStorageConfig} (h : Alike c c') :
    c = c' ↔ c.fsync = c'.fsync ∧ c.tableName = c'.tableName ∧ c.createDb = c'.createDb := by
  constructor
  · rintro rfl
    exact ⟨rfl, rfl, rfl⟩
  · rintro ⟨hfsync, htable, hcreate⟩
    rw [Alike, hfsync, htable, hcreate] at h
    exact h

theorem Alike.call (s : Setter) (c c' : RedbStorageConfig) (h : Alike c c') :
    Alike (s.call c) (s.call c') := by
  rw [Alike] at h ⊢
  cases s <;> rw [h] <;> rfl

theorem isField_fsync :
    Derive.IsField Setter.name Setter.call "fsync" RedbStorageConfig.fsync where
  self s h c c' := by cases s <;> first | rfl | simp [Setter.name, Setter.member] at h
  other s h c := by cases s <;> first | rfl | exact absurd rfl h

theorem isField_tableName :
    Derive.IsField Setter.name Setter.call "table_name" RedbStorageConfig.tableName where
  self s h c c' := by cases s <;> first | rfl | simp [Setter.name, Setter.member] at h
  other s h c := by cases s <;> first | rfl | exact absurd rfl h

theorem isField_createDb :
    Derive.IsField Setter.name Setter.call "create_db" RedbStorageConfig.createDb where
  self s h c c' := by cases s <;> first | rfl | simp [Setter.name, Setter.member] at h
  other s h c := by cases s <;> first | rfl | exact absurd rfl h

/-- A field agrees if it comes, or if the two ways begin with the same. -/
theorem Describes.agree_iff {β : Type} {π : RedbStorageConfig → β} (h : Describes o setters)
    (s : Setter) (hfield : Derive.IsField Setter.name Setter.call s.name π) :
    π (Derive.setAll (setters.map Setter.call) missing) = π (build setters) ↔
      s.name ∈ o.keys ∨ π missing = π new := by
  rw [← h.mem_names_iff s]
  exact hfield.setAll_eq_iff

/-- A field that is left out is what the two ways begin with. -/
theorem Describes.left_out {β : Type} {π : RedbStorageConfig → β} (h : Describes o setters)
    (s : Setter) (hfield : Derive.IsField Setter.name Setter.call s.name π)
    (hno : s.name ∉ o.keys) :
    π (Derive.setAll (setters.map Setter.call) missing) = π missing ∧
      π (build setters) = π new := by
  rw [← h.mem_names_iff s] at hno
  exact ⟨hfield.setAll_of_notMem hno, hfield.setAll_of_notMem hno⟩

end RedbStorageConfig

/-! ## The default storage configuration of a backend -/

namespace RedbBackendConfig

/-- The second configuration gives `default_storage_config` as an empty object, and the first
one leaves it out. -/
inductive GivenEmpty : Json → Json → Prop
  | object (pre post : Object) (h : "default_storage_config" ∉ Object.keys (pre ++ post)) :
      GivenEmpty (.object (pre ++ post))
        (.object (pre ++ ("default_storage_config", .object []) :: post))
  | array (baseDir createDir : Json) :
      GivenEmpty (.array [baseDir, createDir]) (.array [baseDir, createDir, .object []])

/-- The other fields do not touch the default storage configuration. -/
theorem read_other {f : Derive.Field Json RedbBackendConfig} (hf : f ∈ fields)
    (hname : f.name ≠ "default_storage_config") {v : Json}
    {set : RedbBackendConfig → RedbBackendConfig} (hread : f.read v = .ok set)
    (c : RedbBackendConfig) : (set c).defaultStorageConfig = c.defaultStorageConfig ∧
      ∀ config, (set c).withDefaultStorageConfig config
        = set (c.withDefaultStorageConfig config) := by
  simp only [fields, List.mem_cons, List.not_mem_nil, or_false] at hf
  rcases hf with rfl | rfl | rfl
  · obtain ⟨baseDir, -, rfl⟩ := Derive.Field.of_read_eq_ok_iff.mp hread
    exact ⟨rfl, fun _ => rfl⟩
  · obtain ⟨createDir, -, rfl⟩ := Derive.Field.of_read_eq_ok_iff.mp hread
    exact ⟨rfl, fun _ => rfl⟩
  · exact absurd rfl hname

/-- What comes of the empty object. -/
theorem reads_empty : Derive.Reads fields ("default_storage_config", .object [])
    (·.withDefaultStorageConfig RedbStorageConfig.missing) := ⟨_, rfl, rfl⟩

/-- The empty object changes the default storage configuration, which without it is that of
the derived `Default`. -/
theorem GivenEmpty.deserialize_eq {json json' : Json} (h : GivenEmpty json json')
    {c : RedbBackendConfig} (hc : deserialize json = .ok c) :
    c.defaultStorageConfig = .new ∧
      deserialize json' = .ok (c.withDefaultStorageConfig RedbStorageConfig.missing) := by
  cases h with
  | object pre post hnew =>
      constructor
      · exact Derive.visitMap_keeps RedbBackendConfig.defaultStorageConfig
          (fun f hf hname v set hread r => (read_other hf hname hread r).1) hnew hc
      · refine Derive.visitMap_insert reads_empty ?_ hnew hc
        intro f hf hname v set hread r
        exact (read_other hf hname hread r).2 _
  | array baseDir createDir =>
      obtain ⟨set, hset, hrest⟩ := Derive.visitSeq_cons_eq_ok_iff.mp hc
      obtain ⟨set', hset', hend⟩ := Derive.visitSeq_cons_eq_ok_iff.mp hrest
      obtain ⟨b, -, rfl⟩ := Derive.Field.of_read_eq_ok_iff.mp hset
      obtain ⟨b', -, rfl⟩ := Derive.Field.of_read_eq_ok_iff.mp hset'
      obtain rfl := Except.ok.inj hend
      refine ⟨rfl, ?_⟩
      exact Derive.visitSeq_cons_eq_ok_iff.mpr ⟨_, hset,
        Derive.visitSeq_cons_eq_ok_iff.mpr ⟨_, hset', rfl⟩⟩

end RedbBackendConfig

/-! ## The two ways -/

open RedbStorageConfig RedbBackendConfig in
/-- **The two ways of building a configuration.** Reading an object gives what `new` and the
setters of its fields give, in any order, exactly if it gives `fsync`, `table_name` and
`create_db`. One of these that it leaves out has its documented default when it is read, and
not when it is built; all other fields agree. A backend configuration that leaves out
`default_storage_config` is never the one that gives it as an empty object. -/
theorem deserialize_eq_build_iff {o : Object} {setters calls : List Setter}
    (h : Describes o setters) (hperm : calls.Perm setters) :
    (∃ c, RedbStorageConfig.deserialize (.object o) = .ok c ∧
      (c = build calls ↔ "fsync" ∈ o.keys ∧ "table_name" ∈ o.keys ∧ "create_db" ∈ o.keys) ∧
      ("fsync" ∉ o.keys → c.fsync = true ∧ (build calls).fsync = false) ∧
      ("table_name" ∉ o.keys → c.tableName = "zenoh_kv" ∧ (build calls).tableName = "") ∧
      ("create_db" ∉ o.keys → c.createDb = true ∧ (build calls).createDb = false) ∧
      Alike c (build calls)) ∧
    ∀ (json json' : Json) (c : RedbBackendConfig), GivenEmpty json json' →
      RedbBackendConfig.deserialize json = .ok c →
      ∃ c', RedbBackendConfig.deserialize json' = .ok c' ∧ c' ≠ c := by
  constructor
  · have halike : Alike (Derive.setAll (setters.map Setter.call) missing) (build setters) :=
      Derive.setAll_rel Alike.call rfl
    rw [build_perm h.2 hperm]
    refine ⟨_, h.deserialize_eq, ?_, ?_, ?_, ?_, halike⟩
    · rw [halike.eq_iff]
      refine and_congr ?_ (and_congr ?_ ?_)
      · exact (h.agree_iff (.fsync true) isField_fsync).trans (or_iff_left (by decide))
      · exact (h.agree_iff (.tableName "") isField_tableName).trans (or_iff_left (by decide))
      · exact (h.agree_iff (.createDb true) isField_createDb).trans (or_iff_left (by decide))
    · exact h.left_out (.fsync true) isField_fsync
    · exact h.left_out (.tableName "") isField_tableName
    · exact h.left_out (.createDb true) isField_createDb
  · intro json json' c hjson hc
    obtain ⟨hdefault, hread⟩ := hjson.deserialize_eq hc
    refine ⟨_, hread, ?_⟩
    intro heq
    have hsame : RedbStorageConfig.missing = .new :=
      (congrArg RedbBackendConfig.defaultStorageConfig heq).trans hdefault
    exact absurd hsame (by decide)

open RedbStorageConfig RedbBackendConfig in
/-- A full object, built in another order, and a backend configuration with a directory. -/
theorem deserialize_eq_build_iff_of_full :
    (∃ c, RedbStorageConfig.deserialize (.object
          [("key_expr", .string "demo/**"), ("fsync", .bool false), ("comment", .null),
            ("table_name", .string "kv"), ("create_db", .bool true)]) = .ok c ∧
        c = build [.fsync false, .keyExpr "demo/**", .tableName "kv", .createDb true]) ∧
      ∃ c', RedbBackendConfig.deserialize (.object
          [("base_dir", .string "/db"), ("default_storage_config", .object [])]) = .ok c' ∧
        c' ≠ { baseDir := .ofString "/db" } := by
  have hdescribes : Describes
      [("key_expr", .string "demo/**"), ("fsync", .bool false), ("comment", .null),
        ("table_name", .string "kv"), ("create_db", .bool true)]
      [.keyExpr "demo/**", .fsync false, .tableName "kv", .createDb true] := ⟨rfl, by decide⟩
  obtain ⟨hstorage, hbackend⟩ := deserialize_eq_build_iff hdescribes (.swap _ _ _)
  obtain ⟨c, hc, hiff, -⟩ := hstorage
  refine ⟨⟨c, hc, hiff.mpr (by decide)⟩, ?_⟩
  exact hbackend _ _ _ (.object [("base_dir", .string "/db")] [] (by decide)) rfl

open RedbStorageConfig RedbBackendConfig in
/-- The empty object: `new` has another `fsync`, another table name and another `create_db`. -/
theorem deserialize_empty_ne_build :
    Describes [] [] ∧ RedbStorageConfig.deserialize (.object []) ≠ .ok (build []) ∧
      GivenEmpty (.object []) (.object [("default_storage_config", .object [])]) ∧
      RedbBackendConfig.deserialize (.object []) = .ok .new ∧
      RedbBackendConfig.deserialize (.object [("default_storage_config", .object [])])
        ≠ .ok .new := by
  refine ⟨⟨rfl, .nil⟩, ?_, .object [] [] (by decide), rfl, ?_⟩
  · intro h
    have hfsync : true = false := congrArg RedbStorageConfig.fsync (Except.ok.inj h)
    cases hfsync
  · intro h
    have hfsync : true = false :=
      congrArg (·.defaultStorageConfig.fsync) (Except.ok.inj h)
    cases hfsync

end ZenohRedb
