import ZenohRedb.ConfigSerde
import ZenohRedb.Lib.Codec

set_option autoImplicit false

/-! # Writing configurations (`config.rs`, the derived `Serialize`)

The fields of the two configurations with what is written for them: nothing for an optional one
that is `None` (`skip_serializing_if`), and a value otherwise. A path is written as a string,
which it need not be.

A configuration that can be written reads back as itself, and what is read can be written
(`storageConfig_roundTrip`, `backendConfig_roundTrip`). So it does not matter here that `new` and
reading the empty object differ: the fields in which they do are always written.
-/

namespace ZenohRedb

open Derive

namespace Json

/-- `serde_json::Error`, when a value cannot be written. -/
inductive WriteError
  | custom (message : String)
  deriving DecidableEq

/-! ## Writing values -/

def writeBool (b : Bool) : Except WriteError (Option Json) := .ok (some (.bool b))

def writeString (s : String) : Except WriteError (Option Json) := .ok (some (.string s))

/-- A `usize`, as a `u64`. -/
def writeUsize (n : Nat) : Except WriteError (Option Json) :=
  .ok (some (.number (.posInt (UInt64.ofNat n))))

def notUtf8 : WriteError := .custom "path contains invalid UTF-8 characters"

def writePathBuf (p : PathBuf) : Except WriteError (Option Json) :=
  match Str.fromUtf8 p.bytes with
  | some s => .ok (some (.string s))
  | none => .error notUtf8

/-- An `Option` with `skip_serializing_if = "Option::is_none"`. -/
def skipNone {α : Type} (write : α → Except WriteError (Option Json)) : Option α →
    Except WriteError (Option Json)
  | none => .ok none
  | some a => write a

/-- A value that is written by a function of its own, and not skipped. -/
def writeWith {α : Type} (write : α → Except WriteError Json) (a : α) :
    Except WriteError (Option Json) :=
  (write a).map some

/-- A structure, as an object. -/
def writeStruct {ρ : Type} (codecs : List (Codec Json ρ WriteError)) (r : ρ) :
    Except WriteError Json :=
  (writeMap r codecs).map .object

/-- A structure can be written and reads back as it was, also with the members in another order
and with members between them that are no fields. -/
def ComesBack {ρ : Type} (codecs : List (Codec Json ρ WriteError)) (missing c : ρ) : Prop :=
  ∃ ms, writeStruct codecs c = .ok (.object ms) ∧ ∀ members,
    (fieldMembers (codecs.map Codec.field) members).Perm ms →
      readStruct (codecs.map Codec.field) missing (.object members) = .ok c

section Values

variable {v : Json}

theorem readBool_of_write {b : Bool} (h : writeBool b = .ok (some v)) : readBool v = .ok b := by
  obtain rfl := Option.some.inj (Except.ok.inj h)
  rfl

theorem readString_of_write {s : String} (h : writeString s = .ok (some v)) :
    readString v = .ok s := by
  obtain rfl := Option.some.inj (Except.ok.inj h)
  rfl

theorem readUsize_of_write {n : Nat} (hn : n < 2 ^ 64) (h : writeUsize n = .ok (some v)) :
    readUsize v = .ok n := by
  obtain rfl := Option.some.inj (Except.ok.inj h)
  refine readUsize_eq_ok_iff.mpr ⟨UInt64.ofNat n, rfl, ?_⟩
  exact (UInt64.toNat_ofNat_of_lt' hn).symm

/-- A path can be written exactly if it is a string. -/
theorem writePathBuf_eq_ok_iff {p : PathBuf} {o : Option Json} :
    writePathBuf p = .ok o ↔ ∃ s, p = .ofString s ∧ o = some (.string s) := by
  unfold writePathBuf
  cases hs : Str.fromUtf8 p.bytes with
  | none =>
      refine iff_of_false nofun ?_
      rintro ⟨s, rfl, -⟩
      rw [PathBuf.ofString, Str.fromUtf8_asBytes] at hs
      cases hs
  | some s =>
      have hp : p = .ofString s := congrArg PathBuf.mk (Str.asBytes_of_fromUtf8 hs).symm
      constructor
      · intro h
        exact ⟨s, hp, (Except.ok.inj h).symm⟩
      · rintro ⟨s', rfl, rfl⟩
        rw [PathBuf.ofString, Str.fromUtf8_asBytes] at hs
        rw [Option.some.inj hs]

theorem writePathBuf_eq_error {p : PathBuf} {e : WriteError} (h : writePathBuf p = .error e) :
    e = notUtf8 := by
  unfold writePathBuf at h
  split at h
  · cases h
  · exact (Except.error.inj h).symm

theorem readPathBuf_of_write {p : PathBuf} (h : writePathBuf p = .ok (some v)) :
    readPathBuf v = .ok p := by
  obtain ⟨s, rfl, hv⟩ := writePathBuf_eq_ok_iff.mp h
  obtain rfl := Option.some.inj hv
  rfl

/-- An `Option` reads back if its value does, and is not written as `null`. -/
theorem readOption_of_write {α : Type} {read : Json → Except Error α}
    {write : α → Except WriteError (Option Json)} {o : Option α}
    (hread : ∀ a ∈ o, write a = .ok (some v) → read v = .ok a ∧ v ≠ .null)
    (h : skipNone write o = .ok (some v)) : readOption read v = .ok o := by
  cases o with
  | none => cases h
  | some a =>
      obtain ⟨ha, hnull⟩ := hread a rfl h
      have hmap : readOption read v = (read v).map some := by
        cases v with
        | null => exact absurd rfl hnull
        | _ => rfl
      rw [hmap, ha]
      rfl

theorem read_of_readOption {α : Type} {read : Json → Except Error α} {o : Option α} {a : α}
    (h : readOption read v = .ok o) (ha : a ∈ o) : read v = .ok a := by
  obtain rfl := Option.mem_def.mp ha
  have hread : (read v).map some = .ok (some a) := by
    cases v with
    | null => cases h
    | _ => exact h
  cases hv : read v with
  | error e =>
      rw [hv] at hread
      cases hread
  | ok b =>
      rw [hv] at hread
      exact congrArg _ (Option.some.inj (Except.ok.inj hread))

/-- An `Option` can be written exactly if its value can. -/
theorem exists_skipNone_iff {α : Type} {write : α → Except WriteError (Option Json)}
    {o : Option α} : (∃ v, skipNone write o = .ok v) ↔ ∀ a ∈ o, ∃ v, write a = .ok v := by
  cases o with
  | none => exact iff_of_true ⟨none, rfl⟩ nofun
  | some a => simp [skipNone]

theorem skipNone_eq_error {α : Type} {write : α → Except WriteError (Option Json)} {o : Option α}
    {e : WriteError} (h : skipNone write o = .error e) : ∃ a ∈ o, write a = .error e := by
  cases o with
  | none => cases h
  | some a => exact ⟨a, rfl, h⟩

/-- An `Option` is skipped exactly if it is `None`. -/
theorem skipNone_eq_skip {α : Type} {write : α → Except WriteError (Option Json)} {o : Option α}
    (hwrite : ∀ a, write a ≠ .ok none) (h : skipNone write o = .ok none) : none = o := by
  cases o with
  | none => rfl
  | some a => exact absurd h (hwrite a)

theorem writeWith_eq_ok_iff {α : Type} {write : α → Except WriteError Json} {a : α}
    {o : Option Json} : writeWith write a = .ok o ↔ ∃ v, write a = .ok v ∧ o = some v := by
  unfold writeWith
  cases write a <;> simp [Except.map, eq_comm]

theorem writeWith_eq_error_iff {α : Type} {write : α → Except WriteError Json} {a : α}
    {e : WriteError} : writeWith write a = .error e ↔ write a = .error e := by
  unfold writeWith
  cases write a <;> simp [Except.map]

end Values

section Structs

variable {ρ : Type} {codecs : List (Codec Json ρ WriteError)} {missing c : ρ}

theorem readStruct_eq_ok {fields : List (Field Json ρ)} {v : Json}
    (h : readStruct fields missing v = .ok c) :
    (∃ members, visitMap fields missing members = .ok c) ∨
      ∃ items, visitSeq fields missing items = .ok c := by
  cases v with
  | object members => exact .inl ⟨members, h⟩
  | array items => exact .inr ⟨items, h⟩
  | _ => cases h

theorem writeStruct_eq_ok_iff {ms : Object} :
    writeStruct codecs c = .ok (.object ms) ↔ writeMap c codecs = .ok ms := by
  unfold writeStruct
  cases writeMap c codecs <;> simp [Except.map]

theorem writeStruct_eq_error_iff {e : WriteError} :
    writeStruct codecs c = .error e ↔ writeMap c codecs = .error e := by
  unfold writeStruct
  cases writeMap c codecs <;> simp [Except.map]

theorem writeStruct_cases (codecs : List (Codec Json ρ WriteError)) (c : ρ) :
    (∃ ms, writeStruct codecs c = .ok (.object ms)) ∨ ∃ e, writeStruct codecs c = .error e := by
  unfold writeStruct
  cases writeMap c codecs with
  | ok ms => exact .inl ⟨ms, rfl⟩
  | error e => exact .inr ⟨e, rfl⟩

/-- What cannot be written has the error of a path. -/
theorem writeStruct_error_iff {P : Prop}
    (hok : (∃ ms, writeStruct codecs c = .ok (.object ms)) ↔ P)
    (herror : ∀ e, writeStruct codecs c = .error e → e = notUtf8) (e : WriteError) :
    writeStruct codecs c = .error e ↔ ¬ P ∧ e = notUtf8 := by
  constructor
  · intro he
    refine ⟨fun hP => ?_, herror e he⟩
    obtain ⟨ms, hms⟩ := hok.mpr hP
    cases he.symm.trans hms
  · rintro ⟨hP, rfl⟩
    obtain ⟨e, he⟩ := (writeStruct_cases codecs c).resolve_left (mt hok.mp hP)
    rw [he, herror e he]

theorem comesBack_of_writeStruct (hlaw : Lawful codecs)
    (hreturns : ∀ k ∈ codecs, k.Returns missing (k.get c))
    (h : ∃ ms, writeStruct codecs c = .ok (.object ms)) : ComesBack codecs missing c := by
  obtain ⟨ms, hms⟩ := h
  refine ⟨ms, hms, fun members hperm => ?_⟩
  exact visitMap_of_perm hlaw hreturns (writeStruct_eq_ok_iff.mp hms) hperm

/-- What was written reads back. -/
theorem ComesBack.readStruct_eq (hlaw : Lawful codecs) (h : ComesBack codecs missing c) {v : Json}
    (hv : writeStruct codecs c = .ok v) :
    readStruct (codecs.map Codec.field) missing v = .ok c := by
  obtain ⟨ms, hms, hback⟩ := h
  obtain rfl : .object ms = v := Except.ok.inj (hms.symm.trans hv)
  refine hback ms ?_
  rw [fieldMembers_of_writeMap hlaw.nodup (writeStruct_eq_ok_iff.mp hms)]

end Structs

end Json

open Json

/-! ## A storage configuration -/

namespace RedbStorageConfig

/-- The fields, as they are read and written. -/
def codecs : List (Codec Json RedbStorageConfig WriteError) :=
  [⟨"db_file", Option String, (·.dbFile), fun dbFile c => { c with dbFile },
      readOption readString, skipNone writeString, false⟩,
    ⟨"db_path", Option PathBuf, (·.dbPath), fun dbPath c => { c with dbPath },
      readOption readPathBuf, skipNone writePathBuf, false⟩,
    ⟨"cache_size", Option Nat, (·.cacheSize), fun cacheSize c => { c with cacheSize },
      readOption readUsize, skipNone writeUsize, false⟩,
    ⟨"fsync", Bool, (·.fsync), fun fsync c => { c with fsync }, readBool, writeBool, true⟩,
    ⟨"key_expr", Option String, (·.keyExpr), fun keyExpr c => { c with keyExpr },
      readOption readString, skipNone writeString, false⟩,
    ⟨"strip_prefix", Bool, (·.stripPrefix), fun stripPrefix c => { c with stripPrefix },
      readBool, writeBool, true⟩,
    ⟨"table_name", String, (·.tableName), fun tableName c => { c with tableName },
      readString, writeString, true⟩,
    ⟨"create_db", Bool, (·.createDb), fun createDb c => { c with createDb },
      readBool, writeBool, true⟩,
    ⟨"read_only", Bool, (·.readOnly), fun readOnly c => { c with readOnly },
      readBool, writeBool, true⟩]

def serialize : RedbStorageConfig → Except WriteError Json := writeStruct codecs

/-- `cache_size` is a `usize`. -/
def Sized (c : RedbStorageConfig) : Prop := ∀ n ∈ c.cacheSize, n < 2 ^ 64

/-- `db_path` is a string. -/
def Spelled (c : RedbStorageConfig) : Prop := ∀ p ∈ c.dbPath, ∃ s, p = .ofString s

theorem fields_eq : fields = codecs.map Codec.field := rfl

theorem lawful_codecs : Lawful codecs where
  nodup := by decide
  get_set k hk b r := by
    simp only [codecs, List.mem_cons, List.not_mem_nil, or_false] at hk
    rcases hk with rfl | rfl | rfl | rfl | rfl | rfl | rfl | rfl | rfl <;> rfl
  get_set_of_ne k hk k' hk' hne b r := by
    simp only [codecs, List.mem_cons, List.not_mem_nil, or_false] at hk hk'
    rcases hk with rfl | rfl | rfl | rfl | rfl | rfl | rfl | rfl | rfl <;>
      rcases hk' with rfl | rfl | rfl | rfl | rfl | rfl | rfl | rfl | rfl <;>
        first | rfl | exact absurd rfl hne
  ext r r' h := by
    simp only [codecs, List.forall_mem_cons] at h
    obtain ⟨h1, h2, h3, h4, h5, h6, h7, h8, h9, -⟩ := h
    cases r
    cases r'
    simp_all

variable {c : RedbStorageConfig}

/-- Every field comes back. -/
theorem returns (h : c.Sized) : ∀ k ∈ codecs, k.Returns missing (k.get c) := by
  have hstring : ∀ {o : Option String} (v : Json), skipNone writeString o = .ok (some v) →
      readOption readString v = .ok o := by
    intro o v
    refine readOption_of_write fun s _ hs => ⟨readString_of_write hs, ?_⟩
    obtain rfl := Option.some.inj (Except.ok.inj hs)
    exact nofun
  simp only [codecs, List.forall_mem_cons]
  refine ⟨⟨hstring, skipNone_eq_skip nofun⟩, ⟨?_, skipNone_eq_skip ?_⟩,
    ⟨?_, skipNone_eq_skip nofun⟩, ?_, ⟨hstring, skipNone_eq_skip nofun⟩, ?_, ?_, ?_, ?_, nofun⟩
  · intro v
    refine readOption_of_write fun p _ hp => ⟨readPathBuf_of_write hp, ?_⟩
    obtain ⟨s, -, hv⟩ := writePathBuf_eq_ok_iff.mp hp
    rw [Option.some.inj hv]
    exact nofun
  · intro p hp
    obtain ⟨s, -, hv⟩ := writePathBuf_eq_ok_iff.mp hp
    cases hv
  · intro v
    refine readOption_of_write fun n hn hv => ⟨readUsize_of_write (h n hn) hv, ?_⟩
    obtain rfl := Option.some.inj (Except.ok.inj hv)
    exact nofun
  · exact ⟨fun _ => readBool_of_write, nofun⟩
  · exact ⟨fun _ => readBool_of_write, nofun⟩
  · exact ⟨fun _ => readString_of_write, nofun⟩
  · exact ⟨fun _ => readBool_of_write, nofun⟩
  · exact ⟨fun _ => readBool_of_write, nofun⟩

/-- What can be read is sized and spelled. -/
theorem sized_spelled_of_deserialize {json : Json} (h : deserialize json = .ok c) :
    c.Sized ∧ c.Spelled := by
  have hvalues := get_of_read lawful_codecs (readStruct_eq_ok h)
  simp only [codecs, List.forall_mem_cons] at hvalues
  obtain ⟨-, hpath, hsize, -⟩ := hvalues
  constructor
  · intro n hn
    rcases hsize with ⟨v, hv⟩ | hnone
    · obtain ⟨k, -, rfl⟩ := readUsize_eq_ok_iff.mp (read_of_readOption hv hn)
      exact k.toNat_lt
    · rw [hnone] at hn
      cases hn
  · intro p hp
    rcases hpath with ⟨v, hv⟩ | hnone
    · obtain ⟨s, -, rfl⟩ := readPathBuf_eq_ok_iff.mp (read_of_readOption hv hp)
      exact ⟨s, rfl⟩
    · rw [hnone] at hp
      cases hp

/-- A configuration can be written exactly if its path is a string. -/
theorem exists_serialize_iff : (∃ ms, serialize c = .ok (.object ms)) ↔ c.Spelled := by
  simp only [serialize, writeStruct_eq_ok_iff, exists_writeMap_iff, codecs, List.forall_mem_cons]
  constructor
  · rintro ⟨-, hpath, -⟩ p hp
    obtain ⟨o, ho⟩ := exists_skipNone_iff.mp hpath p hp
    obtain ⟨s, hs, -⟩ := writePathBuf_eq_ok_iff.mp ho
    exact ⟨s, hs⟩
  · intro h
    have hall : ∀ {α : Type} {write : α → Option Json} {o : Option α},
        ∃ v, skipNone (fun a => .ok (write a)) o = .ok v :=
      exists_skipNone_iff.mpr fun a _ => ⟨_, rfl⟩
    refine ⟨hall, exists_skipNone_iff.mpr ?_, hall, ⟨_, rfl⟩, hall, ⟨_, rfl⟩, ⟨_, rfl⟩, ⟨_, rfl⟩,
      ⟨_, rfl⟩, nofun⟩
    intro p hp
    obtain ⟨s, rfl⟩ := h p hp
    exact ⟨_, writePathBuf_eq_ok_iff.mpr ⟨s, rfl, rfl⟩⟩

theorem spelled_of_serialize {json : Json} (h : serialize c = .ok json) : c.Spelled := by
  refine exists_serialize_iff.mp ((writeStruct_cases codecs c).resolve_right ?_)
  rintro ⟨e, he⟩
  cases he.symm.trans h

theorem serialize_eq_error {e : WriteError} (h : serialize c = .error e) : e = notUtf8 := by
  obtain ⟨k, hk, hwrite⟩ := exists_of_writeMap_error (writeStruct_eq_error_iff.mp h)
  simp only [codecs, List.mem_cons, List.not_mem_nil, or_false] at hk
  rcases hk with rfl | rfl | rfl | rfl | rfl | rfl | rfl | rfl | rfl
  case inr.inl =>
    obtain ⟨p, -, hp⟩ := skipNone_eq_error hwrite
    exact writePathBuf_eq_error hp
  -- no other field can fail
  case inl | inr.inr.inl | inr.inr.inr.inr.inl =>
    obtain ⟨a, -, ha⟩ := skipNone_eq_error hwrite
    cases ha
  all_goals cases hwrite

theorem comesBack (hsized : c.Sized) (hspelled : c.Spelled) : ComesBack codecs missing c :=
  comesBack_of_writeStruct lawful_codecs (returns hsized) (exists_serialize_iff.mpr hspelled)

end RedbStorageConfig

/-! ## A backend configuration -/

namespace RedbBackendConfig

/-- The fields, as they are read and written. -/
def codecs : List (Codec Json RedbBackendConfig WriteError) :=
  [⟨"base_dir", PathBuf, (·.baseDir), fun baseDir c => { c with baseDir },
      readPathBuf, writePathBuf, true⟩,
    ⟨"create_dir", Bool, (·.createDir), fun createDir c => { c with createDir },
      readBool, writeBool, true⟩,
    ⟨"default_storage_config", RedbStorageConfig, (·.defaultStorageConfig),
      fun defaultStorageConfig c => { c with defaultStorageConfig },
      RedbStorageConfig.deserialize, writeWith RedbStorageConfig.serialize, true⟩]

def serialize : RedbBackendConfig → Except WriteError Json := writeStruct codecs

/-- The paths are strings. -/
structure Spelled (c : RedbBackendConfig) : Prop where
  baseDir : ∃ s, c.baseDir = .ofString s
  storage : c.defaultStorageConfig.Spelled

theorem fields_eq : fields = codecs.map Codec.field := rfl

theorem lawful_codecs : Lawful codecs where
  nodup := by decide
  get_set k hk b r := by
    simp only [codecs, List.mem_cons, List.not_mem_nil, or_false] at hk
    rcases hk with rfl | rfl | rfl <;> rfl
  get_set_of_ne k hk k' hk' hne b r := by
    simp only [codecs, List.mem_cons, List.not_mem_nil, or_false] at hk hk'
    rcases hk with rfl | rfl | rfl <;> rcases hk' with rfl | rfl | rfl <;>
      first | rfl | exact absurd rfl hne
  ext r r' h := by
    simp only [codecs, List.forall_mem_cons] at h
    obtain ⟨hbase, hcreate, hstorage, -⟩ := h
    cases r
    cases r'
    simp_all

variable {c : RedbBackendConfig}

theorem returns (h : c.defaultStorageConfig.Sized) :
    ∀ k ∈ codecs, k.Returns missing (k.get c) := by
  simp only [codecs, List.forall_mem_cons]
  refine ⟨⟨fun _ => readPathBuf_of_write, ?_⟩, ⟨fun _ => readBool_of_write, nofun⟩, ⟨?_, ?_⟩,
    nofun⟩
  · intro hskip
    obtain ⟨s, -, hv⟩ := writePathBuf_eq_ok_iff.mp hskip
    cases hv
  · intro v hv
    obtain ⟨json, hjson, hsome⟩ := writeWith_eq_ok_iff.mp hv
    rw [Option.some.inj hsome]
    have hback := RedbStorageConfig.comesBack h (RedbStorageConfig.spelled_of_serialize hjson)
    exact hback.readStruct_eq RedbStorageConfig.lawful_codecs hjson
  · intro hskip
    obtain ⟨json, -, hnone⟩ := writeWith_eq_ok_iff.mp hskip
    cases hnone

theorem spelled_of_deserialize {json : Json} (h : deserialize json = .ok c) :
    c.defaultStorageConfig.Sized ∧ c.Spelled := by
  have hvalues := get_of_read lawful_codecs (readStruct_eq_ok h)
  simp only [codecs, List.forall_mem_cons] at hvalues
  obtain ⟨hbase, -, hstorage, -⟩ := hvalues
  have hpath : ∃ s, c.baseDir = .ofString s := by
    rcases hbase with ⟨v, hv⟩ | hdefault
    · obtain ⟨s, -, hs⟩ := readPathBuf_eq_ok_iff.mp hv
      exact ⟨s, hs⟩
    · exact ⟨_, hdefault⟩
  rcases hstorage with ⟨v, hv⟩ | hdefault
  · obtain ⟨hsized, hspelled⟩ := RedbStorageConfig.sized_spelled_of_deserialize hv
    exact ⟨hsized, hpath, hspelled⟩
  · have hnew : c.defaultStorageConfig = .new := hdefault
    refine ⟨?_, hpath, ?_⟩
    · rw [hnew]
      exact nofun
    · rw [hnew]
      exact nofun

/-- A configuration can be written exactly if its paths are strings. -/
theorem exists_serialize_iff : (∃ ms, serialize c = .ok (.object ms)) ↔ c.Spelled := by
  simp only [serialize, writeStruct_eq_ok_iff, exists_writeMap_iff, codecs, List.forall_mem_cons]
  constructor
  · rintro ⟨⟨o, ho⟩, -, ⟨o', ho'⟩, -⟩
    obtain ⟨s, hs, -⟩ := writePathBuf_eq_ok_iff.mp ho
    obtain ⟨json, hjson, -⟩ := writeWith_eq_ok_iff.mp ho'
    exact ⟨⟨s, hs⟩, RedbStorageConfig.spelled_of_serialize hjson⟩
  · rintro ⟨⟨s, hs⟩, hstorage⟩
    obtain ⟨ms, hms⟩ := RedbStorageConfig.exists_serialize_iff.mpr hstorage
    exact ⟨⟨_, writePathBuf_eq_ok_iff.mpr ⟨s, hs, rfl⟩⟩, ⟨_, rfl⟩,
      ⟨_, writeWith_eq_ok_iff.mpr ⟨_, hms, rfl⟩⟩, nofun⟩

theorem serialize_eq_error {e : WriteError} (h : serialize c = .error e) : e = notUtf8 := by
  obtain ⟨k, hk, hwrite⟩ := exists_of_writeMap_error (writeStruct_eq_error_iff.mp h)
  simp only [codecs, List.mem_cons, List.not_mem_nil, or_false] at hk
  rcases hk with rfl | rfl | rfl
  · exact writePathBuf_eq_error hwrite
  · cases hwrite
  · exact RedbStorageConfig.serialize_eq_error (writeWith_eq_error_iff.mp hwrite)

theorem comesBack (hsized : c.defaultStorageConfig.Sized) (hspelled : c.Spelled) :
    ComesBack codecs missing c :=
  comesBack_of_writeStruct lawful_codecs (returns hsized) (exists_serialize_iff.mpr hspelled)

end RedbBackendConfig

/-! ## Round trips -/

open RedbStorageConfig in
/-- **A storage configuration comes back.** It can be written exactly if its path is a string,
and then what is written reads back as it was, also with the members in another order and
members that are no fields between them. What is read, from an object or from an array, can be
written and comes back. -/
theorem storageConfig_roundTrip {c : RedbStorageConfig} (h : c.Sized) :
    (∀ e, serialize c = .error e ↔ ¬ c.Spelled ∧ e = notUtf8) ∧
    (c.Spelled → ComesBack codecs missing c) ∧
    ∀ json c', deserialize json = .ok c' → ComesBack codecs missing c' := by
  refine ⟨writeStruct_error_iff exists_serialize_iff fun _ => serialize_eq_error, comesBack h, ?_⟩
  intro json c' hc'
  obtain ⟨hsized, hspelled⟩ := sized_spelled_of_deserialize hc'
  exact comesBack hsized hspelled

open RedbStorageConfig in
/-- A configuration that is built, and one that cannot be written. -/
theorem storageConfig_roundTrip_built :
    let c := (RedbStorageConfig.new.withCacheSize 1024).withKeyExpr "demo/**"
    (∃ json, serialize c = .ok json ∧ deserialize json = .ok c) ∧
      serialize (c.withDbPath ⟨[0xff]⟩) = .error notUtf8 := by
  intro c
  have hsized : ∀ n ∈ some 1024, n < 2 ^ 64 := by decide
  obtain ⟨-, hback, -⟩ := storageConfig_roundTrip (c := c) hsized
  obtain ⟨herror, -, -⟩ := storageConfig_roundTrip (c := c.withDbPath ⟨[0xff]⟩) hsized
  constructor
  · have hc := hback nofun
    have ⟨ms, hms, _⟩ := hc
    exact ⟨_, hms, hc.readStruct_eq lawful_codecs hms⟩
  · refine (herror notUtf8).mpr ⟨fun hspelled => ?_, rfl⟩
    obtain ⟨s, hs⟩ := hspelled _ rfl
    have hutf8 := congrArg (fun p => Str.fromUtf8 p.bytes) hs
    simp only [PathBuf.ofString, Str.fromUtf8_asBytes] at hutf8
    have hnone : Str.fromUtf8 [0xff] = none := by rfl
    rw [hnone] at hutf8
    cases hutf8

open RedbBackendConfig in
/-- **A backend configuration comes back**, with the storage configuration in it. -/
theorem backendConfig_roundTrip {c : RedbBackendConfig} (h : c.defaultStorageConfig.Sized) :
    (∀ e, serialize c = .error e ↔ ¬ c.Spelled ∧ e = notUtf8) ∧
    (c.Spelled → ComesBack codecs missing c) ∧
    ∀ json c', deserialize json = .ok c' → ComesBack codecs missing c' := by
  refine ⟨writeStruct_error_iff exists_serialize_iff fun _ => serialize_eq_error, comesBack h, ?_⟩
  intro json c' hc'
  obtain ⟨hsized, hspelled⟩ := spelled_of_deserialize hc'
  exact comesBack hsized hspelled

open RedbBackendConfig in
/-- A storage configuration from `new` stays what it is inside a backend configuration, although
an empty object would be read as another one. -/
theorem backendConfig_roundTrip_new :
    ∃ json, serialize .new = .ok json ∧ deserialize json = .ok .new := by
  obtain ⟨-, hback, -⟩ := backendConfig_roundTrip (c := .new) nofun
  have hnew := hback ⟨⟨_, rfl⟩, nofun⟩
  have ⟨ms, hms, _⟩ := hnew
  exact ⟨_, hms, hnew.readStruct_eq lawful_codecs hms⟩

end ZenohRedb
