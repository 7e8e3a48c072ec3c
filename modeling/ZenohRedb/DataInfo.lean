import ZenohRedb.Error
import ZenohRedb.Lib.Text

set_option autoImplicit false

/-! # Values and their metadata (`storage.rs`, lines 35 to 150)

The metadata of an entry is stored as a tuple (`DataInfoTuple`) that Zenoh's serialization
turns into bytes. That serialization is a library outside this repository: `ZExt` stands for
it, with the one law the code relies on. Everything else is translated here, in particular
the conversion of a timestamp id to and from its 16 little-endian bytes and the way an
optional schema is flattened to a byte string.
-/

namespace ZenohRedb

/-- `zenoh::time::TimestampId`: a nonzero 128-bit number. -/
structure TimestampId where
  bits : BitVec 128
  ne_zero : bits ≠ 0
  deriving DecidableEq

/-- `zenoh::time::Timestamp`: an NTP64 time and the id of the clock. -/
structure Timestamp where
  time : UInt64
  id : TimestampId
  deriving DecidableEq

/-- The earliest timestamp of the clock with id 1. -/
def Timestamp.first : Timestamp := ⟨0, ⟨1, by decide⟩⟩

/-- `zenoh::bytes::Encoding`. -/
structure Encoding where
  id : UInt16
  schema : Option Bytes
  deriving DecidableEq

/-- `StoredValue`. -/
structure StoredValue where
  payload : Bytes
  timestamp : Timestamp
  encoding : Encoding
  deriving DecidableEq

namespace TimestampId

/-- `to_le_bytes`. -/
def toLeBytes (id : TimestampId) : List.Vector UInt8 16 :=
  ⟨Bytes.leBytes 16 id.bits.toNat, Bytes.length_leBytes 16 _⟩

/-- `TimestampId::try_from` on 16 little-endian bytes: zero is refused. -/
def tryFrom (bs : List.Vector UInt8 16) : Option TimestampId :=
  if h : BitVec.ofNat 128 (Bytes.ofLeBytes bs.toList) = 0 then none else some ⟨_, h⟩

theorem tryFrom_toLeBytes (id : TimestampId) : tryFrom id.toLeBytes = some id := by
  have hlt : id.bits.toNat < 256 ^ 16 := id.bits.isLt
  have hbits : BitVec.ofNat 128 (Bytes.ofLeBytes id.toLeBytes.toList) = id.bits := by
    show BitVec.ofNat 128 (Bytes.ofLeBytes (Bytes.leBytes 16 id.bits.toNat)) = id.bits
    rw [Bytes.ofLeBytes_leBytes hlt, BitVec.ofNat_toNat, BitVec.setWidth_eq]
  obtain ⟨bits, hne⟩ := id
  unfold tryFrom
  rw [dif_neg (by rw [hbits]; exact hne)]
  simp only [hbits]

end TimestampId

/-- `DataInfo`: the metadata of an entry. -/
structure DataInfo where
  timestamp : Timestamp
  deleted : Bool
  encoding : Encoding
  deriving DecidableEq

/-- `(timestamp_time, timestamp_id, deleted, encoding_id, encoding_schema)`. -/
abbrev DataInfoTuple := UInt64 × List.Vector UInt8 16 × Bool × UInt16 × Bytes

namespace DataInfo

/-- `DataInfo::as_tuple`. A missing schema becomes the empty byte string. -/
def asTuple (d : DataInfo) : DataInfoTuple :=
  let timestampTime := d.timestamp.time
  let timestampId := d.timestamp.id.toLeBytes
  let encodingId := d.encoding.id
  let encodingSchema := d.encoding.schema.getD []
  let deleted := d.deleted
  (timestampTime, timestampId, deleted, encodingId, encodingSchema)

/-- `DataInfo::from_tuple`. An empty byte string becomes a missing schema. -/
def fromTuple : DataInfoTuple → Except RedbBackendError DataInfo
  | (timestampTime, timestampId, deleted, encodingId, encodingSchema) =>
      match TimestampId.tryFrom timestampId with
      -- the source appends the text of the error
      | none => .error (.serializationError "Invalid timestamp ID")
      | some timestampId =>
          let timestamp : Timestamp := ⟨timestampTime, timestampId⟩
          let encodingSchema := if encodingSchema.isEmpty then none else some encodingSchema
          let encoding : Encoding := ⟨encodingId, encodingSchema⟩
          .ok ⟨timestamp, deleted, encoding⟩

end DataInfo

/-- The serialization of `zenoh_ext`, and that `z_deserialize` undoes `z_serialize`. -/
structure ZExt where
  zSerialize : DataInfoTuple → Bytes
  zDeserialize : Bytes → Option DataInfoTuple
  deserialize_serialize : ∀ t, zDeserialize (zSerialize t) = some t

section

variable (z : ZExt)

/-- `encode_data_info`. -/
def encodeDataInfo (encoding : Encoding) (timestamp : Timestamp) (deleted : Bool) :
    Except RedbBackendError Bytes :=
  let dataInfo : DataInfo := ⟨timestamp, deleted, encoding⟩
  .ok (z.zSerialize dataInfo.asTuple)

/-- `decode_data_info`. -/
def decodeDataInfo (buf : Bytes) : Except RedbBackendError (Encoding × Timestamp × Bool) :=
  match z.zDeserialize buf with
  | none =>
      .error (.serializationError "Failed to decode data-info (encoding, deleted, timestamp)")
  | some tuple =>
      match DataInfo.fromTuple tuple with
      | .error e => .error e
      | .ok dataInfo => .ok (dataInfo.encoding, dataInfo.timestamp, dataInfo.deleted)

end

/-! ## The round trip

Flattening and restoring a schema identifies the empty schema with a missing one, and
nothing else (`canon`). -/

/-- The encoding with an empty schema replaced by none. -/
def Encoding.canon (e : Encoding) : Encoding :=
  ⟨e.id, if e.schema = some [] then none else e.schema⟩

def StoredValue.canon (v : StoredValue) : StoredValue := { v with encoding := v.encoding.canon }

theorem Encoding.canon_eq_self_iff (e : Encoding) : e.canon = e ↔ e.schema ≠ some [] := by
  obtain ⟨id, schema⟩ := e
  simp only [Encoding.canon, Encoding.mk.injEq, true_and]
  by_cases h : schema = some []
  · simp [h]
  · simp [h]

@[simp] theorem Encoding.canon_canon (e : Encoding) : e.canon.canon = e.canon := by
  rw [Encoding.canon_eq_self_iff]
  simp only [Encoding.canon]
  split
  · simp
  · assumption

@[simp] theorem StoredValue.canon_canon (v : StoredValue) : v.canon.canon = v.canon := by
  simp [StoredValue.canon]

theorem DataInfo.fromTuple_asTuple (d : DataInfo) :
    DataInfo.fromTuple d.asTuple = .ok { d with encoding := d.encoding.canon } := by
  obtain ⟨timestamp, deleted, ⟨id, schema⟩⟩ := d
  simp only [DataInfo.asTuple, DataInfo.fromTuple, TimestampId.tryFrom_toLeBytes]
  -- both `none` and the empty schema are the empty byte string by now
  cases schema with
  | none => rfl
  | some s =>
      cases s with
      | nil => rfl
      | cons b bs => rfl

/-- What `decode_data_info` makes of what `encode_data_info` wrote. -/
theorem decodeDataInfo_zSerialize (z : ZExt) (encoding : Encoding) (timestamp : Timestamp)
    (deleted : Bool) :
    decodeDataInfo z (z.zSerialize (DataInfo.asTuple ⟨timestamp, deleted, encoding⟩))
      = .ok (encoding.canon, timestamp, deleted) := by
  unfold decodeDataInfo
  rw [z.deserialize_serialize]
  simp only [DataInfo.fromTuple_asTuple]

/-- The ids that are read are written back as they were. -/
theorem TimestampId.toLeBytes_of_tryFrom {bs : List.Vector UInt8 16} {id : TimestampId}
    (h : TimestampId.tryFrom bs = some id) : id.toLeBytes = bs := by
  obtain ⟨l, hl⟩ := bs
  unfold TimestampId.tryFrom at h
  split at h
  · cases h
  · -- sixteen bytes fit into 128 bits, so nothing is cut off
    obtain rfl := Option.some.inj h
    have hlt : Bytes.ofLeBytes l < 2 ^ 128 := by
      have hlt := Bytes.ofLeBytes_lt l
      rw [hl] at hlt
      exact hlt
    refine Subtype.ext ?_
    show Bytes.leBytes 16 (BitVec.ofNat 128 (Bytes.ofLeBytes l)).toNat = l
    rw [BitVec.toNat_ofNat, Nat.mod_eq_of_lt hlt, ← hl, Bytes.leBytes_ofLeBytes]

/-- Only the id of sixteen zero bytes is refused. -/
theorem TimestampId.tryFrom_eq_none_iff {bs : List.Vector UInt8 16} :
    TimestampId.tryFrom bs = none ↔ ∀ b ∈ bs.toList, b = 0 := by
  have hlt : Bytes.ofLeBytes bs.toList < 2 ^ 128 := by
    have hlt := Bytes.ofLeBytes_lt bs.toList
    rw [bs.toList_length] at hlt
    exact hlt
  rw [← Bytes.ofLeBytes_eq_zero_iff]
  unfold TimestampId.tryFrom
  by_cases h : BitVec.ofNat 128 (Bytes.ofLeBytes bs.toList) = 0
  · have hzero := congrArg BitVec.toNat h
    rw [BitVec.toNat_ofNat, Nat.mod_eq_of_lt hlt] at hzero
    simp [hzero]
  · rw [dif_neg h]
    refine iff_of_false (by simp) fun hzero => h ?_
    rw [hzero]
    rfl

/-- `from_tuple` accepts a tuple exactly if the bytes of its id are not all zero. -/
theorem DataInfo.fromTuple_ok_iff (t : DataInfoTuple) :
    (∃ d, DataInfo.fromTuple t = .ok d) ↔ ∃ b ∈ t.2.1.toList, b ≠ 0 := by
  obtain ⟨time, idBytes, deleted, encodingId, schema⟩ := t
  have hnone : TimestampId.tryFrom idBytes = none ↔ ∀ b ∈ idBytes.toList, b = 0 :=
    TimestampId.tryFrom_eq_none_iff
  simp only [DataInfo.fromTuple]
  cases hid : TimestampId.tryFrom idBytes with
  | none =>
      have hzero := hnone.mp hid
      refine iff_of_false (by simp) ?_
      rintro ⟨b, hb, hne⟩
      exact hne (hzero b hb)
  | some id =>
      refine iff_of_true ⟨_, rfl⟩ ?_
      by_contra hall
      push Not at hall
      rw [hnone.mpr hall] at hid
      cases hid

/-- A tuple that is accepted is the tuple of what it is read as: no two tuples are read as the
same metadata. -/
theorem DataInfo.asTuple_of_fromTuple {t : DataInfoTuple} {d : DataInfo}
    (h : DataInfo.fromTuple t = .ok d) : d.asTuple = t := by
  obtain ⟨time, idBytes, deleted, encodingId, schema⟩ := t
  simp only [DataInfo.fromTuple] at h
  cases hid : TimestampId.tryFrom idBytes with
  | none =>
      rw [hid] at h
      cases h
  | some id =>
      rw [hid] at h
      obtain rfl := Except.ok.inj h
      have hbytes := TimestampId.toLeBytes_of_tryFrom hid
      cases schema with
      | nil => simp [DataInfo.asTuple, hbytes]
      | cons b bs => simp [DataInfo.asTuple, hbytes]

/-! ## A serialization

Integers little-endian, the flag as one byte, the id and the schema with their length in front
as a base-128 number; the length of the id is checked on reading. It shows that the law of `ZExt`
can be met, and gives concrete runs something to compute with. -/

namespace ZExt

open Bytes

/-- The flag as a byte. -/
def flagBytes (b : Bool) : Bytes := [if b then 1 else 0]

def readFlag : Reader Bool
  | 0 :: rest => some (false, rest)
  | 1 :: rest => some (true, rest)
  | _ => none

theorem readFlag_undoes : readFlag.Undoes flagBytes := by
  intro b rest
  cases b <;> rfl

def readU64 : Reader UInt64 := readLe 8 UInt64.ofNat

def readU16 : Reader UInt16 := readLe 2 UInt16.ofNat

theorem readU64_undoes : readU64.Undoes (fun t => leBytes 8 t.toNat) := by
  refine readLe_undoes (fun t => ?_) (fun t => UInt64.ofNat_toNat)
  have h := t.toNat_lt
  norm_num
  omega

theorem readU16_undoes : readU16.Undoes (fun t => leBytes 2 t.toNat) := by
  refine readLe_undoes (fun t => ?_) (fun t => UInt16.ofNat_toNat)
  have h := t.toNat_lt
  norm_num
  omega

def writeTuple (t : DataInfoTuple) : Bytes :=
  leBytes 8 t.1.toNat ++ ((varint 16 ++ t.2.1.toList) ++ (flagBytes t.2.2.1
    ++ (leBytes 2 t.2.2.2.1.toNat ++ (varint t.2.2.2.2.length ++ t.2.2.2.2))))

def readTuple : Reader DataInfoTuple :=
  readU64.seq ((readArray 16).seq (readFlag.seq (readU16.seq readBlock)))

theorem readTuple_undoes : readTuple.Undoes writeTuple :=
  readU64_undoes.seq ((readArray_undoes 16).seq
    (readFlag_undoes.seq (readU16_undoes.seq readBlock_undoes)))

/-- A serialization that meets the law. -/
def layout : ZExt where
  zSerialize := writeTuple
  zDeserialize := readTuple.whole
  deserialize_serialize := readTuple_undoes.whole

end ZExt

end ZenohRedb
