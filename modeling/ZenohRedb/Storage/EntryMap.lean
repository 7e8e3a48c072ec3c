import ZenohRedb.Storage.Tables

set_option autoImplicit false

/-! # The two tables as one map

What the storage is for: a finite map from key strings to values (`EntryMap`). The two tables
represent such a map when they are *consistent*: they have the same keys, every key is valid
UTF-8, and every metadata record decodes and is not a tombstone (`Tables.Consistent`). Then
`entry` reads off the value of a key, `entries` lists all of them in the order of the key
bytes, and `T.Represents z m` says that they are those of `m`, with encodings in canonical
form.

Each operation on the tables has its counterpart on the map (`Represents.put`,
`Represents.delete`, `represents_empty`), and each read returns what the map says
(`Represents.get`, `Represents.scan`, `Represents.count`).
-/

namespace ZenohRedb

open TxStore

/-- The abstract contents of a storage: a finite map from key strings to values, listed in
the order of the keys' UTF-8 bytes. -/
abbrev EntryMap := Std.ExtTreeMap String StoredValue Str.compareBytes

/-- Lists of entries in strictly increasing order of the key bytes. -/
def keyLt {α : Type} (a b : String × α) : Prop := Str.compareBytes a.1 b.1 = .lt

instance {α : Type} : Std.Irrefl (keyLt (α := α)) where
  irrefl a h := by
    have hself : Str.compareBytes a.1 a.1 = .eq := Std.ReflCmp.compare_self
    rw [keyLt, hself] at h
    cases h

instance {α : Type} : Std.Antisymm (keyLt (α := α)) where
  antisymm a b hab hba := by
    have hgt : Str.compareBytes b.1 a.1 = .gt := Std.OrientedCmp.gt_of_lt hab
    rw [keyLt, hgt] at hba
    cases hba

section Sorted

variable {α : Type} {l : List (String × α)}

/-- A key occurs once in a sorted list. -/
theorem nodup_of_pairwise_keyLt (h : l.Pairwise keyLt) : (l.map Prod.fst).Nodup := by
  rw [List.nodup_iff_pairwise_ne, List.pairwise_map]
  refine h.imp ?_
  intro a b hab heq
  have hself : Str.compareBytes b.1 b.1 = .eq := Std.ReflCmp.compare_self
  rw [keyLt, heq, hself] at hab
  cases hab

/-- Looking up a key in a sorted list finds its entry. -/
theorem lookup_of_pairwise_keyLt (h : l.Pairwise keyLt) (key : String) (v : α) :
    l.lookup key = some v ↔ (key, v) ∈ l := by
  rw [List.lookup_eq_some_iff]
  constructor
  · rintro ⟨l₁, l₂, rfl, -⟩
    simp
  · intro hmem
    obtain ⟨l₁, l₂, rfl⟩ := List.append_of_mem hmem
    refine ⟨l₁, l₂, rfl, fun e he => ?_⟩
    have hnodup := nodup_of_pairwise_keyLt h
    rw [List.map_append, List.nodup_append] at hnodup
    have hne := hnodup.2.2 e.1 (List.mem_map_of_mem he) key (by simp)
    simpa using hne.symm

end Sorted

namespace Tables

variable (z : ZExt)

/-- The dual-table invariant. -/
structure Consistent (T : Tables) : Prop where
  sameKeys : ∀ k, k ∈ T.payloads ↔ k ∈ T.dataInfo
  utf8 : ∀ k ∈ T.dataInfo, ∃ key, Str.asBytes key = k
  live : ∀ (k info : Bytes), T.dataInfo[k]? = some info →
    ∃ encoding timestamp, decodeDataInfo z info = .ok (encoding, timestamp, false)

/-- The value stored under a key: what `get` returns where it does not fail. -/
def entry (T : Tables) (key : String) : Option StoredValue :=
  match T.get z key with
  | .ok v => v
  | .error _ => none

/-- The key and the value of an entry of the metadata table. -/
def entryOf (T : Tables) (item : Bytes × Bytes) : Option (String × StoredValue) :=
  (Str.fromUtf8 item.1).bind fun key => (T.entry z key).map (key, ·)

/-- All entries, in the order of the key bytes. -/
def entries (T : Tables) : List (String × StoredValue) := T.dataInfo.toList.filterMap (T.entryOf z)

/-! ## Any tables

A scan decodes every key, and the record of every key that it selects, so it ends well exactly
if all of these decode; then it returns the entries that it selects (`scan_eq_ok_iff`). A
tombstone or a key in one table only is no entry, for `get` as for a scan. -/

/-- The key has a payload and a record that decodes and is not a tombstone, and these make up
the value. -/
def Holds (T : Tables) (key : String) (v : StoredValue) : Prop :=
  T.payloads[Str.asBytes key]? = some v.payload ∧
    ∃ info, T.dataInfo[Str.asBytes key]? = some info ∧
      decodeDataInfo z info = .ok (v.encoding, v.timestamp, false)

/-- The key has a record that does not decode. -/
def Undecodable (T : Tables) (key : String) : Prop :=
  ∃ info e, T.dataInfo[Str.asBytes key]? = some info ∧ decodeDataInfo z info = .error e

/-- Every key of the metadata table is a string. -/
def Utf8 (T : Tables) : Prop := ∀ k ∈ T.dataInfo, ∃ key, Str.asBytes key = k

variable {z} {T : Tables}

theorem get_eq_some_iff {key : String} {v : StoredValue} :
    T.get z key = .ok (some v) ↔ T.Holds z key v := by
  obtain ⟨payload, timestamp, encoding⟩ := v
  unfold Tables.get Holds
  cases hp : T.payloads[Str.asBytes key]? with
  | none => cases T.dataInfo[Str.asBytes key]? <;> simp [RedbStorage.getMatch]
  | some payload' =>
      cases hi : T.dataInfo[Str.asBytes key]? with
      | none => simp [RedbStorage.getMatch]
      | some info =>
          cases hd : decodeDataInfo z info with
          | error e => simp [RedbStorage.getMatch, hd]
          | ok decoded =>
              obtain ⟨encoding', timestamp', deleted⟩ := decoded
              cases deleted with
              | true => simp [RedbStorage.getMatch, hd]
              | false =>
                  simp only [RedbStorage.getMatch, hd, Bool.false_eq_true, if_false,
                    Except.ok.injEq, Option.some.injEq, StoredValue.mk.injEq, Prod.mk.injEq,
                    exists_eq_left', and_true]
                  exact and_congr_right fun _ => and_comm

theorem entry_eq_some_iff {key : String} {v : StoredValue} :
    T.entry z key = some v ↔ T.Holds z key v := by
  rw [← get_eq_some_iff]
  unfold Tables.entry
  cases T.get z key with
  | error e => simp
  | ok o => simp

theorem mem_entries (key : String) (v : StoredValue) :
    (key, v) ∈ T.entries z ↔ T.entry z key = some v := by
  unfold Tables.entries
  rw [List.mem_filterMap]
  constructor
  · rintro ⟨item, -, h⟩
    unfold Tables.entryOf at h
    obtain ⟨key', -, h⟩ := Option.bind_eq_some_iff.mp h
    obtain ⟨v', hv', he⟩ := Option.map_eq_some_iff.mp h
    cases he
    exact hv'
  · intro h
    obtain ⟨-, info, hi, -⟩ := entry_eq_some_iff.mp h
    refine ⟨(Str.asBytes key, info), Std.ExtTreeMap.mem_toList_iff_getElem?_eq_some.mpr hi, ?_⟩
    simp [Tables.entryOf, h]

/-- A record contributes to a scan if its key is a string and it decodes or is not selected;
then it contributes the entry of its key, if there is one and it is selected. -/
theorem scanEntry_eq_ok_iff {sel : String → Bool} {k info : Bytes} (hi : T.dataInfo[k]? = some info)
    {o : Option (String × StoredValue)} :
    T.scanEntry z sel (k, info) = .ok o ↔
      (∃ key, Str.asBytes key = k ∧ (sel key = true → ¬ T.Undecodable z key)) ∧
        o = (T.entryOf z (k, info)).filter (sel ·.1) := by
  unfold Tables.scanEntry decodeKey
  cases hk : Str.fromUtf8 k with
  | none =>
      have hno : ¬ ∃ key, Str.asBytes key = k ∧ (sel key = true → ¬ T.Undecodable z key) := by
        rintro ⟨key, rfl, -⟩
        rw [Str.fromUtf8_asBytes] at hk
        cases hk
      simp [hno]
  | some key =>
      obtain rfl := Str.asBytes_of_fromUtf8 hk
      have hent : T.entryOf z (Str.asBytes key, info) = (T.entry z key).map (key, ·) := by
        simp [Tables.entryOf]
      simp only [Str.asBytes_inj, exists_eq_left, hent]
      cases hsel : sel key with
      | false => cases T.entry z key <;> simp [Option.filter, hsel, eq_comm]
      | true =>
          cases hdec : decodeDataInfo z info with
          | error e =>
              have hu : T.Undecodable z key := ⟨info, e, hi, hdec⟩
              simp [hu]
          | ok decoded =>
              have hu : ¬ T.Undecodable z key := by
                rintro ⟨info', e, hi', he⟩
                rw [hi] at hi'
                cases hi'
                rw [hdec] at he
                cases he
              obtain ⟨encoding, timestamp, deleted⟩ := decoded
              unfold Tables.entry Tables.get
              -- the two look-ups of `get`, on the record the scan is at
              cases hp : T.payloads[Str.asBytes key]? with
              | none => cases deleted <;>
                  simp [hu, hi, RedbStorage.getMatch, Option.filter, eq_comm]
              | some payload => cases deleted <;>
                  simp [hu, hi, RedbStorage.getMatch, hdec, Option.filter, hsel, eq_comm]

/-- A loop that appends what each item contributes ends well exactly if every item does. -/
theorem foldlM_append_eq_ok_iff {ε α β : Type} {f : α → Except ε (Option β)}
    {g : α → Option β} {l : List α} (hg : ∀ x ∈ l, ∀ o, f x = .ok o → o = g x)
    (acc r : List β) :
    l.foldlM (fun acc x => (f x).map (acc ++ ·.toList)) acc = .ok r ↔
      (∀ x ∈ l, ∃ o, f x = .ok o) ∧ r = acc ++ l.filterMap g := by
  induction l generalizing acc with
  | nil => simp [pure, Except.pure, eq_comm]
  | cons x xs ih =>
      rw [List.foldlM_cons, List.forall_mem_cons]
      cases hx : f x with
      | error e => simp [Except.map, bind, Except.bind]
      | ok o =>
          obtain rfl := hg x (by simp) o hx
          have hxs := ih (fun y hy => hg y (by simp [hy])) (acc ++ (g x).toList)
          have hcons : acc ++ (x :: xs).filterMap g = acc ++ (g x).toList ++ xs.filterMap g := by
            cases hgx : g x <;> simp [hgx]
          rw [hcons]
          show xs.foldlM _ (acc ++ (g x).toList) = Except.ok r ↔ _
          rw [hxs]
          simp

/-- **A scan of any tables.** It ends well exactly if every key is a string and every record
that is selected decodes, and then it returns the selected entries. -/
theorem scan_eq_ok_iff {sel : String → Bool} {l : List (String × StoredValue)} :
    T.scan z sel = .ok l ↔
      (T.Utf8 ∧ ∀ key, sel key = true → ¬ T.Undecodable z key) ∧
        l = (T.entries z).filter (sel ·.1) := by
  have hg : ∀ item ∈ T.dataInfo.toList, ∀ o, T.scanEntry z sel item = .ok o →
      o = (T.entryOf z item).filter (sel ·.1) := by
    rintro ⟨k, info⟩ hmem o ho
    exact ((scanEntry_eq_ok_iff (getElem?_of_mem_toList hmem).1).mp ho).2
  have hloop := foldlM_append_eq_ok_iff hg [] l
  rw [List.nil_append, ← List.filter_filterMap] at hloop
  refine hloop.trans (and_congr_left fun _ => ?_)
  constructor
  · intro h
    have hkey : ∀ {k info : Bytes}, T.dataInfo[k]? = some info →
        ∃ key, Str.asBytes key = k ∧ (sel key = true → ¬ T.Undecodable z key) := by
      intro k info hi
      obtain ⟨o, ho⟩ := h (k, info) (Std.ExtTreeMap.mem_toList_iff_getElem?_eq_some.mpr hi)
      exact ((scanEntry_eq_ok_iff hi).mp ho).1
    refine ⟨fun k hk => ?_, fun key hsel hu => ?_⟩
    · obtain ⟨info, hi⟩ := Option.isSome_iff_exists.mp
        (Std.ExtTreeMap.mem_iff_isSome_getElem?.mp hk)
      obtain ⟨key, hkey, -⟩ := hkey hi
      exact ⟨key, hkey⟩
    · obtain ⟨info, -, hi, -⟩ := id hu
      obtain ⟨key', heq, hd⟩ := hkey hi
      obtain rfl := Str.asBytes_inj.mp heq
      exact hd hsel hu
  · rintro ⟨h8, hd⟩ ⟨k, info⟩ hmem
    obtain ⟨hi, hk⟩ := getElem?_of_mem_toList hmem
    obtain ⟨key, hkey⟩ := h8 k hk
    exact ⟨_, (scanEntry_eq_ok_iff hi).mpr ⟨⟨key, hkey, hd key⟩, rfl⟩⟩

/-- A scan that selects no record that does not decode. -/
theorem Utf8.scan_eq (h8 : T.Utf8) {sel : String → Bool}
    (hd : ∀ key, sel key = true → ¬ T.Undecodable z key) :
    T.scan z sel = .ok ((T.entries z).filter (sel ·.1)) :=
  scan_eq_ok_iff.mpr ⟨⟨h8, hd⟩, rfl⟩

/-- A scan fails exactly if it selects a record that does not decode. -/
theorem Utf8.scan_error_iff (h8 : T.Utf8) {sel : String → Bool} :
    (∃ e, T.scan z sel = .error e) ↔ ∃ key, sel key = true ∧ T.Undecodable z key := by
  constructor
  · rintro ⟨e, he⟩
    by_contra hno
    push Not at hno
    rw [h8.scan_eq hno] at he
    cases he
  · rintro ⟨key, hsel, hu⟩
    cases h : T.scan z sel with
    | error e => exact ⟨e, rfl⟩
    | ok l => exact absurd hu ((scan_eq_ok_iff.mp h).1.2 key hsel)

/-- An entry that a scan returns is the one `get` returns for its key. -/
theorem get_of_scan {sel : String → Bool} {l : List (String × StoredValue)} {key : String}
    {v : StoredValue} (hl : T.scan z sel = .ok l) (hmem : (key, v) ∈ l) :
    T.get z key = .ok (some v) := by
  obtain ⟨-, rfl⟩ := scan_eq_ok_iff.mp hl
  have hent := (mem_entries key v).mp (List.mem_of_mem_filter hmem)
  exact get_eq_some_iff.mpr (entry_eq_some_iff.mp hent)

/-! ## Consistent tables -/

/-- On consistent tables the two look-ups of `get` succeed together, with a record that
decodes. -/
theorem Consistent.lookup (hT : T.Consistent z) (k : Bytes) :
    (T.payloads[k]? = none ∧ T.dataInfo[k]? = none) ∨
    ∃ payload info encoding timestamp, T.payloads[k]? = some payload ∧
      T.dataInfo[k]? = some info ∧ decodeDataInfo z info = .ok (encoding, timestamp, false) := by
  have hkeys := hT.sameKeys k
  rw [Std.ExtTreeMap.mem_iff_isSome_getElem?, Std.ExtTreeMap.mem_iff_isSome_getElem?] at hkeys
  cases hi : T.dataInfo[k]? with
  | none =>
      cases hp : T.payloads[k]? with
      | none => exact Or.inl ⟨rfl, rfl⟩
      | some payload =>
          rw [hi, hp] at hkeys
          exact absurd (hkeys.mp rfl) Bool.false_ne_true
  | some info =>
      rw [hi] at hkeys
      obtain ⟨payload, hp⟩ := Option.isSome_iff_exists.mp (hkeys.mpr rfl)
      obtain ⟨encoding, timestamp, hd⟩ := hT.live k info hi
      exact Or.inr ⟨payload, info, encoding, timestamp, hp, rfl, hd⟩

/-- On consistent tables `get` does not fail. -/
theorem Consistent.get (hT : T.Consistent z) (key : String) :
    T.get z key = .ok (T.entry z key) := by
  -- the two branches of `getMatch` in which one table lacks the key are not taken
  unfold Tables.entry
  rcases hT.lookup (Str.asBytes key) with ⟨hp, hi⟩ | ⟨payload, info, enc, ts, hp, hi, hd⟩
  · simp [Tables.get, hp, hi, RedbStorage.getMatch]
  · simp [Tables.get, hp, hi, hd, RedbStorage.getMatch]

/-- A key is live exactly when it is in the metadata table. -/
theorem Consistent.entry_isSome (hT : T.Consistent z) (key : String) :
    (T.entry z key).isSome ↔ Str.asBytes key ∈ T.dataInfo := by
  rw [Std.ExtTreeMap.mem_iff_isSome_getElem?]
  unfold Tables.entry
  rcases hT.lookup (Str.asBytes key) with ⟨hp, hi⟩ | ⟨payload, info, enc, ts, hp, hi, hd⟩
  · simp [Tables.get, hp, hi, RedbStorage.getMatch]
  · simp [Tables.get, hp, hi, hd, RedbStorage.getMatch]

/-- A scan of consistent tables does not fail, and returns the selected entries. -/
theorem Consistent.scan (hT : T.Consistent z) (sel : String → Bool) :
    T.scan z sel = .ok ((T.entries z).filter (sel ·.1)) := by
  refine Utf8.scan_eq hT.utf8 fun key _ => ?_
  rintro ⟨info, e, hi, he⟩
  obtain ⟨encoding, timestamp, hd⟩ := hT.live _ info hi
  rw [hd] at he
  cases he

theorem foldlM_count {α : Type} {f : Nat → α → Except RedbBackendError Nat} {l : List α}
    (h : ∀ x ∈ l, ∀ n, f n x = .ok (n + 1)) (n : Nat) : l.foldlM f n = .ok (n + l.length) := by
  induction l generalizing n with
  | nil => simp [pure, Except.pure]
  | cons x xs ih =>
      rw [List.foldlM_cons, h x (by simp) n]
      show xs.foldlM f (n + 1) = _
      rw [ih (fun y hy => h y (by simp [hy])), List.length_cons]
      congr 1
      omega

/-- `count` of consistent tables does not fail, and counts the metadata records. -/
theorem Consistent.count (hT : T.Consistent z) : T.count z = .ok T.dataInfo.toList.length := by
  have h : ∀ item ∈ T.dataInfo.toList, ∀ n, countStep z n item = .ok (n + 1) := by
    intro item hitem n
    obtain ⟨enc, ts, hd⟩ := hT.live item.1 item.2 (getElem?_of_mem_toList hitem).1
    simp [countStep, hd, Except.map]
  unfold Tables.count
  rw [foldlM_count h 0, Nat.zero_add]

/-- Every metadata record of consistent tables is an entry. -/
theorem Consistent.length_entries (hT : T.Consistent z) :
    (T.entries z).length = T.dataInfo.toList.length := by
  have hsome : ∀ item ∈ T.dataInfo.toList, (T.entryOf z item).isSome := by
    intro item hitem
    have hmem : item.1 ∈ T.dataInfo := (getElem?_of_mem_toList hitem).2
    obtain ⟨key, hkey⟩ := hT.utf8 item.1 hmem
    have hent : (T.entry z key).isSome := (hT.entry_isSome key).mpr (by rwa [hkey])
    unfold Tables.entryOf
    rw [← hkey, Str.fromUtf8_asBytes]
    simpa using hent
  unfold Tables.entries
  rw [List.length_filterMap_eq_countP, List.countP_eq_length]
  exact hsome

/-- The entries are in strictly increasing order of the key bytes. -/
theorem pairwise_entries (T : Tables) : (T.entries z).Pairwise keyLt := by
  refine List.Pairwise.filterMap (T.entryOf z) ?_ Std.ExtTreeMap.ordered_keys_toList
  rintro a b hab x hx y hy
  have key_of : ∀ {item : Bytes × Bytes} {x : String × StoredValue},
      T.entryOf z item = some x → Str.asBytes x.1 = item.1 := by
    intro item x h
    unfold Tables.entryOf at h
    obtain ⟨key, hkey, h⟩ := Option.bind_eq_some_iff.mp h
    obtain ⟨v, -, rfl⟩ := Option.map_eq_some_iff.mp h
    exact Str.asBytes_of_fromUtf8 hkey
  show compare (Str.asBytes x.1) (Str.asBytes y.1) = .lt
  rw [key_of hx, key_of hy]
  exact hab

/-! ## What the writing operations keep -/

section Writes

variable (T) (key : String) (value : StoredValue)

theorem put_payloads (k : Bytes) :
    (T.put z key value).payloads[k]?
      = if Str.asBytes key = k then some value.payload else T.payloads[k]? :=
  getElem?_insert_eq_ite T.payloads _ k _

theorem put_dataInfo (k : Bytes) :
    (T.put z key value).dataInfo[k]?
      = if Str.asBytes key = k
        then some (z.zSerialize (DataInfo.asTuple ⟨value.timestamp, false, value.encoding⟩))
        else T.dataInfo[k]? :=
  getElem?_insert_eq_ite T.dataInfo _ k _

theorem delete_payloads (k : Bytes) :
    (T.delete key).payloads[k]? = if Str.asBytes key = k then none else T.payloads[k]? :=
  getElem?_erase_eq_ite T.payloads _ k

theorem delete_dataInfo (k : Bytes) :
    (T.delete key).dataInfo[k]? = if Str.asBytes key = k then none else T.dataInfo[k]? :=
  getElem?_erase_eq_ite T.dataInfo _ k

/-- After `put` the key holds the value, up to the form of its encoding, and every other key
holds what it held. -/
theorem entry_put (key' : String) :
    (T.put z key value).entry z key' = if key' = key then some value.canon else T.entry z key' := by
  unfold Tables.entry Tables.get
  rw [put_payloads, put_dataInfo]
  by_cases hk : key' = key
  · subst hk
    simp [RedbStorage.getMatch, decodeDataInfo_zSerialize, StoredValue.canon]
  · have hne : Str.asBytes key ≠ Str.asBytes key' := fun h => hk (Str.asBytes_inj.mp h).symm
    simp [hk, hne]

theorem entry_delete (key' : String) :
    (T.delete key).entry z key' = if key' = key then none else T.entry z key' := by
  unfold Tables.entry Tables.get
  rw [delete_payloads, delete_dataInfo]
  by_cases hk : key' = key
  · subst hk
    simp [RedbStorage.getMatch]
  · have hne : Str.asBytes key ≠ Str.asBytes key' := fun h => hk (Str.asBytes_inj.mp h).symm
    simp [hk, hne]

variable {T} {key value} {k info : Bytes}

/-- A record after `put` is the one it has encoded, or was there before. -/
theorem record_of_put (h : (T.put z key value).dataInfo[k]? = some info) :
    info = z.zSerialize (DataInfo.asTuple ⟨value.timestamp, false, value.encoding⟩) ∨
      T.dataInfo[k]? = some info := by
  rw [put_dataInfo] at h
  by_cases hk : Str.asBytes key = k
  · rw [if_pos hk] at h
    exact Or.inl (Option.some.inj h).symm
  · rw [if_neg hk] at h
    exact Or.inr h

/-- A record after `delete` was there before. -/
theorem record_of_delete (h : (T.delete key).dataInfo[k]? = some info) :
    T.dataInfo[k]? = some info := by
  rw [delete_dataInfo] at h
  by_cases hk : Str.asBytes key = k
  · rw [if_pos hk] at h
    cases h
  · rwa [if_neg hk] at h

theorem consistent_empty : Tables.empty.Consistent z where
  sameKeys _ := Iff.rfl
  utf8 k hk := absurd hk Std.ExtTreeMap.not_mem_empty
  live k info hi := by
    rw [show Tables.empty.dataInfo[k]? = none from rfl] at hi
    cases hi

/-- `put` adds its key to both tables, with a record that it has just encoded. -/
theorem Consistent.put (hT : T.Consistent z) : (T.put z key value).Consistent z where
  sameKeys k := by
    show k ∈ T.payloads.insert _ _ ↔ k ∈ T.dataInfo.insert _ _
    rw [Std.ExtTreeMap.mem_insert, Std.ExtTreeMap.mem_insert, hT.sameKeys k]
  utf8 k hk := by
    rcases Std.ExtTreeMap.mem_insert.mp hk with heq | hk
    · exact ⟨key, Std.LawfulEqCmp.eq_of_compare heq⟩
    · exact hT.utf8 k hk
  live k info hi := by
    rcases record_of_put hi with rfl | hi
    · exact ⟨_, _, decodeDataInfo_zSerialize z value.encoding value.timestamp false⟩
    · exact hT.live k info hi

/-- `delete` takes its key from both tables. -/
theorem Consistent.delete (hT : T.Consistent z) : (T.delete key).Consistent z where
  sameKeys k := by
    show k ∈ T.payloads.erase _ ↔ k ∈ T.dataInfo.erase _
    rw [Std.ExtTreeMap.mem_erase, Std.ExtTreeMap.mem_erase, hT.sameKeys k]
  utf8 k hk := hT.utf8 k (Std.ExtTreeMap.mem_of_mem_erase hk)
  live k info hi := hT.live k info (record_of_delete hi)

/-- No call makes consistent tables inconsistent. -/
theorem Consistent.spec (hT : T.Consistent z) (c : StorageCall) (ro : Bool) :
    (c.spec z ro T).2.Consistent z :=
  c.spec_keeps hT (fun _ _ _ => hT.put) (fun _ => hT.delete) consistent_empty ro

/-- On consistent tables the only error of a call is that the storage is read-only. -/
theorem Consistent.spec_error (hT : T.Consistent z) {c : StorageCall} {ro : Bool}
    {e : RedbBackendError} (he : (c.spec z ro T).1 = .error e) : e = readOnlyError := by
  have hscan : ∀ sel, (T.scan z sel).map Reply.entries ≠ .error e := by
    intro sel h
    rw [hT.scan] at h
    cases h
  have hwrite : ∀ T' : Tables, (if ro then (Except.error readOnlyError, T)
      else (Except.ok Reply.done, T')).1 = .error e → e = readOnlyError := by
    intro T' h
    cases ro with
    | true => exact (Except.error.inj h).symm
    | false => cases h
  cases c with
  | put key value => exact hwrite _ he
  | delete key => exact hwrite _ he
  | clear => exact hwrite _ he
  | get key =>
      simp only [StorageCall.spec, hT.get, Except.map] at he
      cases he
  | getAll => exact absurd he (hscan _)
  | getByPrefix keyPrefix => exact absurd he (hscan _)
  | getByWildcard pattern => exact absurd he (hscan _)
  | count =>
      simp only [StorageCall.spec, hT.count, Except.map] at he
      cases he

end Writes

/-! ## The map the tables represent -/

variable (z) in
/-- Consistent tables whose entries are those of `m`, with encodings in canonical form. -/
structure Represents (T : Tables) (m : EntryMap) : Prop where
  consistent : T.Consistent z
  entry : ∀ key : String, T.entry z key = m[key]?.map StoredValue.canon

section Represents

variable {m : EntryMap}

theorem represents_empty : Tables.empty.Represents z ∅ where
  consistent := consistent_empty
  entry _ := rfl

theorem Represents.put (h : T.Represents z m) (key : String) (value : StoredValue) :
    (T.put z key value).Represents z (m.insert key value) where
  consistent := h.consistent.put
  entry key' := by
    rw [entry_put, h.entry, getElem?_insert_eq_ite]
    simp only [eq_comm (a := key')]
    split <;> rfl

theorem Represents.delete (h : T.Represents z m) (key : String) :
    (T.delete key).Represents z (m.erase key) where
  consistent := h.consistent.delete
  entry key' := by
    rw [entry_delete, h.entry, getElem?_erase_eq_ite]
    simp only [eq_comm (a := key')]
    split <;> rfl

theorem Represents.get (h : T.Represents z m) (key : String) :
    T.get z key = .ok (m[key]?.map StoredValue.canon) := by
  rw [h.consistent.get, h.entry]

/-- The entries are the bindings of the map, in its order. -/
theorem Represents.entries (h : T.Represents z m) :
    T.entries z = m.toList.map fun e => (e.1, e.2.canon) := by
  -- two sorted lists with the same elements are the same
  refine List.Pairwise.eq_of_mem_iff (pairwise_entries T) ?_ ?_
  · exact List.Pairwise.map _ (fun a b hab => hab) Std.ExtTreeMap.ordered_keys_toList
  · rintro ⟨key, v⟩
    rw [mem_entries, h.entry, List.mem_map, Option.map_eq_some_iff]
    constructor
    · rintro ⟨w, hw, rfl⟩
      exact ⟨(key, w), Std.ExtTreeMap.mem_toList_iff_getElem?_eq_some.mpr hw, rfl⟩
    · rintro ⟨⟨key', w⟩, hw, he⟩
      cases he
      exact ⟨w, Std.ExtTreeMap.mem_toList_iff_getElem?_eq_some.mp hw, rfl⟩

theorem Represents.scan (h : T.Represents z m) (sel : String → Bool) :
    T.scan z sel = .ok ((m.toList.filter (sel ·.1)).map fun e => (e.1, e.2.canon)) := by
  rw [h.consistent.scan, h.entries, List.filter_map]
  rfl

theorem Represents.count (h : T.Represents z m) : T.count z = .ok m.size := by
  rw [h.consistent.count, ← h.consistent.length_entries, h.entries, List.length_map,
    Std.ExtTreeMap.length_toList]

end Represents

end Tables

end ZenohRedb
