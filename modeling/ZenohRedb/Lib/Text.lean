import ZenohRedb.Lib.Bytes

set_option autoImplicit false

/-! # Strings and their UTF-8 bytes

`asBytes` and `fromUtf8` convert between strings and byte strings; they are inverse to each
other where the second is defined, so strings can be stored and compared as bytes.
`compareBytes` orders strings by their bytes. `split` cuts a string at every occurrence of a
character, and `startsWith` compares prefixes byte by byte. Both speak about characters in the
end: a prefix of the bytes that is a string is a prefix of the string, and the byte of an ASCII
character occurs in the encoding of that character only.
-/

namespace Str

/-- The UTF-8 bytes of a string. -/
def asBytes (s : String) : Bytes := s.toByteArray.data.toList

/-- The string with these bytes, if they are valid UTF-8. -/
def fromUtf8 (bs : Bytes) : Option String := String.fromUTF8? ⟨bs.toArray⟩

@[simp] theorem fromUtf8_asBytes (s : String) : fromUtf8 (asBytes s) = some s := by
  show String.fromUTF8? s.toByteArray = some s
  unfold String.fromUTF8?
  rw [dif_pos s.isValidUTF8]
  rfl

theorem asBytes_of_fromUtf8 {bs : Bytes} {s : String} (h : fromUtf8 bs = some s) :
    asBytes s = bs := by
  unfold fromUtf8 String.fromUTF8? at h
  split at h
  · cases h
    rfl
  · cases h

theorem asBytes_inj {s t : String} : asBytes s = asBytes t ↔ s = t := by
  constructor
  · intro h
    have := congrArg fromUtf8 h
    rw [fromUtf8_asBytes, fromUtf8_asBytes] at this
    exact Option.some.inj this
  · rintro rfl
    rfl

/-! ## Bytes and characters -/

@[simp] theorem asBytes_append (s t : String) : asBytes (s ++ t) = asBytes s ++ asBytes t := by
  show (s.toByteArray ++ t.toByteArray).data.toList = _
  exact ByteArray.toList_data_append

theorem asBytes_eq_flatMap (s : String) :
    asBytes s = s.toList.flatMap String.utf8EncodeChar := by
  unfold asBytes
  rw [← String.utf8Encode_toList]
  unfold List.utf8Encode
  rw [List.data_toByteArray]

theorem asBytes_prefix_iff {p s : String} : asBytes p <+: asBytes s ↔ ∃ rest, s = p ++ rest := by
  constructor
  · rintro ⟨rest, h⟩
    have hbytes : p.toList.utf8Encode ++ ⟨rest.toArray⟩ = s.toList.utf8Encode := by
      rw [String.utf8Encode_toList, String.utf8Encode_toList]
      refine ByteArray.ext (Array.toList_inj.mp ?_)
      rw [ByteArray.toList_data_append]
      exact h
    obtain ⟨l, hl⟩ := List.isPrefix_of_utf8Encode_append_eq_utf8Encode _ hbytes
    refine ⟨String.ofList l, String.toList_inj.mp ?_⟩
    rw [String.toList_append, String.toList_ofList, hl]
  · rintro ⟨rest, rfl⟩
    rw [asBytes_append]
    exact List.prefix_append _ _

/-- A byte below 128 is the whole encoding of its character. -/
theorem utf8EncodeChar_ascii {c : Char} {b : UInt8} (hb : b.toNat < 128)
    (h : b ∈ String.utf8EncodeChar c) : String.utf8EncodeChar c = [b] ∧ c.toNat = b.toNat := by
  -- the bytes of the longer forms have their high bit set
  have hhigh : ∀ v k : Nat, 128 ≤ v + k → v + k < 256 → b ≠ UInt8.ofNat (v + k) := by
    rintro v k hk hlt rfl
    rw [UInt8.toNat_ofNat'] at hb
    omega
  unfold String.utf8EncodeChar at h ⊢
  simp only at h ⊢
  split at h
  · next hc =>
      obtain rfl := List.mem_singleton.mp h
      rw [if_pos hc]
      refine ⟨rfl, ?_⟩
      rw [UInt8.toNat_ofNat']
      show c.val.toNat = _
      omega
  · exfalso
    split at h
    · simp only [List.mem_cons, List.not_mem_nil, or_false] at h
      rcases h with h | h <;> exact hhigh _ _ (by omega) (by omega) h
    · split at h
      · simp only [List.mem_cons, List.not_mem_nil, or_false] at h
        rcases h with h | h | h <;> exact hhigh _ _ (by omega) (by omega) h
      · simp only [List.mem_cons, List.not_mem_nil, or_false] at h
        rcases h with h | h | h | h <;> exact hhigh _ _ (by omega) (by omega) h

theorem utf8EncodeChar_of_ascii {c : Char} (hc : c.toNat < 128) :
    String.utf8EncodeChar c = [UInt8.ofNat c.toNat] := by
  unfold String.utf8EncodeChar
  have hle : c.val.toNat ≤ 127 := by
    change c.val.toNat < 128 at hc
    omega
  rw [if_pos hle]
  rfl

/-- The byte of an ASCII character occurs where the character does. -/
theorem ascii_mem_asBytes {c : Char} (hc : c.toNat < 128) {s : String} :
    UInt8.ofNat c.toNat ∈ asBytes s ↔ c ∈ s.toList := by
  have hbyte : (UInt8.ofNat c.toNat).toNat = c.toNat := by
    rw [UInt8.toNat_ofNat']
    omega
  rw [asBytes_eq_flatMap, List.mem_flatMap]
  constructor
  · rintro ⟨d, hd, hmem⟩
    have hdc := (utf8EncodeChar_ascii (by omega) hmem).2
    rw [hbyte] at hdc
    exact Char.toNat_inj.mp hdc ▸ hd
  · intro h
    refine ⟨c, h, ?_⟩
    rw [utf8EncodeChar_of_ascii hc]
    exact List.mem_singleton_self _

/-- The same behind the first character. -/
theorem ascii_mem_tail_asBytes {c : Char} (hc : c.toNat < 128) {s : String} :
    UInt8.ofNat c.toNat ∈ (asBytes s).tail ↔ c ∈ s.toList.tail := by
  rw [asBytes_eq_flatMap]
  cases hs : s.toList with
  | nil => simp
  | cons d ds =>
      have hrest := ascii_mem_asBytes hc (s := String.ofList ds)
      rw [asBytes_eq_flatMap, String.toList_ofList] at hrest
      have hbyte : (UInt8.ofNat c.toNat).toNat < 128 := by
        rw [UInt8.toNat_ofNat']
        omega
      rw [List.flatMap_cons, List.tail_cons, ← hrest]
      cases hd : String.utf8EncodeChar d with
      | nil =>
          have hpos := String.length_utf8EncodeChar d
          rw [hd] at hpos
          exact absurd hpos.symm (Nat.ne_of_gt d.utf8Size_pos)
      | cons b bs =>
          rw [List.cons_append, List.tail_cons, List.mem_append]
          refine or_iff_right fun hmem => ?_
          -- an ASCII byte is alone in the encoding of its character
          have hsingle := (utf8EncodeChar_ascii hbyte (by rw [hd]; simp [hmem])).1
          rw [hd] at hsingle
          have hnil : bs = [] := (List.cons.inj hsingle).2
          rw [hnil] at hmem
          cases hmem

/-! ## The order of the bytes -/

/-- Compare two strings by their UTF-8 bytes. -/
def compareBytes (s t : String) : Ordering := compare (asBytes s) (asBytes t)

instance : Std.TransCmp compareBytes where
  eq_swap {s t} := by
    show compare (asBytes s) (asBytes t) = (compare (asBytes t) (asBytes s)).swap
    exact Std.OrientedCmp.eq_swap
  isLE_trans {s t u} hst htu := by
    change (compare (asBytes s) (asBytes t)).isLE = true at hst
    change (compare (asBytes t) (asBytes u)).isLE = true at htu
    show (compare (asBytes s) (asBytes u)).isLE = true
    exact Std.TransCmp.isLE_trans hst htu

instance : Std.LawfulEqCmp compareBytes where
  compare_self {s} := by
    show compare (asBytes s) (asBytes s) = .eq
    exact Std.ReflCmp.compare_self
  eq_of_compare {s t} h := by
    change compare (asBytes s) (asBytes t) = .eq at h
    exact asBytes_inj.mp (Std.LawfulEqCmp.eq_of_compare h)

/-- A string comes before the longer ones that it begins. -/
theorem compareBytes_append (s : String) {t : String} (ht : t ≠ "") :
    compareBytes s (s ++ t) = .lt := by
  have hne : asBytes t ≠ [] := fun h => ht (asBytes_inj.mp h)
  obtain ⟨b, bs, hbs⟩ := List.exists_cons_of_ne_nil hne
  unfold compareBytes
  rw [asBytes_append, hbs, List.compare_eq_compareLex]
  induction asBytes s with
  | nil => rfl
  | cons a as ih =>
      have haa : compare a a = .eq := Std.ReflCmp.compare_self
      rw [List.cons_append, List.compareLex_cons_cons, haa, ih]
      rfl

/-! ## Cutting and comparing -/

/-- Cut a list of characters at every `c`; the pieces are never fewer than one. -/
def splitChars (c : Char) : List Char → List (List Char)
  | [] => [[]]
  | x :: xs =>
      if x = c then [] :: splitChars c xs
      else
        match splitChars c xs with
        | [] => [[x]]
        | piece :: pieces => (x :: piece) :: pieces

/-- The pieces of `s` between the occurrences of `c`. -/
def split (s : String) (c : Char) : List String := (splitChars c s.toList).map String.ofList

/-- Whether the bytes of `p` are a prefix of those of `s`. -/
def startsWith (s p : String) : Bool := (asBytes p).isPrefixOf (asBytes s)

theorem startsWith_iff {s p : String} : startsWith s p = true ↔ ∃ rest, s = p ++ rest := by
  unfold startsWith
  rw [List.isPrefixOf_iff_prefix, asBytes_prefix_iff]

theorem splitChars_eq_splitOn (c : Char) (l : List Char) : splitChars c l = l.splitOn c := by
  induction l with
  | nil => rfl
  | cons x xs ih =>
      rw [List.splitOn_cons_eq_if_modifyHead, splitChars, ih]
      simp only [beq_iff_eq]
      split
      · rfl
      · cases hxs : xs.splitOn c with
        | nil => exact absurd hxs (List.splitOn_ne_nil c xs)
        | cons q qs => rfl

section Split

variable {c : Char} {s t p : String}

/-- Cutting and joining again. -/
theorem intercalate_split (s : String) (c : Char) :
    [c].intercalate ((split s c).map String.toList) = s.toList := by
  unfold split
  rw [List.map_map, splitChars_eq_splitOn]
  simp only [Function.comp_def, String.toList_ofList, List.map_id', List.intercalate_splitOn]

theorem split_inj : split s c = split t c ↔ s = t := by
  constructor
  · intro h
    have hs := intercalate_split s c
    rw [h, intercalate_split] at hs
    exact String.toList_inj.mp hs.symm
  · rintro rfl
    rfl

/-- Cutting at one occurrence, and both parts at the others. -/
theorem split_of_toList (h : s.toList = p.toList ++ c :: t.toList) :
    split s c = split p c ++ split t c := by
  unfold split
  rw [h, ← List.map_append]
  simp only [splitChars_eq_splitOn, List.splitOn_append_cons_self]

theorem notMem_of_mem_splitChars {l piece : List Char} (h : piece ∈ splitChars c l) :
    c ∉ piece := by
  induction l generalizing piece with
  | nil =>
      rw [List.mem_singleton.mp h]
      exact List.not_mem_nil
  | cons x xs ih =>
      unfold splitChars at h
      split at h
      · rcases List.mem_cons.mp h with rfl | h
        · exact List.not_mem_nil
        · exact ih h
      · next hx =>
          cases hxs : splitChars c xs with
          | nil =>
              simp only [hxs, List.mem_singleton] at h
              simpa [h] using fun heq => hx heq.symm
          | cons q qs =>
              simp only [hxs, List.mem_cons] at h
              rcases h with rfl | h
              · have hq : c ∉ q := ih (by rw [hxs]; simp)
                simpa [hq] using fun heq => hx heq.symm
              · exact ih (by rw [hxs]; simp [h])

/-- A string without the character is one piece. -/
theorem split_of_notMem (h : c ∉ s.toList) : split s c = [s] := by
  unfold split
  rw [splitChars_eq_splitOn, List.splitOn_eq_singleton h, List.map_singleton, String.ofList_toList]

theorem notMem_of_mem_split {piece : String} (h : piece ∈ split s c) : c ∉ piece.toList := by
  obtain ⟨chars, hchars, rfl⟩ := List.mem_map.mp h
  rw [String.toList_ofList]
  exact notMem_of_mem_splitChars hchars

/-- Strings without the character are the pieces of a string. -/
theorem exists_split_eq {pieces : List String} (hne : pieces ≠ [])
    (h : ∀ piece ∈ pieces, c ∉ piece.toList) : ∃ t, split t c = pieces := by
  have hchars : ∀ l ∈ pieces.map String.toList, c ∉ l := by
    intro l hl
    obtain ⟨piece, hpiece, rfl⟩ := List.mem_map.mp hl
    exact h piece hpiece
  refine ⟨String.ofList ([c].intercalate (pieces.map String.toList)), ?_⟩
  unfold split
  rw [String.toList_ofList, splitChars_eq_splitOn,
    List.splitOn_intercalate c hchars (by simpa using hne), List.map_map]
  simp only [Function.comp_def, String.ofList_toList, List.map_id']

/-- The pieces of `p` come first exactly in `p` itself and in the strings that go on with the
character behind `p`. -/
theorem split_prefix_iff :
    split p c <+: split s c ↔ s = p ∨ ∃ t : String, s.toList = p.toList ++ c :: t.toList := by
  constructor
  · rintro ⟨rest, h⟩
    cases rest with
    | nil =>
        left
        rw [List.append_nil] at h
        exact (split_inj.mp h).symm
    | cons q qs =>
        right
        have hpieces : ∀ piece ∈ q :: qs, c ∉ piece.toList := by
          intro piece hpiece
          have hmem : piece ∈ split s c := h ▸ List.mem_append_right _ hpiece
          exact notMem_of_mem_split hmem
        obtain ⟨t, ht⟩ := exists_split_eq (List.cons_ne_nil q qs) hpieces
        -- `p` and the pieces that are left make a string that is cut like `s`
        have hjoined : split (String.ofList (p.toList ++ c :: t.toList)) c = split s c := by
          rw [split_of_toList String.toList_ofList, ht, h]
        refine ⟨t, ?_⟩
        rw [← split_inj.mp hjoined, String.toList_ofList]
  · rintro (rfl | ⟨t, h⟩)
    · exact List.prefix_refl _
    · rw [split_of_toList h]
      exact List.prefix_append _ _

end Split

end Str
