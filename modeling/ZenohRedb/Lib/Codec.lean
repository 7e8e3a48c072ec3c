import Mathlib.Data.List.Nodup
import ZenohRedb.Lib.Derive

set_option autoImplicit false

/-! # Derived writers

A field with a writer beside its reader is a codec. A table of codecs gives a reader of the
record (`Lib/Derive.lean`) and a writer (`writeMap`), which goes over the fields in their order,
leaves out those that are skipped, and stops at the first one that cannot be written.

What is written reads back as the record it was written from (`visitMap_of_perm`), if each value
reads back as itself, and a field that is skipped holds what a field holds that does not come.
The order of the members does not matter, and neither do members that are no fields.
-/

namespace Derive

/-- A field of the record `ρ`. Its values are read from `V`, and written to `V` or skipped. -/
structure Codec (V ρ ε : Type) where
  name : String
  Val : Type
  get : ρ → Val
  set : Val → ρ → ρ
  read : V → Except Error Val
  write : Val → Except ε (Option V)
  hasDefault : Bool

variable {V ρ ε : Type}

/-- The reader of a codec. -/
def Codec.field (k : Codec V ρ ε) : Field V ρ := .of k.name k.read k.hasDefault k.set

/-- Write the fields of a record, in their order. -/
def writeMap (r : ρ) : List (Codec V ρ ε) → Except ε (List (String × V))
  | [] => .ok []
  | k :: ks =>
      match k.write (k.get r) with
      | .error e => .error e
      | .ok none => writeMap r ks
      | .ok (some v) => (writeMap r ks).map ((k.name, v) :: ·)

/-- The codecs are the fields of a record: they have different names, a value that is set is the
one that is got, no field touches another one, and the record is nothing but its fields. -/
structure Lawful (codecs : List (Codec V ρ ε)) : Prop where
  nodup : (codecs.map Codec.name).Nodup
  get_set : ∀ k ∈ codecs, ∀ b r, k.get (k.set b r) = b
  get_set_of_ne : ∀ k ∈ codecs, ∀ k' ∈ codecs, k'.name ≠ k.name →
    ∀ b r, k'.get (k.set b r) = k'.get r
  ext : ∀ r r' : ρ, (∀ k ∈ codecs, k.get r = k.get r') → r = r'

/-- The value `b` comes back: what is written for it is read as `b`, and if it is skipped, then
`b` is what the field holds without a value. -/
structure Codec.Returns (k : Codec V ρ ε) (missing : ρ) (b : k.Val) : Prop where
  written : ∀ v, k.write b = .ok (some v) → k.read v = .ok b
  skipped : k.write b = .ok none → k.get missing = b

variable {codecs : List (Codec V ρ ε)} {r c missing : ρ} {ms members : List (String × V)}

/-! ## What is written -/

theorem writeMap_cons_eq_ok_iff {k : Codec V ρ ε} :
    writeMap r (k :: codecs) = .ok ms ↔
      (k.write (k.get r) = .ok none ∧ writeMap r codecs = .ok ms) ∨
      ∃ v ms', k.write (k.get r) = .ok (some v) ∧ writeMap r codecs = .ok ms' ∧
        ms = (k.name, v) :: ms' := by
  rw [writeMap]
  cases k.write (k.get r) with
  | error e => simp
  | ok o =>
      cases o with
      | none => simp
      | some v =>
          cases writeMap r codecs with
          | error e => simp [Except.map]
          | ok ms' => simp [Except.map, eq_comm]

/-- A record can be written exactly if each of its fields can. -/
theorem exists_writeMap_iff :
    (∃ ms, writeMap r codecs = .ok ms) ↔ ∀ k ∈ codecs, ∃ o, k.write (k.get r) = .ok o := by
  induction codecs with
  | nil => simp [writeMap]
  | cons k codecs ih =>
      simp only [writeMap_cons_eq_ok_iff, List.forall_mem_cons, ← ih]
      constructor
      · rintro ⟨ms, ⟨hk, hms⟩ | ⟨v, ms', hk, hms', -⟩⟩
        · exact ⟨⟨_, hk⟩, ms, hms⟩
        · exact ⟨⟨_, hk⟩, ms', hms'⟩
      · rintro ⟨⟨o, hk⟩, ms, hms⟩
        cases o with
        | none => exact ⟨ms, .inl ⟨hk, hms⟩⟩
        | some v => exact ⟨_, .inr ⟨v, ms, hk, hms, rfl⟩⟩

/-- A record that cannot be written has a field that cannot be written, and its error. -/
theorem exists_of_writeMap_error {e : ε} (h : writeMap r codecs = .error e) :
    ∃ k ∈ codecs, k.write (k.get r) = .error e := by
  induction codecs with
  | nil => cases h
  | cons k codecs ih =>
      rw [writeMap] at h
      cases hk : k.write (k.get r) with
      | error e' =>
          rw [hk] at h
          obtain rfl := Except.error.inj h
          exact ⟨k, List.mem_cons_self, hk⟩
      | ok o =>
          have hrest : writeMap r codecs = .error e := by
            rw [hk] at h
            cases o with
            | none => exact h
            | some v =>
                cases hms : writeMap r codecs with
                | error e' =>
                    rw [hms] at h
                    exact congrArg _ (Except.error.inj h)
                | ok ms =>
                    rw [hms] at h
                    cases h
          obtain ⟨k', hmem, hk'⟩ := ih hrest
          exact ⟨k', List.mem_cons_of_mem k hmem, hk'⟩

/-- What is written are the fields that are not skipped. -/
theorem mem_writeMap_iff (h : writeMap r codecs = .ok ms) {m : String × V} :
    m ∈ ms ↔ ∃ k ∈ codecs, k.name = m.1 ∧ k.write (k.get r) = .ok (some m.2) := by
  induction codecs generalizing ms with
  | nil =>
      obtain rfl := Except.ok.inj h
      simp
  | cons k codecs ih =>
      rw [List.exists_mem_cons_iff]
      rcases writeMap_cons_eq_ok_iff.mp h with ⟨hk, hms⟩ | ⟨v, ms', hk, hms', rfl⟩
      · rw [ih hms, hk]
        simp
      · rw [List.mem_cons, ih hms', hk]
        refine or_congr_left ?_
        rw [Prod.ext_iff]
        simp [eq_comm]

theorem writeMap_names_sublist (h : writeMap r codecs = .ok ms) :
    (ms.map Prod.fst).Sublist (codecs.map Codec.name) := by
  induction codecs generalizing ms with
  | nil =>
      obtain rfl := Except.ok.inj h
      exact List.Sublist.refl _
  | cons k codecs ih =>
      rcases writeMap_cons_eq_ok_iff.mp h with ⟨-, hms⟩ | ⟨v, ms', -, hms', rfl⟩
      · exact (ih hms).cons k.name
      · exact (ih hms').cons_cons k.name

/-! ## What is read -/

theorem lookup_of_mem (hnodup : (codecs.map Codec.name).Nodup) {k : Codec V ρ ε}
    (hk : k ∈ codecs) : lookup (codecs.map Codec.field) k.name = some k.field := by
  unfold lookup
  induction codecs with
  | nil => cases hk
  | cons k' codecs ih =>
      rw [List.map_cons, List.nodup_cons] at hnodup
      rw [List.map_cons, List.find?_cons]
      rcases List.mem_cons.mp hk with rfl | htail
      · simp [Codec.field, Field.of]
      · have hne : k'.name ≠ k.name := fun heq =>
          hnodup.1 (heq ▸ List.mem_map_of_mem htail)
        have hfalse : decide (k'.field.name = k.name) = false := decide_eq_false hne
        rw [hfalse]
        exact ih hnodup.2 htail

theorem exists_changes {fields : List (Field V ρ)} (h : ∀ m ∈ ms, ∃ change, Reads fields m change) :
    ∃ changes, List.Forall₂ (Reads fields) ms changes := by
  induction ms with
  | nil => exact ⟨[], .nil⟩
  | cons m ms ih =>
      rw [List.forall_mem_cons] at h
      obtain ⟨change, hchange⟩ := h.1
      obtain ⟨changes, hchanges⟩ := ih h.2
      exact ⟨change :: changes, .cons hchange hchanges⟩

/-- Nothing is written but fields. -/
theorem fieldMembers_of_writeMap (hnodup : (codecs.map Codec.name).Nodup)
    (h : writeMap r codecs = .ok ms) : fieldMembers (codecs.map Codec.field) ms = ms := by
  refine List.filter_eq_self.mpr fun m hm => ?_
  obtain ⟨k, hk, hname, -⟩ := (mem_writeMap_iff h).mp hm
  rw [← hname, known, lookup_of_mem hnodup hk]
  rfl

/-- A change that was read is that of a codec. -/
theorem exists_codec_of_reads {m : String × V} {change : ρ → ρ}
    (h : Reads (codecs.map Codec.field) m change) :
    ∃ k ∈ codecs, k.name = m.1 ∧ ∃ b, k.read m.2 = .ok b ∧ k.set b = change := by
  obtain ⟨f, hf, hread⟩ := h
  obtain ⟨hmem, hname⟩ := lookup_eq_some hf
  obtain ⟨k, hk, rfl⟩ := List.mem_map.mp hmem
  exact ⟨k, hk, hname, Field.of_read_eq_ok_iff.mp hread⟩

/-- **Where the values come from.** A field of a record that is read holds a value that was read
for it, or, if its name does not come, what it holds without a value. -/
theorem get_setAll (h : Lawful codecs) {changes : List (ρ → ρ)}
    (hreads : List.Forall₂ (Reads (codecs.map Codec.field)) ms changes) {k : Codec V ρ ε}
    (hk : k ∈ codecs) :
    (∃ v, (k.name, v) ∈ ms ∧ k.read v = .ok (k.get (setAll changes r))) ∨
      (k.name ∉ ms.map Prod.fst ∧ k.get (setAll changes r) = k.get r) := by
  induction hreads generalizing r with
  | nil => exact .inr ⟨List.not_mem_nil, rfl⟩
  | @cons m change ms changes hm _ ih =>
      obtain ⟨k', hk', hname, b, hread, rfl⟩ := exists_codec_of_reads hm
      obtain ⟨name, v⟩ := m
      obtain rfl : k'.name = name := hname
      rw [setAll_cons]
      rcases ih (r := k'.set b r) with ⟨w, hw, hval⟩ | ⟨hnot, hval⟩
      · exact .inl ⟨w, List.mem_cons_of_mem _ hw, hval⟩
      · by_cases heq : k.name = k'.name
        · -- the first member is the last one of this field
          obtain rfl : k = k' := List.inj_on_of_nodup_map h.nodup hk hk' heq
          refine .inl ⟨v, List.mem_cons_self, ?_⟩
          rw [hval, h.get_set k hk]
          exact hread
        · refine .inr ⟨?_, ?_⟩
          · rw [List.map_cons, List.mem_cons, not_or]
            exact ⟨heq, hnot⟩
          · rw [hval, h.get_set_of_ne k' hk' k hk heq]

/-- The same for the array of the values. -/
theorem get_visitSeq (h : Lawful codecs) (pre : List (Codec V ρ ε)) {rest : List (Codec V ρ ε)}
    (hsplit : codecs = pre ++ rest) {vs : List V}
    (hc : visitSeq (rest.map Codec.field) r vs = .ok c) {k : Codec V ρ ε} (hk : k ∈ codecs) :
    (∃ v, k.read v = .ok (k.get c)) ∨ k.get c = k.get r := by
  induction rest generalizing pre r vs with
  | nil =>
      cases vs with
      | nil =>
          obtain rfl := Except.ok.inj hc
          exact .inr rfl
      | cons v vs => cases hc
  | cons k' rest ih =>
      have hsplit' : codecs = (pre ++ [k']) ++ rest := by
        rw [hsplit, List.append_assoc, List.singleton_append]
      have hk' : k' ∈ codecs := by
        rw [hsplit]
        exact List.mem_append_right _ List.mem_cons_self
      cases vs with
      | nil =>
          rw [List.map_cons, visitSeq] at hc
          split at hc
          · exact ih _ hsplit' hc
          · cases hc
      | cons v vs =>
          obtain ⟨change, hchange, hrest⟩ := visitSeq_cons_eq_ok_iff.mp hc
          obtain ⟨b, hread, rfl⟩ := Field.of_read_eq_ok_iff.mp hchange
          rcases ih _ hsplit' hrest with hval | hval
          · exact .inl hval
          · by_cases heq : k.name = k'.name
            · obtain rfl : k = k' := List.inj_on_of_nodup_map h.nodup hk hk' heq
              refine .inl ⟨v, ?_⟩
              rw [hval, h.get_set k hk]
              exact hread
            · refine .inr ?_
              rw [hval, h.get_set_of_ne k' hk' k hk heq]

/-- A field of a record that is read, from an object or from an array, holds a value that was
read, or what it holds without a value. -/
theorem get_of_read (h : Lawful codecs)
    (hc : (∃ members, visitMap (codecs.map Codec.field) missing members = .ok c) ∨
      ∃ items, visitSeq (codecs.map Codec.field) missing items = .ok c) :
    ∀ k ∈ codecs, (∃ v, k.read v = .ok (k.get c)) ∨ k.get c = k.get missing := by
  intro k hk
  rcases hc with ⟨members, hc⟩ | ⟨items, hc⟩
  · obtain ⟨-, changes, hchanges, rfl⟩ := visitMap_eq_ok_iff.mp hc
    rcases get_setAll (r := missing) h hchanges hk with ⟨v, -, hread⟩ | ⟨-, hval⟩
    · exact .inl ⟨v, hread⟩
    · exact .inr hval
  · exact get_visitSeq h [] rfl hc hk

/-! ## Back and forth -/

/-- **What is written reads back** as the record it was written from, whatever the order of the
members and whatever stands between them. -/
theorem visitMap_of_perm (h : Lawful codecs) (hreturns : ∀ k ∈ codecs, k.Returns missing (k.get r))
    (hwrite : writeMap r codecs = .ok ms)
    (hperm : (fieldMembers (codecs.map Codec.field) members).Perm ms) :
    visitMap (codecs.map Codec.field) missing members = .ok r := by
  -- what is read for the members that are fields
  have hreads : ∀ m ∈ fieldMembers (codecs.map Codec.field) members,
      ∃ change, Reads (codecs.map Codec.field) m change := by
    intro m hm
    obtain ⟨k, hk, hname, hv⟩ := (mem_writeMap_iff hwrite).mp (hperm.mem_iff.mp hm)
    refine ⟨k.set (k.get r), k.field, ?_, ?_⟩
    · rw [← hname]
      exact lookup_of_mem h.nodup hk
    · exact Field.of_read_eq_ok_iff.mpr ⟨_, (hreturns k hk).written _ hv, rfl⟩
  obtain ⟨changes, hchanges⟩ : ∃ changes, List.Forall₂ (Reads (codecs.map Codec.field))
      (fieldMembers (codecs.map Codec.field) members) changes := exists_changes hreads
  have hnodup : ((fieldMembers (codecs.map Codec.field) members).map Prod.fst).Nodup := by
    rw [(hperm.map Prod.fst).nodup_iff]
    exact (writeMap_names_sublist hwrite).nodup h.nodup
  refine visitMap_eq_ok_iff.mpr ⟨hnodup, changes, hchanges, ?_⟩
  refine h.ext _ _ fun k hk => ?_
  rcases get_setAll (r := missing) h hchanges hk with ⟨v, hv, hread⟩ | ⟨hnot, hval⟩
  · -- the value of the member is the one that was written
    obtain ⟨k', hk', hname, hwritten⟩ := (mem_writeMap_iff hwrite).mp (hperm.mem_iff.mp hv)
    obtain rfl : k' = k := List.inj_on_of_nodup_map h.nodup hk' hk hname
    have hback := (hreturns k' hk').written v hwritten
    exact Except.ok.inj (hback.symm.trans hread)
  · -- the field was skipped
    obtain ⟨o, ho⟩ := exists_writeMap_iff.mp ⟨ms, hwrite⟩ k hk
    cases o with
    | none => exact ((hreturns k hk).skipped ho).symm.trans hval.symm
    | some v =>
        have hmem : (k.name, v) ∈ ms := (mem_writeMap_iff hwrite).mpr ⟨k, hk, rfl, ho⟩
        exact absurd (List.mem_map_of_mem (hperm.mem_iff.mpr hmem)) hnot

end Derive
