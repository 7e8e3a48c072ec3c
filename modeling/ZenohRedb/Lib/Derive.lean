import Mathlib.Data.List.Forall2
import Mathlib.Data.List.Nodup

set_option autoImplicit false

/-! # Derived readers

A record is described by a table of its fields: each has a name, a reader of its values and a
way to set it (`Field`). From the table comes a reader of the whole record (`visitMap`), which
goes over the members of an object in their order. It passes over members that are no fields,
and refuses a field that comes twice. A field that does not come keeps what the record begins
with.

`visitMap_eq_ok_iff` says without a loop when an object is accepted and what comes of it. The
second half is about records that are set field by field: setters of different fields can
change places, and what a field holds in the end depends on the beginning only where nothing
sets it (`IsField.setAll_eq_iff`).
-/

namespace Derive

/-- Why a record is refused. -/
inductive Error
  | duplicateField (name : String)
  | invalidType
  | invalidValue
  | invalidLength
  deriving DecidableEq

/-- A field of the record `ρ` with values in `V`: a value that can be read is a change of the
record. A field with a default may be left out at the end of an array. -/
structure Field (V ρ : Type) where
  name : String
  read : V → Except Error (ρ → ρ)
  hasDefault : Bool

/-- The field `name`, whose values are read by `read` and stored by `set`. -/
def Field.of {V ρ β : Type} (name : String) (read : V → Except Error β) (hasDefault : Bool)
    (set : β → ρ → ρ) : Field V ρ :=
  ⟨name, fun v => (read v).map set, hasDefault⟩

theorem Field.of_read_eq_ok_iff {V ρ β : Type} {name : String} {read : V → Except Error β}
    {hasDefault : Bool} {set : β → ρ → ρ} {v : V} {change : ρ → ρ} :
    (Field.of name read hasDefault set).read v = .ok change ↔
      ∃ b, read v = .ok b ∧ set b = change := by
  show (read v).map set = .ok change ↔ _
  cases read v <;> simp [Except.map]

section Readers

variable {V ρ : Type}

/-- The field with this name, if there is one. -/
def lookup (fields : List (Field V ρ)) (name : String) : Option (Field V ρ) :=
  fields.find? (·.name = name)

/-- Whether there is a field with this name. -/
def known (fields : List (Field V ρ)) (name : String) : Bool := (lookup fields name).isSome

/-- Visit one member, with the names of the fields that have come and the record so far. -/
def visitMember (fields : List (Field V ρ)) :
    List String × ρ → String × V → Except Error (List String × ρ)
  | (seen, r), (name, v) =>
      match lookup fields name with
      -- a member that is no field is ignored
      | none => .ok (seen, r)
      | some f =>
          if name ∈ seen then .error (.duplicateField name)
          else (f.read v).map fun set => (name :: seen, set r)

/-- Visit the members of an object; `missing` holds what the fields are without a value. -/
def visitMap (fields : List (Field V ρ)) (missing : ρ) (members : List (String × V)) :
    Except Error ρ :=
  (members.foldlM (visitMember fields) ([], missing)).map (·.2)

/-- Visit the values of an array, which are those of the fields in their order. -/
def visitSeq : List (Field V ρ) → ρ → List V → Except Error ρ
  | [], r, [] => .ok r
  | [], _, _ :: _ => .error .invalidLength
  | f :: fields, r, [] => if f.hasDefault then visitSeq fields r [] else .error .invalidLength
  | f :: fields, r, v :: vs =>
      match f.read v with
      | .ok set => visitSeq fields (set r) vs
      | .error e => .error e

end Readers

/-! ## What is accepted -/

section Accepted

variable {V ρ : Type} {fields : List (Field V ρ)} {r c : ρ}

/-- The member is a field with a value that can be read, as the change `set`. -/
def Reads (fields : List (Field V ρ)) (m : String × V) (set : ρ → ρ) : Prop :=
  ∃ f, lookup fields m.1 = some f ∧ f.read m.2 = .ok set

/-- The members that are fields. -/
def fieldMembers (fields : List (Field V ρ)) (members : List (String × V)) : List (String × V) :=
  members.filter (known fields ·.1)

/-- Make the changes of a list, one after the other. -/
def setAll (sets : List (ρ → ρ)) (r : ρ) : ρ := sets.foldl (fun r set => set r) r

theorem setAll_cons (set : ρ → ρ) (sets : List (ρ → ρ)) (r : ρ) :
    setAll (set :: sets) r = setAll sets (set r) := rfl

theorem setAll_append (sets sets' : List (ρ → ρ)) (r : ρ) :
    setAll (sets ++ sets') r = setAll sets' (setAll sets r) := by
  unfold setAll
  rw [List.foldl_append]

theorem Reads.known {m : String × V} {set : ρ → ρ} (h : Reads fields m set) :
    known fields m.1 = true := by
  obtain ⟨f, hf, -⟩ := h
  unfold Derive.known
  rw [hf]
  rfl

theorem fieldMembers_cons_of_known {m : String × V} (h : known fields m.1 = true)
    (ms : List (String × V)) : fieldMembers fields (m :: ms) = m :: fieldMembers fields ms :=
  List.filter_cons_of_pos h

theorem fieldMembers_cons_of_not_known {m : String × V} (h : known fields m.1 = false)
    (ms : List (String × V)) : fieldMembers fields (m :: ms) = fieldMembers fields ms :=
  List.filter_cons_of_neg (by simp [h])

/-- No member has the name `n` or one of the others. -/
theorem forall_not_mem_cons {ms : List (String × V)} {n : String} {seen : List String} :
    (∀ m ∈ ms, m.1 ∉ n :: seen) ↔ n ∉ ms.map Prod.fst ∧ ∀ m ∈ ms, m.1 ∉ seen := by
  simp only [List.mem_cons, not_or, forall_and, List.mem_map, not_exists, not_and]

theorem visitMember_of_not_known {m : String × V} (h : known fields m.1 = false)
    (seen : List String) : visitMember fields (seen, r) m = .ok (seen, r) := by
  have hnone : lookup fields m.1 = none := by
    unfold known at h
    exact Option.not_isSome_iff_eq_none.mp (by simp [h])
  simp only [visitMember, hnone]

/-- A field is visited if it has not come before and its value can be read. -/
theorem visitMember_eq_ok_iff {m : String × V} (h : known fields m.1 = true)
    {seen : List String} {p : List String × ρ} :
    visitMember fields (seen, r) m = .ok p ↔
      m.1 ∉ seen ∧ ∃ set, Reads fields m set ∧ p = (m.1 :: seen, set r) := by
  obtain ⟨f, hf⟩ := Option.isSome_iff_exists.mp h
  simp only [visitMember, Reads, hf, Option.some.injEq, exists_eq_left']
  by_cases hseen : m.1 ∈ seen
  · simp [hseen]
  · cases hread : f.read m.2 with
    | error e => simp [hseen, Except.map]
    | ok set => simp [hseen, Except.map, eq_comm]

theorem visit_cons_eq_ok_iff {m : String × V} {ms : List (String × V)} {p : List String × ρ} :
    ((m :: ms).foldlM (visitMember fields) p).map (·.2) = .ok c ↔
      ∃ p', visitMember fields p m = .ok p' ∧
        (ms.foldlM (visitMember fields) p').map (·.2) = .ok c := by
  rw [List.foldlM_cons]
  cases visitMember fields p m with
  | error e => exact iff_of_false nofun (by simp)
  | ok p' =>
      simp only [Except.ok.injEq, exists_eq_left']
      rfl

/-- The loop, from any point of it. A field that comes must not have come before. -/
theorem visit_eq_ok_iff {members : List (String × V)} {seen : List String} :
    (members.foldlM (visitMember fields) (seen, r)).map (·.2) = .ok c ↔
      (((fieldMembers fields members).map Prod.fst).Nodup ∧
        ∀ m ∈ fieldMembers fields members, m.1 ∉ seen) ∧
      ∃ sets, List.Forall₂ (Reads fields) (fieldMembers fields members) sets ∧
        c = setAll sets r := by
  induction members generalizing seen r with
  | nil =>
      have hnil : fieldMembers fields [] = [] := rfl
      simp only [hnil, List.forall₂_nil_left_iff, exists_eq_left]
      show Except.ok r = .ok c ↔ _
      simp [setAll, eq_comm]
  | cons m ms ih =>
      rw [visit_cons_eq_ok_iff]
      cases hk : known fields m.1 with
      | false =>
          rw [fieldMembers_cons_of_not_known hk, visitMember_of_not_known hk]
          simp only [Except.ok.injEq, exists_eq_left']
          exact ih
      | true =>
          rw [fieldMembers_cons_of_known hk]
          constructor
          · rintro ⟨p, hp, hrest⟩
            obtain ⟨hseen, set, hset, rfl⟩ := (visitMember_eq_ok_iff hk).mp hp
            obtain ⟨⟨hnodup, hnot⟩, sets, hsets, rfl⟩ := ih.mp hrest
            rw [forall_not_mem_cons] at hnot
            refine ⟨⟨?_, ?_⟩, set :: sets, .cons hset hsets, rfl⟩
            · exact List.nodup_cons.mpr ⟨hnot.1, hnodup⟩
            · exact List.forall_mem_cons.mpr ⟨hseen, hnot.2⟩
          · rintro ⟨⟨hnodup, hnot⟩, sets, hsets, rfl⟩
            obtain ⟨set, sets', hset, hsets', rfl⟩ := List.forall₂_cons_left_iff.mp hsets
            rw [List.map_cons, List.nodup_cons] at hnodup
            rw [List.forall_mem_cons] at hnot
            refine ⟨_, (visitMember_eq_ok_iff hk).mpr ⟨hnot.1, set, hset, rfl⟩, ih.mpr ?_⟩
            refine ⟨⟨hnodup.2, ?_⟩, sets', hsets', rfl⟩
            exact forall_not_mem_cons.mpr ⟨hnodup.1, hnot.2⟩

/-- **An object is accepted** exactly if no field comes twice and every field that comes can be
read; then all of them are set, in their order. -/
theorem visitMap_eq_ok_iff {members : List (String × V)} :
    visitMap fields r members = .ok c ↔
      ((fieldMembers fields members).map Prod.fst).Nodup ∧
      ∃ sets, List.Forall₂ (Reads fields) (fieldMembers fields members) sets ∧
        c = setAll sets r := by
  unfold visitMap
  refine visit_eq_ok_iff.trans (and_congr_left fun _ => and_iff_left ?_)
  exact fun m _ => List.not_mem_nil

theorem visitSeq_cons_eq_ok_iff {f : Field V ρ} {v : V} {vs : List V} :
    visitSeq (f :: fields) r (v :: vs) = .ok c ↔
      ∃ set, f.read v = .ok set ∧ visitSeq fields (set r) vs = .ok c := by
  rw [visitSeq]
  cases f.read v with
  | ok set => simp
  | error e => simp

theorem lookup_eq_some {name : String} {f : Field V ρ} (h : lookup fields name = some f) :
    f ∈ fields ∧ f.name = name := by
  unfold lookup at h
  exact ⟨List.mem_of_find?_eq_some h, by simpa using List.find?_some h⟩

theorem forall₂_append {ms ms' : List (String × V)} {sets : List (ρ → ρ)}
    (h : List.Forall₂ (Reads fields) (ms ++ ms') sets) :
    ∃ sets₁ sets₂, sets = sets₁ ++ sets₂ ∧ List.Forall₂ (Reads fields) ms sets₁ ∧
      List.Forall₂ (Reads fields) ms' sets₂ :=
  ⟨sets.take ms.length, sets.drop ms.length, (List.take_append_drop _ _).symm,
    (List.forall₂_take_append _ _ _ h.flip).flip, (List.forall₂_drop_append _ _ _ h.flip).flip⟩

theorem fieldMembers_append (ms ms' : List (String × V)) :
    fieldMembers fields (ms ++ ms') = fieldMembers fields ms ++ fieldMembers fields ms' :=
  List.filter_append ms ms'

theorem fieldMembers_names_subset {members : List (String × V)} {name : String}
    (h : name ∈ (fieldMembers fields members).map Prod.fst) : name ∈ members.map Prod.fst := by
  obtain ⟨m, hm, rfl⟩ := List.mem_map.mp h
  exact List.mem_map.mpr ⟨m, List.mem_of_mem_filter hm, rfl⟩

/-- A field comes exactly if its name is one of those of the members. -/
theorem mem_fieldMembers_names_iff {members : List (String × V)} {name : String}
    (h : known fields name = true) :
    name ∈ (fieldMembers fields members).map Prod.fst ↔ name ∈ members.map Prod.fst := by
  refine ⟨fieldMembers_names_subset, ?_⟩
  intro hname
  obtain ⟨m, hm, rfl⟩ := List.mem_map.mp hname
  exact List.mem_map.mpr ⟨m, List.mem_filter.mpr ⟨hm, h⟩, rfl⟩

theorem exists_reads {members : List (String × V)} {sets : List (ρ → ρ)} {m : String × V}
    (h : List.Forall₂ (Reads fields) members sets) (hm : m ∈ members) :
    ∃ set, Reads fields m set := by
  induction h with
  | nil => cases hm
  | cons hread _ ih =>
      rcases List.mem_cons.mp hm with rfl | htail
      · exact ⟨_, hread⟩
      · exact ih htail

/-- Every change that is made was read for a field that comes. -/
theorem exists_field {members : List (String × V)} {sets : List (ρ → ρ)} {set : ρ → ρ}
    (h : List.Forall₂ (Reads fields) members sets) (hset : set ∈ sets) :
    ∃ f ∈ fields, f.name ∈ members.map Prod.fst ∧ ∃ v, f.read v = .ok set := by
  induction h with
  | nil => cases hset
  | cons hm _ ih =>
      rw [List.map_cons]
      rcases List.mem_cons.mp hset with rfl | htail
      · obtain ⟨f, hf, hread⟩ := hm
        obtain ⟨hmem, hname⟩ := lookup_eq_some hf
        exact ⟨f, hmem, List.mem_cons.mpr (.inl hname), _, hread⟩
      · obtain ⟨f, hmem, hname, hread⟩ := ih htail
        exact ⟨f, hmem, List.mem_cons_of_mem _ hname, hread⟩

theorem setAll_keeps {β : Type} {π : ρ → β} {sets : List (ρ → ρ)}
    (h : ∀ set ∈ sets, ∀ r, π (set r) = π r) (r : ρ) : π (setAll sets r) = π r := by
  induction sets generalizing r with
  | nil => rfl
  | cons set sets ih =>
      rw [List.forall_mem_cons] at h
      rw [setAll_cons, ih h.2, h.1]

/-- **A field that does not come** holds what the record begins with. -/
theorem visitMap_keeps {β : Type} (π : ρ → β) {n : String} {members : List (String × V)}
    (hother : ∀ f ∈ fields, f.name ≠ n → ∀ v set, f.read v = .ok set → ∀ r, π (set r) = π r)
    (hn : n ∉ members.map Prod.fst) (h : visitMap fields r members = .ok c) : π c = π r := by
  obtain ⟨-, sets, hsets, rfl⟩ := visitMap_eq_ok_iff.mp h
  refine setAll_keeps ?_ r
  intro set hset
  obtain ⟨f, hmem, hname, v, hread⟩ := exists_field hsets hset
  refine hother f hmem ?_ v set hread
  rintro rfl
  exact hn (fieldMembers_names_subset hname)

theorem setAll_comm {set : ρ → ρ} {sets : List (ρ → ρ)}
    (h : ∀ set' ∈ sets, ∀ r, set (set' r) = set' (set r)) (r : ρ) :
    setAll sets (set r) = set (setAll sets r) := by
  induction sets generalizing r with
  | nil => rfl
  | cons set' sets ih =>
      rw [List.forall_mem_cons] at h
      rw [setAll_cons, setAll_cons, ← h.1 r]
      exact ih h.2 (set' r)

/-- **One more member**, for a field that does not come, is one more change of the record. -/
theorem visitMap_insert {m : String × V} {set : ρ → ρ} {pre post : List (String × V)}
    (hm : Reads fields m set)
    (hcomm : ∀ f ∈ fields, f.name ≠ m.1 → ∀ v set', f.read v = .ok set' →
      ∀ r, set (set' r) = set' (set r))
    (hnew : m.1 ∉ (pre ++ post).map Prod.fst)
    (h : visitMap fields r (pre ++ post) = .ok c) :
    visitMap fields r (pre ++ m :: post) = .ok (set c) := by
  obtain ⟨hnodup, sets, hsets, rfl⟩ := visitMap_eq_ok_iff.mp h
  have hnew' : m.1 ∉ (fieldMembers fields (pre ++ post)).map Prod.fst := by
    rwa [mem_fieldMembers_names_iff hm.known]
  -- what is read for the members after the new one does not touch its field
  have hfree : ∀ set' ∈ sets, ∀ r, set (set' r) = set' (set r) := by
    intro set' hset'
    obtain ⟨f, hmem, hname, v, hread⟩ := exists_field hsets hset'
    refine hcomm f hmem ?_ v set' hread
    intro heq
    exact hnew' (heq ▸ hname)
  rw [fieldMembers_append] at hsets hnodup hnew'
  obtain ⟨sets₁, sets₂, rfl, h₁, h₂⟩ := forall₂_append hsets
  refine visitMap_eq_ok_iff.mpr ⟨?_, sets₁ ++ set :: sets₂, ?_, ?_⟩
  · rw [fieldMembers_append, fieldMembers_cons_of_known hm.known, List.map_append, List.map_cons,
      List.nodup_middle, ← List.map_append]
    exact List.nodup_cons.mpr ⟨hnew', hnodup⟩
  · rw [fieldMembers_append, fieldMembers_cons_of_known hm.known]
    exact List.rel_append h₁ (.cons hm h₂)
  · rw [setAll_append, setAll_append, setAll_cons]
    exact (setAll_comm (fun set' hset' => hfree set' (List.mem_append_right _ hset')) _).symm

end Accepted

/-! ## Records that are set field by field -/

section Setters

variable {ι κ ρ β : Type} {name : ι → κ} {set : ι → ρ → ρ} {l l' : List ι} {r r' : ρ}

/-- **Setters of different fields** can be called in any order. -/
theorem setAll_perm (hcomm : ∀ i j, name i ≠ name j → ∀ r, set i (set j r) = set j (set i r))
    (hnodup : (l.map name).Nodup) (h : l.Perm l') :
    setAll (l.map set) r = setAll (l'.map set) r := by
  unfold setAll
  rw [List.foldl_map, List.foldl_map]
  refine h.foldl_eq' ?_ r
  intro i hi j hj r
  by_cases hij : name i = name j
  · rw [List.inj_on_of_nodup_map hnodup hi hj hij]
  · exact (hcomm i j hij r).symm

/-- A relation that every setter keeps is kept by all of them. -/
theorem setAll_rel {R : ρ → ρ → Prop} (hR : ∀ i r r', R r r' → R (set i r) (set i r'))
    (h : R r r') : R (setAll (l.map set) r) (setAll (l.map set) r') := by
  induction l generalizing r r' with
  | nil => exact h
  | cons i l ih => exact ih (hR i r r' h)

/-- The field `π` is set by the setters with the name `n`, whatever it was before, and by no
others. -/
structure IsField (name : ι → κ) (set : ι → ρ → ρ) (n : κ) (π : ρ → β) : Prop where
  self : ∀ i, name i = n → ∀ r r', π (set i r) = π (set i r')
  other : ∀ i, name i ≠ n → ∀ r, π (set i r) = π r

variable {π : ρ → β} {n : κ}

/-- A field that is not set is what it was. -/
theorem IsField.setAll_of_notMem (hfield : IsField name set n π) (h : n ∉ l.map name) :
    π (setAll (l.map set) r) = π r := by
  induction l generalizing r with
  | nil => rfl
  | cons i l ih =>
      rw [List.map_cons, List.mem_cons, not_or] at h
      rw [List.map_cons, setAll_cons, ih h.2, hfield.other i (Ne.symm h.1)]

/-- A field that is set does not depend on what it was. -/
theorem IsField.setAll_of_mem (hfield : IsField name set n π) (h : n ∈ l.map name) :
    π (setAll (l.map set) r) = π (setAll (l.map set) r') := by
  induction l generalizing r r' with
  | nil => cases h
  | cons i l ih =>
      rw [List.map_cons, setAll_cons, setAll_cons]
      by_cases hl : n ∈ l.map name
      · exact ih hl
      · -- this is the last setter of the field
        have hi : n = name i := by
          rw [List.map_cons, List.mem_cons] at h
          exact h.resolve_right hl
        rw [hfield.setAll_of_notMem hl, hfield.setAll_of_notMem hl]
        exact hfield.self i hi.symm r r'

/-- **From two beginnings** a field holds the same in the end exactly if it is set or was the
same. -/
theorem IsField.setAll_eq_iff (hfield : IsField name set n π) :
    π (setAll (l.map set) r) = π (setAll (l.map set) r') ↔ n ∈ l.map name ∨ π r = π r' := by
  by_cases h : n ∈ l.map name
  · exact iff_of_true (hfield.setAll_of_mem h) (.inl h)
  · rw [hfield.setAll_of_notMem h, hfield.setAll_of_notMem h]
    exact (or_iff_right h).symm

end Setters

end Derive
