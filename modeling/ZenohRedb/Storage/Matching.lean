import ZenohRedb.Lib.Wildcards
import ZenohRedb.Storage.Ops

set_option autoImplicit false

/-! # What wildcard matching means

`matches_parts` decides whether the segments of a key are a word of the pattern
(`matchesParts_iff`), where the pattern is a pattern in the sense of `Lib/Wildcards`. So a key
matches exactly if its segments can be cut into blocks, one for every segment of the pattern
(`matchesWildcard_iff`), and patterns with the same canonical form select the same keys
(`matchesWildcard_of_normalForm`).
-/

namespace ZenohRedb

open Wild

/-! ## The matcher computes a language -/

/-- What a segment of a pattern is. -/
def segment (p : String) : Wild String :=
  if p = "**" then .many else if p = "*" then .one else .lit p

@[simp] theorem segment_many : segment "**" = .many := rfl

@[simp] theorem segment_one : segment "*" = .one := rfl

theorem segment_lit {p : String} (hm : p ≠ "**") (ho : p ≠ "*") : segment p = .lit p := by
  unfold segment
  rw [if_neg hm, if_neg ho]

/-- A segment is one of the two wildcards, or stands for itself. -/
theorem segment_cases (p : String) :
    p = "**" ∨ p = "*" ∨ (p ≠ "**" ∧ p ≠ "*" ∧ segment p = .lit p) := by
  by_cases hm : p = "**"
  · exact Or.inl hm
  · by_cases ho : p = "*"
    · exact Or.inr (Or.inl ho)
    · exact Or.inr (Or.inr ⟨hm, ho, segment_lit hm ho⟩)

theorem segment_eq_lit {p a : String} (h : segment p = .lit a) : p = a := by
  rcases segment_cases p with rfl | rfl | ⟨-, -, hp⟩
  · cases h
  · cases h
  · exact Wild.lit.inj (hp.symm.trans h)

theorem segment_inj {p q : String} : segment p = segment q ↔ p = q := by
  constructor
  · intro h
    rcases segment_cases p with rfl | rfl | ⟨-, -, hp⟩
    · rcases segment_cases q with rfl | rfl | ⟨-, -, hq⟩
      · rfl
      · cases h
      · exact segment_eq_lit (h.trans hq)
    · rcases segment_cases q with rfl | rfl | ⟨-, -, hq⟩
      · cases h
      · rfl
      · exact segment_eq_lit (h.trans hq)
    · exact (segment_eq_lit (h.symm.trans hp)).symm
  · rintro rfl
    rfl

/-- **The matcher** accepts the words of the pattern. -/
theorem matchesParts_iff (ks ps : List String) :
    matchesParts ks ps = true ↔ ks ∈ lang (ps.map segment) := by
  unfold lang
  fun_induction matchesParts ks ps with
  | case1 => simp
  | case2 k ks => simp
  | case3 ps ih => rw [ih, List.map_cons, segment_many, nil_mem_many_cons]
  | case4 p ps hp =>
      -- an exhausted key is matched by `**` only
      simp only [Bool.false_eq_true, false_iff, List.map_cons]
      by_cases ho : p = "*"
      · rw [ho, segment_one]
        exact nil_notMem_one_cons
      · rw [segment_lit hp ho]
        exact nil_notMem_lit_cons
  | case5 k ks ps ih₁ ih₂ =>
      rw [Bool.or_eq_true, ih₁, ih₂, List.map_cons, segment_many, cons_mem_many_cons]
      simp only [true_and]
  | case6 k ks ps h ih =>
      rw [ih, List.map_cons, segment_one, cons_mem_one_cons]
      simp only [true_and]
  | case7 k ks p ps hm ho ih =>
      rw [Bool.and_eq_true, decide_eq_true_eq, ih, List.map_cons, segment_lit hm ho,
        cons_mem_lit_cons]

/-! ## Blocks -/

/-- The lists of segments of a key that a segment of a pattern can stand for. -/
def Block (p : String) (block : List String) : Prop :=
  if p = "**" then True
  else if p = "*" then ∃ s, block = [s]
  else block = [p]

theorem block_iff (p : String) (block : List String) :
    Block p block ↔ block ∈ words (fun _ => false) (segment p) := by
  unfold Block
  rcases segment_cases p with rfl | rfl | ⟨hm, ho, hp⟩
  · simp
  · simp
  · rw [if_neg hm, if_neg ho, hp, mem_words_lit]

/-- The segments `ks` can be cut into blocks, one for every segment of `ps`, in this order. -/
def Fits (ks ps : List String) : Prop :=
  ∃ blocks : List (List String), blocks.flatten = ks ∧ List.Forall₂ Block ps blocks

theorem fits_iff (ks ps : List String) : Fits ks ps ↔ ks ∈ lang (ps.map segment) :=
  (mem_langExcept_map_iff block_iff ps).symm

/-! ## The recursion of `matches_parts`

`matchesParts` has lists for slices and recurses by their total length. `matchesPartsIn` is
`matches_parts` with the slices written out and the depth of the recursion bounded; it has no
result where a slice is out of range or the bound is reached. -/

/-- `&parts[1..]`, which panics on an empty slice. -/
def sliceFrom1 (parts : List String) : Option (List String) :=
  if 1 ≤ parts.length then some (parts.drop 1) else none

@[simp] theorem sliceFrom1_cons (part : String) (parts : List String) :
    sliceFrom1 (part :: parts) = some parts := by
  unfold sliceFrom1
  rw [List.length_cons, if_pos (Nat.le_add_left 1 _), List.drop_one, List.tail_cons]

/-- `matches_parts` with at most this many nested calls. -/
def matchesPartsIn : Nat → List String → List String → Option Bool
  | 0, _, _ => none
  | depth + 1, keyParts, patternParts =>
      match keyParts.head?, patternParts.head? with
      | none, none => some true
      | some _, none => some false
      | none, some patternPart =>
          if patternPart = "**" then do matchesPartsIn depth keyParts (← sliceFrom1 patternParts)
          else some false
      | some keyPart, some patternPart =>
          if patternPart = "**" then do
            -- `||` runs its right side only if the left one is false
            if ← matchesPartsIn depth keyParts (← sliceFrom1 patternParts) then some true
            else matchesPartsIn depth (← sliceFrom1 keyParts) patternParts
          else if patternPart = "*" then do
            matchesPartsIn depth (← sliceFrom1 keyParts) (← sliceFrom1 patternParts)
          else if keyPart = patternPart then do
            matchesPartsIn depth (← sliceFrom1 keyParts) (← sliceFrom1 patternParts)
          else some false

/-- Every nested call has a shorter key or a shorter pattern, and takes a slice of something
that has a first element. -/
theorem matchesPartsIn_eq {depth : Nat} {ks ps : List String} (h : ks.length + ps.length < depth) :
    matchesPartsIn depth ks ps = some (matchesParts ks ps) := by
  induction depth generalizing ks ps with
  | zero => omega
  | succ depth ih =>
      cases ps with
      | nil => cases ks <;> simp [matchesPartsIn, matchesParts]
      | cons p ps =>
          rw [List.length_cons] at h
          have hpattern : matchesPartsIn depth ks ps = some (matchesParts ks ps) :=
            ih (by omega)
          cases ks with
          | nil =>
              simp only [matchesPartsIn, List.head?_nil, List.head?_cons, sliceFrom1_cons,
                Option.bind_eq_bind, Option.bind_some, matchesParts, hpattern]
              split <;> rfl
          | cons k ks =>
              rw [List.length_cons] at h
              have hkey : matchesPartsIn depth ks (p :: ps) = some (matchesParts ks (p :: ps)) :=
                ih (by rw [List.length_cons]; omega)
              have hboth : matchesPartsIn depth ks ps = some (matchesParts ks ps) := ih (by omega)
              rw [matchesParts]
              simp only [matchesPartsIn, List.head?_cons, sliceFrom1_cons,
                Option.bind_eq_bind, Option.bind_some, hpattern, hkey, hboth]
              by_cases hm : p = "**"
              · rw [if_pos hm, if_pos hm]
                cases matchesParts (k :: ks) ps <;> rfl
              · rw [if_neg hm, if_neg hm]
                by_cases ho : p = "*"
                · rw [if_pos ho, if_pos ho]
                · rw [if_neg ho, if_neg ho]
                  by_cases hk : k = p <;> simp [hk]

/-- **A key matches a pattern** exactly if its segments can be cut into consecutive blocks, one
for every segment of the pattern: any list for `**`, one segment for `*`, and the segment
itself for any other. The recursion is never deeper than both have segments, and slices
nothing that is empty. -/
theorem matchesWildcard_iff (key pattern : String) :
    (matchesWildcard key pattern = true ↔ Fits (Str.split key '/') (Str.split pattern '/')) ∧
      ∀ extra : Nat,
        matchesPartsIn ((Str.split key '/').length + (Str.split pattern '/').length + 1 + extra)
            (Str.split key '/') (Str.split pattern '/')
          = some (matchesWildcard key pattern) := by
  refine ⟨?_, fun extra => matchesPartsIn_eq (by omega)⟩
  rw [fits_iff]
  exact matchesParts_iff _ _

/-! ## Canonical forms

Zenoh writes `**` once where it would stand twice, and behind the `*`s next to it. -/

/-- One step towards the canonical form of a pattern. -/
inductive Canonicalizes : List String → List String → Prop
  | doubled (pre suf : List String) :
      Canonicalizes (pre ++ ["**", "**"] ++ suf) (pre ++ ["**"] ++ suf)
  | swapped (pre suf : List String) :
      Canonicalizes (pre ++ ["**", "*"] ++ suf) (pre ++ ["*", "**"] ++ suf)

/-- `nf` is reached from `ps` by such steps, and there is none left. -/
def NormalForm (ps nf : List String) : Prop :=
  Relation.ReflTransGen Canonicalizes ps nf ∧ ∀ qs, ¬ Canonicalizes nf qs

section

variable {ps qs : List String}

theorem Canonicalizes.step (h : Canonicalizes ps qs) :
    Step (ps.map segment) (qs.map segment) := by
  cases h with
  | doubled pre suf =>
      simp only [List.append_assoc, List.map_append, List.map_cons, segment_many]
      exact .manyMany (pre.map segment) (suf.map segment)
  | swapped pre suf =>
      simp only [List.append_assoc, List.map_append, List.map_cons, segment_many, segment_one]
      exact .manyOne (pre.map segment) (suf.map segment)

/-- Two neighbours among the symbols are two neighbours among the segments. -/
theorem neighbours_of_map {p q : String} {pre suf : List (Wild String)}
    (h : ps.map segment = pre ++ segment p :: segment q :: suf) :
    ∃ pre' suf' : List String, ps = pre' ++ [p, q] ++ suf' ∧
      pre'.map segment = pre ∧ suf'.map segment = suf := by
  obtain ⟨pre', rest, rfl, hpre, hrest⟩ := List.map_eq_append_iff.mp h
  obtain ⟨p', rest, rfl, hp, hrest⟩ := List.map_eq_cons_iff.mp hrest
  obtain ⟨q', suf', rfl, hq, hsuf⟩ := List.map_eq_cons_iff.mp hrest
  obtain rfl := segment_inj.mp hp
  obtain rfl := segment_inj.mp hq
  exact ⟨pre', suf', by simp, hpre, hsuf⟩

/-- Rewriting the symbols of a pattern rewrites its segments. -/
theorem canonicalizes_of_step {rs : List (Wild String)} (h : Step (ps.map segment) rs) :
    ∃ qs, Canonicalizes ps qs ∧ qs.map segment = rs := by
  generalize hl : ps.map segment = ls at h
  cases h with
  | manyMany pre suf =>
      have hsegments : ps.map segment = pre ++ segment "**" :: segment "**" :: suf := hl
      obtain ⟨pre, suf, rfl, rfl, rfl⟩ := neighbours_of_map hsegments
      exact ⟨pre ++ ["**"] ++ suf, .doubled pre suf, by simp⟩
  | manyOne pre suf =>
      have hsegments : ps.map segment = pre ++ segment "**" :: segment "*" :: suf := hl
      obtain ⟨pre, suf, rfl, rfl, rfl⟩ := neighbours_of_map hsegments
      exact ⟨pre ++ ["*", "**"] ++ suf, .swapped pre suf, by simp⟩

theorem steps_of_canonicalizes (h : Relation.ReflTransGen Canonicalizes ps qs) :
    Relation.ReflTransGen Step (ps.map segment) (qs.map segment) :=
  h.lift (·.map segment) fun _ _ => Canonicalizes.step

theorem canonicalizes_of_steps {rs : List (Wild String)}
    (h : Relation.ReflTransGen Step (ps.map segment) rs) :
    ∃ qs, Relation.ReflTransGen Canonicalizes ps qs ∧ qs.map segment = rs := by
  induction h with
  | refl => exact ⟨ps, .refl, rfl⟩
  | tail _ hstep ih =>
      obtain ⟨qs, hqs, rfl⟩ := ih
      obtain ⟨qs', hqs', hrs⟩ := canonicalizes_of_step hstep
      exact ⟨qs', hqs.tail hqs', hrs⟩

theorem normalForm_iff {nf : List String} :
    NormalForm ps nf ↔ nf.map segment = canonical (ps.map segment) := by
  rw [← Wild.normalForm_iff]
  constructor
  · rintro ⟨hsteps, hnormal⟩
    refine ⟨steps_of_canonicalizes hsteps, fun rs hstep => ?_⟩
    obtain ⟨qs, hqs, -⟩ := canonicalizes_of_step hstep
    exact hnormal qs hqs
  · rintro ⟨hsteps, hnormal⟩
    obtain ⟨qs, hqs, heq⟩ := canonicalizes_of_steps hsteps
    -- different segments are different symbols
    obtain rfl : qs = nf := List.map_injective_iff.mpr (fun _ _ => segment_inj.mp) heq
    exact ⟨hqs, fun rs hstep => hnormal _ hstep.step⟩

/-- Every pattern has exactly one normal form. -/
theorem existsUnique_normalForm (ps : List String) : ∃! nf, NormalForm ps nf := by
  obtain ⟨nf, -, hnf⟩ := canonicalizes_of_steps (steps_canonical (ps.map segment))
  refine ⟨nf, normalForm_iff.mpr hnf, fun nf' h => ?_⟩
  have heq : nf'.map segment = nf.map segment := (normalForm_iff.mp h).trans hnf.symm
  exact List.map_injective_iff.mpr (fun _ _ => segment_inj.mp) heq

theorem matchesParts_of_steps (h : Relation.ReflTransGen Canonicalizes ps qs) (ks : List String) :
    matchesParts ks ps = matchesParts ks qs := by
  rw [Bool.eq_iff_iff, matchesParts_iff, matchesParts_iff]
  unfold lang
  rw [langExcept_eq_of_steps (steps_of_canonicalizes h)]

end

/-- **Matching depends on the canonical form of a pattern only.** Both steps keep what a
pattern matches, and patterns with the same normal form match the same keys and select the same
entries. -/
theorem matchesWildcard_of_normalForm :
    (∀ key pre suf : List String, matchesParts key (pre ++ ["**", "**"] ++ suf)
        = matchesParts key (pre ++ ["**"] ++ suf)) ∧
    (∀ key pre suf : List String, matchesParts key (pre ++ ["**", "*"] ++ suf)
        = matchesParts key (pre ++ ["*", "**"] ++ suf)) ∧
    ∀ (pattern pattern' : String) (nf : List String),
      NormalForm (Str.split pattern '/') nf → NormalForm (Str.split pattern' '/') nf →
      (∀ key, matchesWildcard key pattern = matchesWildcard key pattern') ∧
      ∀ (z : ZExt) (faults : List (Option String)) (buf : Bytes) (db : Db),
        (RedbStorage.getByWildcard z pattern).exec faults buf db
          = (RedbStorage.getByWildcard z pattern').exec faults buf db := by
  refine ⟨fun key pre suf => matchesParts_of_steps (.single (.doubled pre suf)) key,
    fun key pre suf => matchesParts_of_steps (.single (.swapped pre suf)) key, ?_⟩
  intro pattern pattern' nf h h'
  have hkeys : ∀ key, matchesWildcard key pattern = matchesWildcard key pattern' := by
    intro key
    unfold matchesWildcard
    rw [matchesParts_of_steps h.1, matchesParts_of_steps h'.1]
  refine ⟨hkeys, fun z faults buf db => ?_⟩
  unfold RedbStorage.getByWildcard
  simp only [hkeys]

/-- `a/**/**/*` and `a/*/**` have the normal form of the second. -/
theorem matchesWildcard_of_normalForm_swapped :
    ∀ key, matchesWildcard key "a/**/**/*" = matchesWildcard key "a/*/**" :=
  (matchesWildcard_of_normalForm.2.2 "a/**/**/*" "a/*/**" ["a", "*", "**"]
    (normalForm_iff.mpr (by decide)) (normalForm_iff.mpr (by decide))).1

end ZenohRedb
