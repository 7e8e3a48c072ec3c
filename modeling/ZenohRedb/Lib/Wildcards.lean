import Mathlib.Computability.Language
import Mathlib.Logic.Relation

set_option autoImplicit false

/-! # Patterns with wildcards

A pattern is a list of symbols over an alphabet: a letter, `one` for any single letter, or
`many` for any number of letters. Some letters may be verbatim, which means that no wildcard
stands for them and only a symbol that is the letter does. What a pattern stands for is a
language, the product of what its symbols stand for (`langExcept`, and `lang` where no letter
is verbatim).

The first half computes that language symbol by symbol. The second half is about rewriting:
`many many` into `many`, and `many one` into `one many`, anywhere in a pattern and any number
of times. The language stays the same, and every pattern has exactly one normal form, which
`canonical` computes.
-/

/-- A symbol of a pattern over the letters `α`. -/
inductive Wild (α : Type) where
  | many
  | one
  | lit (a : α)
  deriving DecidableEq, Repr

namespace Wild

variable {α : Type}

/-! ## What a pattern stands for -/

section Except

variable (v : α → Bool)

/-- The words one symbol stands for. The letters with `v` are verbatim. -/
def words : Wild α → Language α
  | many => {l | ∀ a ∈ l, v a = false}
  | one => {l | ∃ a, v a = false ∧ l = [a]}
  | lit a => {[a]}

/-- The words a pattern stands for. -/
def langExcept (ps : List (Wild α)) : Language α := (ps.map (words v)).prod

variable {v} {a b : α} {l : List α} {ps qs : List (Wild α)}

@[simp] theorem mem_words_many : l ∈ words v many ↔ ∀ a ∈ l, v a = false := Iff.rfl

@[simp] theorem mem_words_one : l ∈ words v one ↔ ∃ a, v a = false ∧ l = [a] := Iff.rfl

@[simp] theorem mem_words_lit : l ∈ words v (lit a) ↔ l = [a] := Iff.rfl

@[simp] theorem mem_langExcept_nil : l ∈ langExcept v [] ↔ l = [] := Iff.rfl

theorem langExcept_cons (p : Wild α) : langExcept v (p :: ps) = words v p * langExcept v ps := by
  unfold langExcept
  rw [List.map_cons, List.prod_cons]

theorem langExcept_append : langExcept v (ps ++ qs) = langExcept v ps * langExcept v qs := by
  unfold langExcept
  rw [List.map_append, List.prod_append]

theorem mem_langExcept_cons {p : Wild α} :
    l ∈ langExcept v (p :: ps) ↔ ∃ b ∈ words v p, ∃ t ∈ langExcept v ps, b ++ t = l := by
  rw [langExcept_cons, Language.mem_mul]

/-- A word of the pattern is one that can be cut into a word for every symbol. -/
theorem mem_langExcept_iff :
    l ∈ langExcept v ps ↔
      ∃ blocks : List (List α), blocks.flatten = l ∧
        List.Forall₂ (fun p b => b ∈ words v p) ps blocks := by
  induction ps generalizing l with
  | nil =>
      rw [mem_langExcept_nil]
      constructor
      · rintro rfl
        exact ⟨[], rfl, .nil⟩
      · rintro ⟨blocks, rfl, h⟩
        rw [List.forall₂_nil_left_iff.mp h, List.flatten_nil]
  | cons p ps ih =>
      rw [mem_langExcept_cons]
      constructor
      · rintro ⟨b, hb, t, ht, rfl⟩
        obtain ⟨blocks, rfl, hblocks⟩ := ih.mp ht
        exact ⟨b :: blocks, rfl, .cons hb hblocks⟩
      · rintro ⟨blocks, rfl, h⟩
        obtain ⟨b, blocks', hb, hblocks, rfl⟩ := List.forall₂_cons_left_iff.mp h
        exact ⟨b, hb, blocks'.flatten, ih.mpr ⟨blocks', rfl, hblocks⟩, rfl⟩

/-- The same for a pattern whose symbols come from elsewhere, with what each stands for put in
other words. -/
theorem mem_langExcept_map_iff {β : Type} {f : β → Wild α} {Block : β → List α → Prop}
    (h : ∀ p block, Block p block ↔ block ∈ words v (f p)) (ps : List β) :
    l ∈ langExcept v (ps.map f) ↔
      ∃ blocks : List (List α), blocks.flatten = l ∧ List.Forall₂ Block ps blocks := by
  have hblock : Block = fun p block => block ∈ words v (f p) := by
    funext p block
    exact propext (h p block)
  rw [mem_langExcept_iff, hblock]
  simp only [List.forall₂_map_left_iff]

/-! ### One letter at a time -/

theorem nil_mem_many_cons : [] ∈ langExcept v (many :: ps) ↔ [] ∈ langExcept v ps := by
  rw [mem_langExcept_cons]
  constructor
  · rintro ⟨b, -, t, ht, h⟩
    rwa [(List.append_eq_nil_iff.mp h).2] at ht
  · intro h
    exact ⟨[], by simp, [], h, rfl⟩

/-- `many` stands for nothing, or takes the first letter and goes on. -/
theorem cons_mem_many_cons :
    a :: l ∈ langExcept v (many :: ps) ↔
      a :: l ∈ langExcept v ps ∨ (v a = false ∧ l ∈ langExcept v (many :: ps)) := by
  simp only [mem_langExcept_cons, mem_words_many]
  constructor
  · rintro ⟨b, hb, t, ht, h⟩
    cases b with
    | nil => exact Or.inl (h ▸ ht)
    | cons c cs =>
        rw [List.cons_append, List.cons_eq_cons] at h
        obtain ⟨rfl, rfl⟩ := h
        have hcs : ∀ a ∈ cs, v a = false := fun a ha => hb a (List.mem_cons_of_mem c ha)
        exact Or.inr ⟨hb c List.mem_cons_self, cs, hcs, t, ht, rfl⟩
  · rintro (h | ⟨ha, b, hb, t, ht, rfl⟩)
    · exact ⟨[], by simp, a :: l, h, rfl⟩
    · exact ⟨a :: b, List.forall_mem_cons.mpr ⟨ha, hb⟩, t, ht, rfl⟩

theorem nil_notMem_one_cons : [] ∉ langExcept v (one :: ps) := by
  rw [mem_langExcept_cons]
  rintro ⟨b, ⟨a, -, rfl⟩, t, -, h⟩
  cases h

theorem cons_mem_one_cons :
    a :: l ∈ langExcept v (one :: ps) ↔ v a = false ∧ l ∈ langExcept v ps := by
  rw [mem_langExcept_cons]
  constructor
  · rintro ⟨b, ⟨c, hc, rfl⟩, t, ht, h⟩
    cases h
    exact ⟨hc, ht⟩
  · rintro ⟨ha, hl⟩
    exact ⟨[a], ⟨a, ha, rfl⟩, l, hl, rfl⟩

theorem nil_notMem_lit_cons : [] ∉ langExcept v (lit b :: ps) := by
  rw [mem_langExcept_cons]
  rintro ⟨_, rfl, t, -, h⟩
  cases h

theorem cons_mem_lit_cons :
    a :: l ∈ langExcept v (lit b :: ps) ↔ a = b ∧ l ∈ langExcept v ps := by
  rw [mem_langExcept_cons]
  constructor
  · rintro ⟨_, rfl, t, ht, h⟩
    cases h
    exact ⟨rfl, ht⟩
  · rintro ⟨rfl, hl⟩
    exact ⟨[a], rfl, l, hl, rfl⟩

/-! ### Letters in front -/

/-- Letters at the front of a pattern are a prefix of its words. -/
theorem mem_lits_append (ls : List α) :
    l ∈ langExcept v (ls.map lit ++ ps) ↔ ∃ t ∈ langExcept v ps, l = ls ++ t := by
  induction ls generalizing l with
  | nil => simp
  | cons b ls ih =>
      rw [List.map_cons, List.cons_append]
      cases l with
      | nil => simp [nil_notMem_lit_cons]
      | cons a l =>
          rw [cons_mem_lit_cons, ih]
          simp only [List.cons_append, List.cons.injEq, and_left_comm, exists_and_left]

/-- A pattern of letters stands for itself. -/
theorem mem_lits (ls : List α) : l ∈ langExcept v (ls.map lit) ↔ l = ls := by
  have h : l ∈ langExcept v (ls.map lit ++ []) ↔ ∃ t ∈ langExcept v [], l = ls ++ t :=
    mem_lits_append ls
  simpa using h

end Except

/-- The words a pattern stands for where no letter is verbatim. -/
def lang (ps : List (Wild α)) : Language α := langExcept (fun _ => false) ps

section

variable {v : α → Bool} {l : List α} {ps : List (Wild α)}

theorem mem_lang_many : l ∈ lang [many (α := α)] := by
  unfold lang
  rw [mem_langExcept_cons]
  exact ⟨l, fun _ _ => rfl, [], rfl, List.append_nil l⟩

/-- Letters with `many` behind them stand for the words they are a prefix of. -/
theorem mem_lang_lits_many (ls : List α) : l ∈ lang (ls.map lit ++ [many]) ↔ ls <+: l := by
  unfold lang
  rw [mem_lits_append]
  constructor
  · rintro ⟨t, -, rfl⟩
    exact List.prefix_append ls t
  · rintro ⟨t, rfl⟩
    exact ⟨t, mem_lang_many, rfl⟩

/-! ## Counting verbatim letters

A symbol that is a verbatim letter stands for one verbatim letter, and nothing else has to
stand for any. So a word of a pattern needs no wildcard for a verbatim letter exactly if it
has no more of them than the pattern. -/

variable (v) in
/-- Whether a symbol is a verbatim letter. -/
def verbatim : Wild α → Bool
  | many => false
  | one => false
  | lit a => v a

/-- One symbol stands for at least the verbatim letter it is, and for more only as a
wildcard. -/
theorem words_countP {p : Wild α} (h : l ∈ words (fun _ => false) p) :
    [p].countP (verbatim v) ≤ l.countP v ∧
      (l ∈ words v p ↔ l.countP v ≤ [p].countP (verbatim v)) := by
  cases p with
  | many =>
      refine ⟨Nat.zero_le _, ?_⟩
      show (∀ a ∈ l, v a = false) ↔ l.countP v ≤ 0
      rw [Nat.le_zero, List.countP_eq_zero]
      simp only [Bool.not_eq_true]
  | one =>
      obtain ⟨a, -, rfl⟩ := h
      refine ⟨Nat.zero_le _, ?_⟩
      show (∃ b, v b = false ∧ [a] = [b]) ↔ [a].countP v ≤ 0
      rw [Nat.le_zero, List.countP_eq_zero]
      simp
  | lit a =>
      obtain rfl := h
      have hcount : [lit a].countP (verbatim v) = [a].countP v := by
        rw [List.countP_singleton, List.countP_singleton]
        rfl
      rw [hcount]
      exact ⟨Nat.le_refl _, fun _ => Nat.le_refl _, fun _ => rfl⟩

theorem words_subset {p : Wild α} (h : l ∈ words v p) : l ∈ words (fun _ => false) p := by
  cases p with
  | many => exact fun _ _ => rfl
  | one =>
      obtain ⟨a, -, rfl⟩ := h
      exact ⟨a, rfl, rfl⟩
  | lit a => exact h

/-- Fewer words are left where some letters are verbatim. -/
theorem langExcept_subset (h : l ∈ langExcept v ps) : l ∈ lang ps := by
  obtain ⟨blocks, hflat, hblocks⟩ := mem_langExcept_iff.mp h
  exact mem_langExcept_iff.mpr ⟨blocks, hflat, hblocks.imp fun _ _ => words_subset⟩

/-- A verbatim letter of a word is named in the pattern. -/
theorem lit_mem_of_mem {a : α} (h : l ∈ langExcept v ps) (ha : a ∈ l) (hv : v a = true) :
    lit a ∈ ps := by
  induction ps generalizing l with
  | nil =>
      rw [mem_langExcept_nil.mp h] at ha
      cases ha
  | cons p ps ih =>
      obtain ⟨b, hb, t, ht, rfl⟩ := mem_langExcept_cons.mp h
      rcases List.mem_append.mp ha with ha | ha
      · cases p with
        | many => simp [hb a ha] at hv
        | one =>
            obtain ⟨c, hc, rfl⟩ := hb
            obtain rfl := List.mem_singleton.mp ha
            simp [hc] at hv
        | lit c =>
            obtain rfl := mem_words_lit.mp hb
            obtain rfl := List.mem_singleton.mp ha
            exact List.mem_cons_self
      · exact List.mem_cons_of_mem p (ih ht ha)

/-- A word has the verbatim letters of its pattern, and perhaps more. -/
theorem countP_verbatim_le (v : α → Bool) (h : l ∈ lang ps) :
    ps.countP (verbatim v) ≤ l.countP v := by
  induction ps generalizing l with
  | nil => exact Nat.zero_le _
  | cons p ps ih =>
      obtain ⟨b, hb, t, ht, rfl⟩ := mem_langExcept_cons.mp h
      rw [← List.singleton_append, List.countP_append, List.countP_append]
      exact Nat.add_le_add (words_countP hb).1 (ih ht)

/-- **No wildcard stands for a verbatim letter** in a word that has no more verbatim letters
than the pattern, and in no other. -/
theorem mem_langExcept_iff_countP (v : α → Bool) (h : l ∈ lang ps) :
    l ∈ langExcept v ps ↔ l.countP v ≤ ps.countP (verbatim v) := by
  induction ps generalizing l with
  | nil =>
      obtain rfl := mem_langExcept_nil.mp h
      exact ⟨fun _ => Nat.le_refl _, fun _ => rfl⟩
  | cons p ps ih =>
      rw [← List.singleton_append, List.countP_append]
      constructor
      · intro hl
        obtain ⟨b, hb, t, ht, rfl⟩ := mem_langExcept_cons.mp hl
        rw [List.countP_append]
        exact Nat.add_le_add ((words_countP (words_subset hb)).2.mp hb)
          ((ih (langExcept_subset ht)).mp ht)
      · intro hle
        obtain ⟨b, hb, t, ht, rfl⟩ := mem_langExcept_cons.mp h
        rw [List.countP_append] at hle
        -- neither part has fewer than its share, so neither has more
        obtain ⟨hbge, hbiff⟩ := words_countP (v := v) hb
        have htge := countP_verbatim_le v ht
        exact mem_langExcept_cons.mpr ⟨b, hbiff.mpr (by omega), t, (ih ht).mpr (by omega), rfl⟩

end

/-! ## Rewriting -/

/-- One rewriting step, anywhere in a pattern. -/
inductive Step : List (Wild α) → List (Wild α) → Prop
  | manyMany (pre suf : List (Wild α)) : Step (pre ++ many :: many :: suf) (pre ++ many :: suf)
  | manyOne (pre suf : List (Wild α)) :
      Step (pre ++ many :: one :: suf) (pre ++ one :: many :: suf)

/-- A pattern that no step applies to. -/
def Normal (ps : List (Wild α)) : Prop := ∀ qs, ¬ Step ps qs

section

variable {v : α → Bool} {p : Wild α} {ps qs : List (Wild α)}

theorem many_mul_many : words v many * words v many = words v many := by
  ext l
  rw [Language.mem_mul]
  constructor
  · rintro ⟨b, hb, t, ht, rfl⟩ a ha
    rcases List.mem_append.mp ha with ha | ha
    · exact hb a ha
    · exact ht a ha
  · intro h
    exact ⟨l, h, [], by simp, List.append_nil l⟩

/-- Both sides are the words of at least one letter. -/
theorem many_mul_one : words v many * words v one = words v one * words v many := by
  ext l
  have hleft : l ∈ words v many * words v one ↔ l ≠ [] ∧ ∀ a ∈ l, v a = false := by
    rw [Language.mem_mul]
    constructor
    · rintro ⟨b, hb, t, ⟨c, hc, rfl⟩, rfl⟩
      refine ⟨by simp, fun a ha => ?_⟩
      rcases List.mem_append.mp ha with ha | ha
      · exact hb a ha
      · exact List.mem_singleton.mp ha ▸ hc
    · rintro ⟨hne, hall⟩
      -- the last letter is the one `one` stands for
      exact ⟨l.dropLast, fun a ha => hall a (List.mem_of_mem_dropLast ha), [l.getLast hne],
        ⟨_, hall _ (List.getLast_mem hne), rfl⟩, List.dropLast_append_getLast hne⟩
  have hright : l ∈ words v one * words v many ↔ l ≠ [] ∧ ∀ a ∈ l, v a = false := by
    rw [Language.mem_mul]
    cases l with
    | nil => simp
    | cons a l =>
        constructor
        · rintro ⟨b, ⟨c, hc, rfl⟩, t, ht, h⟩
          cases h
          exact ⟨by simp, List.forall_mem_cons.mpr ⟨hc, ht⟩⟩
        · rintro ⟨-, hall⟩
          obtain ⟨ha, hl⟩ := List.forall_mem_cons.mp hall
          exact ⟨[a], ⟨a, ha, rfl⟩, l, hl, rfl⟩
  rw [hleft, hright]

theorem Step.langExcept_eq (h : Step ps qs) : langExcept v ps = langExcept v qs := by
  cases h with
  | manyMany pre suf =>
      have hsuf : langExcept v (many :: many :: suf) = langExcept v (many :: suf) := by
        calc langExcept v (many :: many :: suf)
            = words v many * (words v many * langExcept v suf) := by
              rw [langExcept_cons, langExcept_cons]
          _ = words v many * langExcept v suf := by rw [← mul_assoc, many_mul_many]
          _ = langExcept v (many :: suf) := by rw [langExcept_cons]
      rw [langExcept_append, langExcept_append, hsuf]
  | manyOne pre suf =>
      have hsuf : langExcept v (many :: one :: suf) = langExcept v (one :: many :: suf) := by
        calc langExcept v (many :: one :: suf)
            = words v many * (words v one * langExcept v suf) := by
              rw [langExcept_cons, langExcept_cons]
          _ = words v one * (words v many * langExcept v suf) := by
              rw [← mul_assoc, many_mul_one, mul_assoc]
          _ = langExcept v (one :: many :: suf) := by rw [langExcept_cons, langExcept_cons]
      rw [langExcept_append, langExcept_append, hsuf]

/-- Rewriting does not change what a pattern stands for. -/
theorem langExcept_eq_of_steps (h : Relation.ReflTransGen Step ps qs) :
    langExcept v ps = langExcept v qs := by
  induction h with
  | refl => rfl
  | tail _ hstep ih => exact ih.trans hstep.langExcept_eq

/-! ### The normal form -/

/-- Put a symbol in front of a pattern in normal form: `many` moves behind the `one`s that
come next, and is lost in another `many`. -/
def push : Wild α → List (Wild α) → List (Wild α)
  | many, many :: ps => many :: ps
  | many, one :: ps => one :: push many ps
  | p, ps => p :: ps

/-- The normal form of a pattern. -/
def canonical : List (Wild α) → List (Wild α)
  | [] => []
  | p :: ps => push p (canonical ps)

theorem Step.cons (h : Step ps qs) : Step (p :: ps) (p :: qs) := by
  cases h with
  | manyMany pre suf => exact .manyMany (p :: pre) suf
  | manyOne pre suf => exact .manyOne (p :: pre) suf

theorem steps_cons (h : Relation.ReflTransGen Step ps qs) :
    Relation.ReflTransGen Step (p :: ps) (p :: qs) :=
  h.lift (p :: ·) fun _ _ => Step.cons

theorem steps_push (p : Wild α) (ps : List (Wild α)) :
    Relation.ReflTransGen Step (p :: ps) (push p ps) := by
  fun_induction push p ps with
  | case1 ps => exact .single (.manyMany [] ps)
  | case2 ps ih => exact .head (.manyOne [] ps) (steps_cons ih)
  | case3 p ps => exact .refl

theorem steps_canonical (ps : List (Wild α)) : Relation.ReflTransGen Step ps (canonical ps) := by
  induction ps with
  | nil => exact .refl
  | cons p ps ih => exact (steps_cons ih).trans (steps_push p _)

theorem head?_ne {w : Wild α} (h : ∀ qs, ps ≠ w :: qs) : ps.head? ≠ some w := by
  intro hw
  obtain ⟨qs, hqs⟩ := List.head?_eq_some_iff.mp hw
  exact h qs hqs

/-- A step at the front, or behind it. -/
theorem normal_cons_iff :
    Normal (p :: ps) ↔
      (p = many → ps.head? ≠ some many ∧ ps.head? ≠ some one) ∧ Normal ps := by
  constructor
  · intro h
    refine ⟨?_, fun qs hqs => h _ hqs.cons⟩
    rintro rfl
    constructor
    · refine head?_ne ?_
      rintro qs rfl
      exact h _ (.manyMany [] qs)
    · refine head?_ne ?_
      rintro qs rfl
      exact h _ (.manyOne [] qs)
  · rintro ⟨hhead, htail⟩ qs hstep
    generalize hr : p :: ps = rs at hstep
    cases hstep with
    | manyMany pre suf =>
        cases pre with
        | nil =>
            cases hr
            exact (hhead rfl).1 rfl
        | cons q pre =>
            cases hr
            exact htail _ (.manyMany pre suf)
    | manyOne pre suf =>
        cases pre with
        | nil =>
            cases hr
            exact (hhead rfl).2 rfl
        | cons q pre =>
            cases hr
            exact htail _ (.manyOne pre suf)

theorem normal_nil : Normal ([] : List (Wild α)) := by
  intro qs h
  generalize hr : ([] : List (Wild α)) = rs at h
  cases h with
  | manyMany pre suf => simp at hr
  | manyOne pre suf => simp at hr

theorem Normal.push (h : Normal ps) (p : Wild α) : Normal (push p ps) := by
  fun_induction Wild.push p ps with
  | case1 ps => exact h
  | case2 ps ih => exact normal_cons_iff.mpr ⟨by simp, ih (normal_cons_iff.mp h).2⟩
  | case3 p ps hmany hone =>
      refine normal_cons_iff.mpr ⟨?_, h⟩
      rintro rfl
      constructor
      · exact head?_ne fun qs hqs => hmany qs rfl hqs
      · exact head?_ne fun qs hqs => hone qs rfl hqs

theorem normal_canonical (ps : List (Wild α)) : Normal (canonical ps) := by
  induction ps with
  | nil => exact normal_nil
  | cons p ps ih => exact ih.push p

theorem push_one (ps : List (Wild α)) : push one ps = one :: ps := by
  cases ps <;> rfl

theorem push_many_one (ps : List (Wild α)) : push many (one :: ps) = one :: push many ps := rfl

theorem push_many_push_many (ps : List (Wild α)) :
    push many (push many ps) = push many ps := by
  induction ps with
  | nil => rfl
  | cons p ps ih =>
      cases p with
      | many => rfl
      | one =>
          show one :: push many (push many ps) = one :: push many ps
          rw [ih]
      | lit a => rfl

theorem canonical_append_congr {a b : List (Wild α)} (h : canonical a = canonical b)
    (pre : List (Wild α)) : canonical (pre ++ a) = canonical (pre ++ b) := by
  induction pre with
  | nil => exact h
  | cons p pre ih =>
      show push p (canonical (pre ++ a)) = push p (canonical (pre ++ b))
      rw [ih]

/-- A step does not change the normal form. -/
theorem Step.canonical_eq (h : Step ps qs) : canonical ps = canonical qs := by
  cases h with
  | manyMany pre suf =>
      have hmany : canonical (many :: many :: suf) = canonical (many :: suf) :=
        push_many_push_many (canonical suf)
      exact canonical_append_congr hmany pre
  | manyOne pre suf =>
      have hone : canonical (many :: one :: suf) = canonical (one :: many :: suf) := by
        simp only [canonical, push_one, push_many_one]
      exact canonical_append_congr hone pre

theorem canonical_eq_of_steps (h : Relation.ReflTransGen Step ps qs) :
    canonical ps = canonical qs := by
  induction h with
  | refl => rfl
  | tail _ hstep ih => exact ih.trans hstep.canonical_eq

theorem Normal.eq_of_steps (h : Normal ps) (hsteps : Relation.ReflTransGen Step ps qs) :
    ps = qs := by
  rcases hsteps.cases_head with heq | ⟨rs, hstep, -⟩
  · exact heq
  · exact absurd hstep (h rs)

/-- **Every pattern has exactly one normal form.** -/
theorem normalForm_iff :
    Relation.ReflTransGen Step ps qs ∧ Normal qs ↔ qs = canonical ps := by
  constructor
  · rintro ⟨hsteps, hnormal⟩
    rw [canonical_eq_of_steps hsteps]
    exact hnormal.eq_of_steps (steps_canonical qs)
  · rintro rfl
    exact ⟨steps_canonical ps, normal_canonical ps⟩

end

end Wild
