import ZenohRedb.Plugin.Storage
import ZenohRedb.Storage.Queries

set_option autoImplicit false

/-! # Verbatim segments

In Zenoh's key expressions a segment that begins with `@` is verbatim: no wildcard stands for
it. `matches_parts` knows no such segments, so a wildcard query can return keys that Zenoh's
pattern does not match, the plugin's `NONE_KEY` among them. `run_verbatim_iff` says when it
does not: exactly when no key that fits the pattern has more verbatim segments than the
pattern.
-/

namespace ZenohRedb

open Wild

/-- A segment that begins with `@`. -/
def isVerbatim (s : String) : Bool := Str.startsWith s "@"

/-- A block in which no wildcard stands for a verbatim segment. -/
def VerbatimBlock (p : String) (block : List String) : Prop :=
  Block p block ∧ (p = "*" ∨ p = "**" → ∀ s ∈ block, isVerbatim s = false)

/-- The segments `ks` can be cut into such blocks, one for every segment of `ps`. -/
def FitsVerbatim (ks ps : List String) : Prop :=
  ∃ blocks : List (List String), blocks.flatten = ks ∧ List.Forall₂ VerbatimBlock ps blocks

theorem verbatimBlock_iff (p : String) (block : List String) :
    VerbatimBlock p block ↔ block ∈ words isVerbatim (segment p) := by
  unfold VerbatimBlock Block
  rcases segment_cases p with rfl | rfl | ⟨hm, ho, hp⟩
  · simp
  · simp only [segment_one, mem_words_one, String.reduceEq, if_false, if_true, true_or,
      forall_const]
    constructor
    · rintro ⟨⟨s, rfl⟩, hs⟩
      exact ⟨s, hs s (List.mem_singleton_self s), rfl⟩
    · rintro ⟨s, hs, rfl⟩
      refine ⟨⟨s, rfl⟩, fun t ht => ?_⟩
      rw [List.mem_singleton.mp ht]
      exact hs
  · rw [if_neg hm, if_neg ho, hp, mem_words_lit]
    simp [hm, ho]

theorem fitsVerbatim_iff (ks ps : List String) :
    FitsVerbatim ks ps ↔ ks ∈ langExcept isVerbatim (ps.map segment) :=
  (mem_langExcept_map_iff verbatimBlock_iff ps).symm

/-- The verbatim symbols of a pattern are its verbatim segments. -/
theorem countP_segment (ps : List String) :
    (ps.map segment).countP (verbatim isVerbatim) = ps.countP isVerbatim := by
  have hseg : verbatim isVerbatim ∘ segment = isVerbatim := by
    funext p
    show verbatim isVerbatim (segment p) = isVerbatim p
    rcases segment_cases p with rfl | rfl | ⟨-, -, hp⟩
    · decide
    · decide
    · rw [hp]
      rfl
  rw [List.countP_map, hseg]

variable {ks ps : List String}

/-- Counting decides whether wildcards have to stand for verbatim segments. -/
theorem fitsVerbatim_iff_countP (h : Fits ks ps) :
    FitsVerbatim ks ps ↔ ks.countP isVerbatim ≤ ps.countP isVerbatim := by
  rw [fitsVerbatim_iff, mem_langExcept_iff_countP isVerbatim ((fits_iff ks ps).mp h),
    countP_segment]

/-- The verbatim segments of the key stand in the pattern. -/
theorem FitsVerbatim.named (h : FitsVerbatim ks ps) {s : String} (hs : s ∈ ks)
    (hv : isVerbatim s = true) : s ∈ ps := by
  have hmem := lit_mem_of_mem ((fitsVerbatim_iff ks ps).mp h) hs hv
  obtain ⟨p, hp, heq⟩ := List.mem_map.mp hmem
  exact segment_eq_lit heq ▸ hp

namespace Session

/-- What Zenoh's rule says of a wildcard query: every key it returns can be cut without a
wildcard for a verbatim segment, and `NONE_KEY` is returned only if the pattern names it. -/
def KeepsVerbatim (z : ZExt) (s : Session) (pattern : String) : Prop :=
  ∀ l, s.answer z (.getByWildcard pattern) = .ok (.entries l) → ∀ e ∈ l,
    FitsVerbatim (Str.split e.1 '/') (Str.split pattern '/') ∧
      (e.1 = NONE_KEY → NONE_KEY ∈ Str.split pattern '/')

section

variable {z : ZExt} {s : Session} {storage : RedbStorage} {T : Tables}

/-- A wildcard query returns the live keys that fit the pattern. -/
theorem Serves.mem_getByWildcard (hs : s.Serves storage T) (hT : T.Consistent z)
    (pattern : String) :
    ∃ l, s.answer z (.getByWildcard pattern) = .ok (.entries l) ∧
      ∀ key, (∃ v, (key, v) ∈ l) ↔
        s.Live z key ∧ Fits (Str.split key '/') (Str.split pattern '/') := by
  refine ⟨_, hs.answer_getByWildcard hT pattern, fun key => ?_⟩
  rw [hs.live_iff hT, fits_iff, ← matchesParts_iff]
  simp only [List.mem_filter, Tables.mem_entries]
  exact exists_and_right

end

/-- **Verbatim segments in wildcard queries.** At the end of every run that leaves the database
open, a query keeps to Zenoh's rule exactly if every live key that fits its pattern has at most
as many segments that begin with `@` as the pattern has. -/
theorem run_verbatim_iff (z : ZExt) {disk : Disk} {path : PathBuf} (hd : disk.Fresh path)
    (buf : Bytes) (steps : List (Action × List (Option String))) {s : Session}
    (hs : s = (Runs.run (step z) (start disk path buf) steps).2) {storage : RedbStorage}
    (hstorage : s.storage = some storage) (pattern : String) :
    s.KeepsVerbatim z pattern ↔
      ∀ key, s.Live z key → Fits (Str.split key '/') (Str.split pattern '/') →
        (Str.split key '/').countP isVerbatim ≤ (Str.split pattern '/').countP isVerbatim := by
  subst hs
  obtain ⟨T, hT, hs⟩ := (run_inv z hd buf steps).serves hstorage
  obtain ⟨l, hl, hmem⟩ := hs.mem_getByWildcard hT pattern
  constructor
  · intro h key hlive hfits
    obtain ⟨v, hv⟩ := (hmem key).mpr ⟨hlive, hfits⟩
    exact (fitsVerbatim_iff_countP hfits).mp (h l hl (key, v) hv).1
  · intro h l' hl' e he
    obtain rfl : l = l' := by
      rw [hl] at hl'
      cases hl'
      rfl
    obtain ⟨hlive, hfits⟩ := (hmem e.1).mp ⟨e.2, he⟩
    have hverb := (fitsVerbatim_iff_countP hfits).mpr (h e.1 hlive hfits)
    refine ⟨hverb, fun hnone => ?_⟩
    rw [hnone] at hverb
    exact hverb.named (by decide) (by decide)

/-- A verbatim segment that the pattern names is no harm. -/
theorem run_verbatim_iff_named :
    let s := (Runs.run (step .layout) (start .blank (.ofString "s.redb") [])
      [(.reopen .new "s", []), (.call (.put "@a/b" ⟨[1], .first, ⟨0, none⟩⟩), [])]).2
    s.KeepsVerbatim .layout "@a/*" := by
  intro s
  have hinv : s.Inv .layout := run_inv .layout (Or.inl ⟨rfl, rfl⟩) [] _
  have hstorage : s.storage = some ⟨.ofString "s.redb", .new, "s"⟩ := by rfl
  refine (run_verbatim_iff .layout (Or.inl ⟨rfl, rfl⟩) [] _ (s := s) rfl hstorage "@a/*").mpr ?_
  rintro key hlive -
  obtain ⟨T, hT, hs⟩ := hinv.serves hstorage
  obtain ⟨v, hv⟩ := (hs.live_iff hT key).mp hlive
  -- the key that was put is the only live one
  have hentries : T.entries .layout = [("@a/b", ⟨[1], .first, ⟨0, none⟩⟩)] := by
    have hall : s.answer .layout .getAll
        = .ok (.entries [("@a/b", ⟨[1], .first, ⟨0, none⟩⟩)]) := by
      decide +kernel
    rw [hs.answer_getAll hT] at hall
    exact Reply.entries.inj (Except.ok.inj hall)
  have hmem := (Tables.mem_entries key v).mpr hv
  rw [hentries, List.mem_singleton] at hmem
  obtain rfl : key = "@a/b" := congrArg Prod.fst hmem
  decide

/-- The plugin's key for a missing key expression is returned by the pattern `**`. -/
theorem not_keepsVerbatim_noneKey :
    let s := (Runs.run (step .layout) (start .blank (.ofString "s.redb") [])
      [(.reopen .new "s", []), (.call (.put NONE_KEY ⟨[1], .first, ⟨0, none⟩⟩), [])]).2
    ¬ s.KeepsVerbatim .layout "**" := by
  intro s h
  have hinv : s.Inv .layout := run_inv .layout (Or.inl ⟨rfl, rfl⟩) [] _
  have hstorage : s.storage = some ⟨.ofString "s.redb", .new, "s"⟩ := by rfl
  obtain ⟨T, hT, hs⟩ := hinv.serves hstorage
  obtain ⟨l, hl, hmem⟩ := hs.mem_getByWildcard hT "**"
  have hfits : Fits (Str.split NONE_KEY '/') (Str.split "**" '/') :=
    (fits_iff _ _).mpr mem_lang_many
  obtain ⟨v, hv⟩ := (hmem NONE_KEY).mpr ⟨⟨_, by rfl⟩, hfits⟩
  exact absurd ((h l hl _ hv).2 rfl) (by decide)

end Session

end ZenohRedb
