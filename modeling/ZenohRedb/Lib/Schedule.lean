import Mathlib.Logic.Function.Basic
import Mathlib.Data.List.Induction

set_option autoImplicit false

/-! # Schedules of keyed updates

Clients have sequences of operations; a *schedule* is any interleaving of them that keeps the
order of each (`Interleaves`). The operations are *keyed updates* of a state that is
determined by what it holds under every key: each of them sets what its key holds and leaves
the other keys alone (`Updates`).

Then the state after a schedule holds under every key what the last operation with this key
put there (`Updates.view_run`). If no two clients share a key, the last operation with a key
is its owner's last one in every schedule, so all schedules end in the same state
(`Updates.run_eq`).
-/

namespace Schedule

variable {ι ω σ κ ν : Type}

/-- `l` interleaves the sequences `seqs`: for every client, its operations in `l` are its
sequence. -/
def Interleaves [DecidableEq ι] (seqs : ι → List ω) (l : List (ι × ω)) : Prop :=
  ∀ i, (l.filter (·.1 = i)).map (·.2) = seqs i

theorem Interleaves.mem [DecidableEq ι] {seqs : ι → List ω} {l : List (ι × ω)}
    (h : Interleaves seqs l) {i : ι} {o : ω} (hmem : (i, o) ∈ l) : o ∈ seqs i := by
  rw [← h i, List.mem_map]
  exact ⟨(i, o), List.mem_filter.mpr ⟨hmem, decide_eq_true rfl⟩, rfl⟩

/-- A system of keyed updates: what an operation does, its key, what a state holds under a
key, and what an operation puts there. -/
structure Updates (σ ω κ ν : Type) [DecidableEq κ] where
  step : σ → ω → σ
  key : ω → κ
  view : σ → κ → ν
  effect : ω → ν
  ext : ∀ s s', (∀ k, view s k = view s' k) → s = s'
  view_step : ∀ s o k, view (step s o) k = if key o = k then effect o else view s k

namespace Updates

variable [DecidableEq κ] (U : Updates σ ω κ ν)

/-- Do the operations of a list. -/
def run (s : σ) (l : List ω) : σ := l.foldl U.step s

/-- The last operation with key `k`. -/
def last (l : List ω) (k : κ) : Option ω := (l.filter (U.key · = k)).getLast?

/-- **The last operation wins.** -/
theorem view_run (s : σ) (l : List ω) (k : κ) :
    U.view (U.run s l) k = (U.last l k).elim (U.view s k) U.effect := by
  -- from the end of the list, where the last operation is
  induction l using List.reverseRecOn with
  | nil => rfl
  | append_singleton l o ih =>
      have hrun : U.run s (l ++ [o]) = U.step (U.run s l) o := by
        unfold run
        rw [List.foldl_append]
        rfl
      rw [hrun, U.view_step, ih]
      unfold last
      rw [List.filter_append]
      by_cases hk : U.key o = k
      · simp [hk]
      · simp [hk]

/-- The last operation with the key of `o`, when `o` is the last of them. -/
theorem last_append_cons {before after : List ω} {o : ω}
    (h : ∀ o' ∈ after, U.key o' ≠ U.key o) :
    U.last (before ++ o :: after) (U.key o) = some o := by
  have hafter : after.filter (U.key · = U.key o) = [] :=
    List.filter_eq_nil_iff.mpr fun o' ho' => by simpa using h o' ho'
  unfold last
  rw [List.filter_append, List.filter_cons, hafter]
  simp

/-- There is no last operation with a key no operation has. -/
theorem last_eq_none {l : List ω} {k : κ} (h : ∀ o ∈ l, U.key o ≠ k) : U.last l k = none := by
  have hl : l.filter (U.key · = k) = [] :=
    List.filter_eq_nil_iff.mpr fun o ho => by simpa using h o ho
  unfold last
  rw [hl]
  rfl

section Clients

variable [DecidableEq ι] {seqs : ι → List ω}

/-- No two clients share a key. -/
def Disjoint (seqs : ι → List ω) : Prop :=
  ∀ i j, i ≠ j → ∀ o ∈ seqs i, ∀ o' ∈ seqs j, U.key o ≠ U.key o'

variable {U}

/-- In any schedule, the operations with a key of client `i` are those of client `i`. -/
theorem Disjoint.filter_key (hd : U.Disjoint seqs) {l : List (ι × ω)} (hl : Interleaves seqs l)
    {i : ι} {o : ω} (ho : o ∈ seqs i) :
    (l.map (·.2)).filter (U.key · = U.key o) = (seqs i).filter (U.key · = U.key o) := by
  -- an operation with the key belongs to `i`, so it does not matter which filter comes first
  have howner : ∀ p ∈ l, U.key p.2 = U.key o → p.1 = i := by
    rintro ⟨j, o'⟩ hp hk
    by_contra hji
    exact hd j i hji o' (hl.mem hp) o ho hk
  have hsame : l.filter (fun p => decide (U.key p.2 = U.key o))
      = (l.filter (·.1 = i)).filter (fun p => decide (U.key p.2 = U.key o)) := by
    rw [List.filter_filter]
    refine List.filter_congr ?_
    intro p hp
    by_cases hk : U.key p.2 = U.key o
    · simp [hk, howner p hp hk]
    · simp [hk]
  calc (l.map (·.2)).filter (U.key · = U.key o)
      = (l.filter (fun p => decide (U.key p.2 = U.key o))).map (·.2) := List.filter_map
    _ = ((l.filter (·.1 = i)).filter (fun p => decide (U.key p.2 = U.key o))).map (·.2) := by
        rw [hsame]
    _ = ((l.filter (·.1 = i)).map (·.2)).filter (U.key · = U.key o) := by
        rw [List.filter_map]
        rfl
    _ = (seqs i).filter (U.key · = U.key o) := by rw [hl i]

/-- A key holds what its owner's last operation with it put there. -/
theorem Disjoint.view_run (hd : U.Disjoint seqs) {l : List (ι × ω)} (hl : Interleaves seqs l)
    (s : σ) {i : ι} {before after : List ω} {o : ω} (hi : seqs i = before ++ o :: after)
    (hlast : ∀ o' ∈ after, U.key o' ≠ U.key o) :
    U.view (U.run s (l.map (·.2))) (U.key o) = U.effect o := by
  have ho : o ∈ seqs i := by
    rw [hi]
    simp
  have hown : U.last (l.map (·.2)) (U.key o) = U.last (seqs i) (U.key o) := by
    unfold last
    rw [hd.filter_key hl ho]
  rw [U.view_run, hown, hi, U.last_append_cons hlast]
  rfl

/-- A key that no client touches holds what it held. -/
theorem view_run_untouched {l : List (ι × ω)} (hl : Interleaves seqs l) (s : σ) {k : κ}
    (hk : ∀ i, ∀ o ∈ seqs i, U.key o ≠ k) :
    U.view (U.run s (l.map (·.2))) k = U.view s k := by
  have hnone : ∀ o ∈ l.map (·.2), U.key o ≠ k := by
    intro o ho
    obtain ⟨⟨i, o'⟩, hp, rfl⟩ := List.mem_map.mp ho
    exact hk i o' (hl.mem hp)
  rw [U.view_run, U.last_eq_none hnone]
  rfl

/-- **The schedule does not matter.** -/
theorem Disjoint.run_eq (hd : U.Disjoint seqs) {l l' : List (ι × ω)} (hl : Interleaves seqs l)
    (hl' : Interleaves seqs l') (s : σ) : U.run s (l.map (·.2)) = U.run s (l'.map (·.2)) := by
  refine U.ext _ _ fun k => ?_
  -- a key has one owner or none
  by_cases hk : ∃ i, ∃ o ∈ seqs i, U.key o = k
  · obtain ⟨i, o, ho, rfl⟩ := hk
    rw [U.view_run, U.view_run]
    unfold last
    rw [hd.filter_key hl ho, hd.filter_key hl' ho]
  · have huntouched : ∀ i, ∀ o ∈ seqs i, U.key o ≠ k :=
      fun i o ho h => hk ⟨i, o, ho, h⟩
    rw [view_run_untouched hl s huntouched, view_run_untouched hl' s huntouched]

end Clients

end Updates

end Schedule
