import Mathlib.Data.List.Basic

set_option autoImplicit false

/-! # Runs of deterministic systems

A system is a step function `step : σ → α → ρ × σ`: in a state, an action gives a result and
the next state. A run (`Runs.run`) collects the results of a list of actions.

What holds of whole runs is proved from single steps by seven rules: an invariant
(`run_inv`), what one of the actions establishes and the others keep (`run_reached`), an
invariant that mentions what the results so far add up to (`run_fold`), a
property of all results (`run_results`), a simulation (`run_sim`), in which the results of two
systems agree after each is looked at in its own way, noninterference (`run_filter`), in
which a part of the actions is left out, and refinement (`run_effects`), in which an action of
one system stands for some actions of the other, or for none.
-/

namespace Runs

variable {σ σ' α α' ρ ρ' γ : Type}

/-- Do the actions of a list in order: the results and the last state. -/
def run (step : σ → α → ρ × σ) (s : σ) : List α → List ρ × σ
  | [] => ([], s)
  | a :: as => ((step s a).1 :: (run step (step s a).2 as).1, (run step (step s a).2 as).2)

section Equations

variable (step : σ → α → ρ × σ) (s : σ)

@[simp] theorem run_cons (a : α) (as : List α) :
    run step s (a :: as)
      = ((step s a).1 :: (run step (step s a).2 as).1, (run step (step s a).2 as).2) := rfl

/-- After some actions, the others go on. -/
theorem run_append (as bs : List α) :
    (run step s (as ++ bs)).2 = (run step (run step s as).2 bs).2 := by
  induction as generalizing s with
  | nil => rfl
  | cons a as ih => exact ih (step s a).2

theorem results_append (as bs : List α) :
    (run step s (as ++ bs)).1 = (run step s as).1 ++ (run step (run step s as).2 bs).1 := by
  induction as generalizing s with
  | nil => rfl
  | cons a as ih =>
      have hrest := ih (step s a).2
      rw [List.cons_append, run_cons, run_cons, List.cons_append, hrest]

/-- A result of a run is that of an action in the state which the actions before it have
reached. -/
theorem run_split {as : List α} {before after : List ρ} {r : ρ}
    (h : (run step s as).1 = before ++ r :: after) :
    ∃ as₁ a as₂, as = as₁ ++ a :: as₂ ∧ (run step s as₁).1 = before ∧
      r = (step (run step s as₁).2 a).1 := by
  induction as generalizing s before with
  | nil => exact absurd h.symm (List.append_ne_nil_of_right_ne_nil _ (List.cons_ne_nil _ _))
  | cons a as ih =>
      rw [run_cons] at h
      cases before with
      | nil => exact ⟨[], a, as, rfl, rfl, (List.cons.inj h).1.symm⟩
      | cons r' before =>
          obtain ⟨hr, hrest⟩ := List.cons.inj h
          obtain ⟨as₁, a', as₂, rfl, hbefore, hresult⟩ := ih _ hrest
          refine ⟨a :: as₁, a', as₂, rfl, ?_, hresult⟩
          rw [run_cons, hr, hbefore]

end Equations

/-- **Invariants.** What every action of the run preserves holds at its end. -/
theorem run_inv {step : σ → α → ρ × σ} (P : σ → Prop) {as : List α}
    (hstep : ∀ s, ∀ a ∈ as, P s → P (step s a).2) {s : σ} (hs : P s) : P (run step s as).2 := by
  induction as generalizing s with
  | nil => exact hs
  | cons a as ih =>
      have hs' : P (step s a).2 := hstep s a (by simp) hs
      exact ih (fun s b hb => hstep s b (by simp [hb])) hs'

/-- **What one action reaches.** Let an action that has the result `r` establish `Q` in the states
of an invariant, and let every action of the run keep `Q`. If that action with that result is one
of the run, `Q` holds at its end. -/
theorem run_reached {step : σ → α → ρ × σ} (P Q : σ → Prop) {as : List α} {a : α} {r : ρ}
    (hP : ∀ s, ∀ b ∈ as, P s → P (step s b).2) (hQ : ∀ s, ∀ b ∈ as, Q s → Q (step s b).2)
    (hest : ∀ s, P s → (step s a).1 = r → Q (step s a).2) {s : σ} (hs : P s)
    (h : (a, r) ∈ as.zip (run step s as).1) : Q (run step s as).2 := by
  induction as generalizing s with
  | nil => cases h
  | cons b as ih =>
      have hs' : P (step s b).2 := hP s b (by simp) hs
      rw [run_cons, List.zip_cons_cons, List.mem_cons] at h
      rcases h with hfirst | hrest
      · obtain ⟨rfl, rfl⟩ := Prod.mk.inj hfirst
        have hq : Q (step s a).2 := hest s hs rfl
        show Q (run step (step s a).2 as).2
        exact run_inv Q (fun s b hb => hQ s b (by simp [hb])) hq
      · exact ih (fun s b hb => hP s b (by simp [hb])) (fun s b hb => hQ s b (by simp [hb])) hs'
          hrest

/-- **Invariants over a history.** What every action keeps, together with what is computed from
the results, holds at the end with what the results of the run add up to. -/
theorem run_fold (step : σ → α → ρ × σ) (upd : γ → ρ → γ) (P : γ → σ → Prop) {as : List α}
    (hstep : ∀ g s, ∀ a ∈ as, P g s → P (upd g (step s a).1) (step s a).2) {g : γ} {s : σ}
    (hs : P g s) : P ((run step s as).1.foldl upd g) (run step s as).2 := by
  induction as generalizing g s with
  | nil => exact hs
  | cons a as ih =>
      have hs' := hstep g s a (by simp) hs
      exact ih (fun g s b hb => hstep g s b (by simp [hb])) hs'

/-- **Results.** A property that every action has in the states of an invariant holds of every
result of a run. -/
theorem run_results {step : σ → α → ρ × σ} (P : σ → Prop) (Q : ρ → Prop) {as : List α}
    (hstep : ∀ s, ∀ a ∈ as, P s → Q (step s a).1 ∧ P (step s a).2) {s : σ} (hs : P s) :
    ∀ r ∈ (run step s as).1, Q r := by
  induction as generalizing s with
  | nil =>
      intro r hr
      cases hr
  | cons a as ih =>
      obtain ⟨hq, hs'⟩ := hstep s a (by simp) hs
      intro r hr
      rw [run_cons, List.mem_cons] at hr
      rcases hr with rfl | hr
      · exact hq
      · exact ih (fun s b hb => hstep s b (by simp [hb])) hs' r hr

/-- **Simulation.** Two systems whose steps on the actions of a list agree on the results,
looked at through `f` and `g`, and keep a relation, agree on the whole list. -/
theorem run_sim (step : σ → α → ρ × σ) (step' : σ' → α' → ρ' × σ') (R : σ → σ' → Prop)
    (f : ρ → γ) (g : ρ' → γ) (t : α → α') {as : List α}
    (hstep : ∀ s s', ∀ a ∈ as, R s s' →
      f (step s a).1 = g (step' s' (t a)).1 ∧ R (step s a).2 (step' s' (t a)).2)
    {s : σ} {s' : σ'} (hs : R s s') :
    (run step s as).1.map f = (run step' s' (as.map t)).1.map g ∧
      R (run step s as).2 (run step' s' (as.map t)).2 := by
  induction as generalizing s s' with
  | nil => exact ⟨rfl, hs⟩
  | cons a as ih =>
      obtain ⟨hr, hs'⟩ := hstep s s' a (by simp) hs
      obtain ⟨hrs, hend⟩ := ih (fun s s' b hb => hstep s s' b (by simp [hb])) hs'
      refine ⟨?_, hend⟩
      simp only [run_cons, List.map_cons, hr, hrs]

/-- What the actions of a run stand for, one after the other. -/
def effects (step : σ → α → ρ × σ) (eff : σ → α → List α') (s : σ) : List α → List α'
  | [] => []
  | a :: as => eff s a ++ effects step eff (step s a).2 as

/-- **Refinement.** Let a relation between two systems, which may mention what the second one has
returned, be kept when the first does an action and the second does what it stands for; and let
every result of the first have a property then that more results of the second do not take away.
Then all of this holds of whole runs. -/
theorem run_effects (step : σ → α → ρ × σ) (step' : σ' → α' → ρ' × σ') (eff : σ → α → List α')
    (R : List ρ' → σ → σ' → Prop) (P : List ρ' → ρ → Prop) {as : List α}
    (hstep : ∀ rs s s', ∀ a ∈ as, R rs s s' →
      R (rs ++ (run step' s' (eff s a)).1) (step s a).2 (run step' s' (eff s a)).2 ∧
        P (rs ++ (run step' s' (eff s a)).1) (step s a).1)
    (hmono : ∀ rs more r, P rs r → P (rs ++ more) r) {rs : List ρ'} {s : σ} {s' : σ'}
    (hs : R rs s s') :
    R (rs ++ (run step' s' (effects step eff s as)).1) (run step s as).2
        (run step' s' (effects step eff s as)).2 ∧
      ∀ r ∈ (run step s as).1, P (rs ++ (run step' s' (effects step eff s as)).1) r := by
  induction as generalizing rs s s' with
  | nil =>
      refine ⟨?_, fun r hr => absurd hr List.not_mem_nil⟩
      show R (rs ++ []) s s'
      rw [List.append_nil]
      exact hs
  | cons a as ih =>
      obtain ⟨hs', hfirst⟩ := hstep rs s s' a List.mem_cons_self hs
      obtain ⟨hend, hrest⟩ :=
        ih (fun rs s s' b hb => hstep rs s s' b (List.mem_cons_of_mem a hb)) hs'
      rw [List.append_assoc, ← results_append] at hend hrest
      rw [← run_append] at hend
      refine ⟨hend, fun r hr => ?_⟩
      rcases List.mem_cons.mp hr with rfl | hr
      · have hkept := hmono _ (run step' (run step' s' (eff s a)).2
          (effects step eff (step s a).2 as)).1 _ hfirst
        rw [List.append_assoc, ← results_append] at hkept
        exact hkept
      · exact hrest r hr

/-- The results of the actions that satisfy `p`. -/
def resultsOf (p : α → Bool) (as : List α) (rs : List ρ) : List ρ :=
  ((as.zip rs).filter (p ·.1)).map (·.2)

theorem resultsOf_cons (p : α → Bool) (a : α) (as : List α) (r : ρ) (rs : List ρ) :
    resultsOf p (a :: as) (r :: rs)
      = if p a then r :: resultsOf p as rs else resultsOf p as rs := by
  cases h : p a <;> simp [resultsOf, h]

/-- **Noninterference.** Let a relation be kept when both sides do an action that satisfies
`p`, with the same result, and when the left side alone does an action that does not. Then
the run without the other actions has the same results. -/
theorem run_filter (step : σ → α → ρ × σ) (step' : σ' → α → ρ × σ') (R : σ → σ' → Prop)
    (p : α → Bool) {as : List α}
    (hown : ∀ s s', ∀ a ∈ as, p a = true → R s s' →
      (step s a).1 = (step' s' a).1 ∧ R (step s a).2 (step' s' a).2)
    (hother : ∀ s s', ∀ a ∈ as, p a = false → R s s' → R (step s a).2 s')
    {s : σ} {s' : σ'} (hs : R s s') :
    resultsOf p as (run step s as).1 = (run step' s' (as.filter p)).1 ∧
      R (run step s as).2 (run step' s' (as.filter p)).2 := by
  induction as generalizing s s' with
  | nil => exact ⟨rfl, hs⟩
  | cons a as ih =>
      -- the first action is done by both sides, or by the left side alone
      have ih' : ∀ {s s'}, R s s' → _ ∧ _ := fun hR =>
        ih (fun s s' b hb => hown s s' b (by simp [hb]))
          (fun s s' b hb => hother s s' b (by simp [hb])) hR
      cases hp : p a with
      | false =>
          obtain ⟨hrs, hend⟩ := ih' (hother s s' a (by simp) hp hs)
          simp only [run_cons, resultsOf_cons, List.filter_cons, hp]
          exact ⟨hrs, hend⟩
      | true =>
          obtain ⟨hr, hs'⟩ := hown s s' a (by simp) hp hs
          obtain ⟨hrs, hend⟩ := ih' hs'
          simp only [run_cons, resultsOf_cons, List.filter_cons, hp, if_true, hr, hrs]
          exact ⟨trivial, hend⟩

end Runs
