import ZenohRedb.Lib.Faults
import Mathlib.Logic.Hydra

set_option autoImplicit false

/-! # Every operation can be completed

The clients of `Lib/Faults.lean`, seen from the side of liveness. The only call that has to wait
is `beginWrite`, and it waits for a client that holds the write transaction. An operation that
keeps the discipline begins no second transaction, so the holder itself never waits: no state is
a deadlock (`Live.waits`).

Every call takes an operation one step down its program. So there is no infinite run without new
invocations (`acc_goes`), and when no client can go on all of them have returned, each from the
operation it was running (`Ended`).
-/

namespace TxStore

/-- What may be left of a program after its next step; `none` is a program that has returned. -/
inductive Prog.Left {τ κ β ε α : Type} :
    Option (Prog τ κ β ε α) → Option (Prog τ κ β ε α) → Prop
  | call (c : Cmd τ κ β) (k : Except (Failure τ ε) c.Ret → Prog τ κ β ε α)
      (r : Except (Failure τ ε) c.Ret) : Left (some (k r)) (some (.call c k))
  | ret (a : α) : Left none (some (.ret a))

theorem Prog.left_wf {τ κ β ε α : Type} : WellFounded (@Prog.Left τ κ β ε α) := by
  have hnone : Acc Prog.Left (none : Option (Prog τ κ β ε α)) := ⟨_, fun _ h => by cases h⟩
  refine ⟨fun p => ?_⟩
  cases p with
  | none => exact hnone
  | some p =>
      induction p with
      | ret a =>
          refine ⟨_, fun q h => ?_⟩
          cases h
          exact hnone
      | call c k ih =>
          refine ⟨_, fun q h => ?_⟩
          cases h with
          | call _ _ r => exact ih r

/-- The moves of running operations: a call, which may fail, or the return. -/
def FMove.continues {ι ω ε : Type} : FMove ι ω ε → Bool
  | .move (.invoke _ _) => false
  | _ => true

namespace FSys

section Defs

variable {ι ω τ κ β ε α : Type} [DecidableEq ι] [DecidableEq τ] [Ord κ] [Std.TransOrd κ]

/-- One move of a running operation leads from `s` to `s'`. -/
def Goes (body : ω → Prog τ κ β ε α) (s s' : FSys ι ω τ κ β ε α) : Prop :=
  ∃ m, m.continues = true ∧ s.next body m = some s'

/-- Client `i` can make its next call, or return. -/
def CanGo (body : ω → Prog τ κ β ε α) (s : FSys ι ω τ κ β ε α) (i : ι) : Prop :=
  (s.next body (.move (.call i))).isSome ∨ (s.next body (.move (.ret i))).isSome

end Defs

/-- What has happened to the operations that were running in `s`, when `s'` has been reached
without a new invocation: those that run no more have returned, each of them once. -/
structure Ended {ι ω τ κ β ε α : Type} [Ord κ] (s s' : FSys ι ω τ κ β ε α)
    (outcomes : List (Outcome ι ω α)) : Prop where
  returned : s'.returned = s.returned ++ outcomes
  once : (outcomes.map Outcome.client).Nodup
  idle : ∀ d ∈ outcomes, s'.procs d.client = none
  operations : ∀ i o, (∃ p, s.procs i = some p ∧ p.op = o) ↔
    (∃ p, s'.procs i = some p ∧ p.op = o) ∨ ∃ d ∈ outcomes, d.client = i ∧ d.op = o

/-- What every move keeps, besides `Sound`: an operation without a transaction is at its
beginning, the holder of the write transaction runs an operation with a transaction, and finitely
many clients run one. -/
structure Live {ι ω τ κ β ε α : Type} [Ord κ] (body : ω → Prog τ κ β ε α)
    (s : FSys ι ω τ κ β ε α) : Prop where
  fresh : ∀ i p, s.procs i = some p → p.txn = .idle → p.failed = false → p.rest = body p.op
  holder : ∀ i, s.writer = some i → ∃ p, s.procs i = some p ∧ p.txn ≠ .idle
  finite : {i | s.procs i ≠ none}.Finite

section Frame

variable {ι ω τ κ β ε α : Type} [Ord κ] {body : ω → Prog τ κ β ε α}
  {s s' s'' : FSys ι ω τ κ β ε α}

theorem live_init (db : Store τ κ β) : (init db : FSys ι ω τ κ β ε α).Live body where
  fresh _ _ h := by cases h
  holder _ h := by cases h
  finite := by
    refine Set.finite_empty.subset fun i hi => ?_
    exact hi rfl

/-- A move of client `i` to `p'`. It may take the write transaction if `p'` has a transaction. -/
theorem Live.update [DecidableEq ι] (h : s.Live body) {i : ι} {p' : Option (FProc ω τ κ β ε α)}
    (hprocs : s'.procs = Function.update s.procs i p')
    (hfresh : ∀ p, p' = some p → p.txn = .idle → p.failed = false → p.rest = body p.op)
    (hself : s'.writer = some i → ∃ p, p' = some p ∧ p.txn ≠ .idle)
    (hothers : ∀ j ≠ i, s'.writer = some j → s.writer = some j) : s'.Live body where
  fresh j p hj := by
    by_cases hij : j = i
    · rw [hij, hprocs, Function.update_self] at hj
      exact hfresh p hj
    · rw [hprocs, Function.update_of_ne hij] at hj
      exact h.fresh j p hj
  holder j hj := by
    by_cases hij : j = i
    · rw [hij] at hj ⊢
      rw [hprocs, Function.update_self]
      exact hself hj
    · rw [hprocs, Function.update_of_ne hij]
      exact h.holder j (hothers j hij hj)
  finite := by
    refine (h.finite.insert i).subset fun j hj => ?_
    by_cases hij : j = i
    · exact Or.inl hij
    · rw [Set.mem_ofPred_eq, hprocs, Function.update_of_ne hij] at hj
      exact Or.inr hj

theorem Ended.refl (s : FSys ι ω τ κ β ε α) : Ended s s [] where
  returned := (List.append_nil _).symm
  once := List.nodup_nil
  idle _ h := absurd h List.not_mem_nil
  operations i o := by
    refine ⟨Or.inl, fun h => h.resolve_right ?_⟩
    rintro ⟨_, h, _⟩
    cases h

/-- A move to the same operations. -/
theorem Ended.keep {outcomes : List (Outcome ι ω α)} (h : Ended s s' outcomes)
    (hreturned : s''.returned = s'.returned)
    (hops : ∀ i, (s''.procs i).map FProc.op = (s'.procs i).map FProc.op) :
    Ended s s'' outcomes where
  returned := by rw [hreturned, h.returned]
  once := h.once
  idle d hd := by
    have hmap := hops d.client
    rw [h.idle d hd] at hmap
    exact Option.map_eq_none_iff.mp hmap
  operations i o := by
    have hrunning : (∃ p, s''.procs i = some p ∧ p.op = o) ↔
        ∃ p, s'.procs i = some p ∧ p.op = o := by
      rw [← Option.map_eq_some_iff, ← Option.map_eq_some_iff, hops i]
    rw [h.operations i o, hrunning]

/-- A client that was running returns. -/
theorem Ended.ret [DecidableEq ι] {outcomes : List (Outcome ι ω α)} (h : Ended s s' outcomes)
    {i : ι} {p : FProc ω τ κ β ε α} (hi : s'.procs i = some p) {d : Outcome ι ω α}
    (hclient : d.client = i)
    (hop : d.op = p.op) (hreturned : s''.returned = s'.returned ++ [d])
    (hprocs : s''.procs = Function.update s'.procs i none) : Ended s s'' (outcomes ++ [d]) where
  returned := by rw [hreturned, h.returned, List.append_assoc]
  once := by
    rw [List.map_append, List.nodup_append]
    refine ⟨h.once, List.nodup_singleton _, ?_⟩
    intro j hj j' hj' heq
    obtain ⟨d', hd', rfl⟩ := List.mem_map.mp hj
    obtain rfl := List.mem_singleton.mp hj'
    have hnone := h.idle d' hd'
    rw [heq, hclient, hi] at hnone
    cases hnone
  idle d' hd' := by
    rw [hprocs]
    by_cases hij : d'.client = i
    · rw [hij, Function.update_self]
    · rw [Function.update_of_ne hij]
      rcases List.mem_append.mp hd' with hd' | hd'
      · exact h.idle d' hd'
      · obtain rfl := List.mem_singleton.mp hd'
        exact absurd hclient hij
  operations j o := by
    rw [h.operations j o, hprocs]
    by_cases hij : j = i
    · subst hij
      rw [Function.update_self, hi]
      constructor
      · rintro (⟨_, ⟨⟩, ho⟩ | ⟨d', hd', hd⟩)
        · exact Or.inr ⟨d, List.mem_append_right _ (List.mem_singleton.mpr rfl), hclient,
            hop.trans ho⟩
        · exact Or.inr ⟨d', List.mem_append_left _ hd', hd⟩
      · rintro (⟨_, ⟨⟩, -⟩ | ⟨d', hd', hd⟩)
        rcases List.mem_append.mp hd' with hd' | hd'
        · exact Or.inr ⟨d', hd', hd⟩
        · obtain rfl := List.mem_singleton.mp hd'
          exact Or.inl ⟨p, rfl, hop.symm.trans hd.2⟩
    · rw [Function.update_of_ne hij]
      refine or_congr_right ?_
      constructor
      · rintro ⟨d', hd', hd⟩
        exact ⟨d', List.mem_append_left _ hd', hd⟩
      · rintro ⟨d', hd', hd⟩
        rcases List.mem_append.mp hd' with hd' | hd'
        · exact ⟨d', hd', hd⟩
        · obtain rfl := List.mem_singleton.mp hd'
          exact absurd (hd.1.symm.trans hclient) hij

end Frame

section Moves

variable {ι ω τ κ β ε α : Type} [DecidableEq ι] [DecidableEq τ] [Ord κ] [Std.TransOrd κ]
  {body : ω → Prog τ κ β ε α} {Q : ω → α → Phase → Prop} {db : Store τ κ β}
  {s s' s'' : FSys ι ω τ κ β ε α}

/-! ## No infinite run -/

/-- A move of a running operation takes it one step down its program, and leaves the others
where they are. -/
theorem Goes.left (h : s.Goes body s') : ∃ i, s.procs i ≠ none ∧
    Prog.Left ((s'.procs i).map FProc.rest) ((s.procs i).map FProc.rest) ∧
      ∀ j ≠ i, s'.procs j = s.procs j := by
  obtain ⟨m, hcont, hm⟩ := h
  have hstep : ∀ {i : ι} {p : FProc ω τ κ β ε α} {p' : Option (FProc ω τ κ β ε α)},
      s.procs i = some p → s'.procs = Function.update s.procs i p' →
      Prog.Left (p'.map FProc.rest) (some p.rest) → ∃ i, s.procs i ≠ none ∧
        Prog.Left ((s'.procs i).map FProc.rest) ((s.procs i).map FProc.rest) ∧
          ∀ j ≠ i, s'.procs j = s.procs j := by
    intro i p p' hi hs' hleft
    refine ⟨i, ?_, ?_, ?_⟩
    · rw [hi]
      exact nofun
    · rw [hs', hi, Function.update_self]
      exact hleft
    · intro j hj
      rw [hs', Function.update_of_ne hj]
  rcases next_cases hm with ⟨i, o, rfl, -, -⟩ | ⟨i, o, c, k, txn, failed, -, hi, -, rfl⟩ |
    ⟨i, o, a, txn, failed, -, hi, rfl⟩ | ⟨i, e, o, c, k, txn, failed, -, hi, rfl⟩
  · cases hcont
  · exact hstep hi rfl (.call c k _)
  · exact hstep hi rfl (.ret a)
  · exact hstep hi rfl (.call c k _)

/-- What is left of the operations of the clients in `F`. -/
def lefts (F : Finset ι) (s : FSys ι ω τ κ β ε α) : Multiset (Option (Prog τ κ β ε α)) :=
  F.val.map fun i => (s.procs i).map FProc.rest

theorem Goes.lefts {F : Finset ι} (hF : ∀ i, s.procs i ≠ none → i ∈ F) (h : s.Goes body s') :
    Relation.CutExpand Prog.Left (s'.lefts F) (s.lefts F) := by
  obtain ⟨i, hi, hleft, hothers⟩ := h.left
  have hsplit : F.val = {i} + (F.erase i).val := by
    rw [Finset.erase_val, Multiset.singleton_add, Multiset.cons_erase (hF i hi)]
  have hrest : ((F.erase i).val.map fun j => (s'.procs j).map FProc.rest)
      = (F.erase i).val.map fun j => (s.procs j).map FProc.rest := by
    refine Multiset.map_congr rfl fun j hj => ?_
    rw [hothers j (Finset.ne_of_mem_erase hj)]
  unfold FSys.lefts
  rw [hsplit, Multiset.map_add, Multiset.map_add, hrest, Multiset.map_singleton,
    Multiset.map_singleton]
  exact Relation.cutExpand_single_add hleft _

/-- **Termination.** From a state with finitely many running operations there is no infinite run
without an invocation: each move replaces what is left of one operation by something that is
left of it. -/
theorem acc_goes (hfin : {i | s.procs i ≠ none}.Finite) :
    Acc (fun s' s => s.Goes body s') s := by
  suffices hacc : ∀ (F : Finset ι) M, Acc (Relation.CutExpand Prog.Left) M →
      ∀ s : FSys ι ω τ κ β ε α, (∀ i, s.procs i ≠ none → i ∈ F) → s.lefts F = M →
        Acc (fun s' s => s.Goes body s') s from
    hacc hfin.toFinset _ (Prog.left_wf.cutExpand.apply _) s
      (fun i hi => hfin.mem_toFinset.mpr hi) rfl
  intro F M hM
  induction hM with
  | intro M _ ih =>
      intro s hF hs
      refine ⟨_, fun s' hgo => ih _ ?_ s' ?_ rfl⟩
      · rw [← hs]
        exact hgo.lefts hF
      · intro j hj
        obtain ⟨i, hi, -, hothers⟩ := hgo.left
        by_cases hij : j = i
        · rw [hij]
          exact hF i hi
        · rw [hothers j hij] at hj
          exact hF j hj

theorem not_goes_forever (hfin : {i | s.procs i ≠ none}.Finite) (f : ℕ → FSys ι ω τ κ β ε α)
    (h0 : f 0 = s) : ¬ ∀ n, (f n).Goes body (f (n + 1)) := by
  have hacc : Acc (fun s' s => Goes body s s') s := acc_goes hfin
  induction hacc generalizing f with
  | intro s _ ih =>
      intro hgo
      have hfirst : s.Goes body (f 1) := by
        rw [← h0]
        exact hgo 0
      have hfin' : {i | (f 1).procs i ≠ none}.Finite := by
        obtain ⟨i, hi, -, hothers⟩ := hfirst.left
        refine hfin.subset fun j hj => ?_
        by_cases hij : j = i
        · rw [hij]
          exact hi
        · rw [Set.mem_ofPred_eq, hothers j hij] at hj
          exact hj
      exact ih (f 1) hfirst hfin' (fun n => f (n + 1)) rfl fun n => hgo (n + 1)

/-! ## Who waits -/

omit [DecidableEq ι] in
/-- An allowed call leaves its client inside a transaction, or behind it. -/
theorem perform_ne_idle {φ : Phase} {c : Cmd τ κ β} (hφ : φ.Allows c) (db : Store τ κ β)
    {txn : Txn τ κ β} (ht : φ.Holds txn) : (perform (ε := ε) c db txn).2.2 ≠ .idle := by
  cases φ with
  | idle =>
      cases c with
      | beginRead => exact nofun
      | beginWrite => exact nofun
      | _ => exact hφ.elim
  | reading =>
      obtain ⟨snap, rfl⟩ := ht
      rw [perform_read hφ snap db db]
      exact nofun
  | writing =>
      obtain ⟨w, rfl⟩ := ht
      cases c with
      | beginRead => exact hφ.elim
      | beginWrite => exact hφ.elim
      | _ => exact nofun
  | committed => exact hφ.elim
  | failed => exact hφ.elim

theorem Live.next (hsound : s.Sound Q) (h : s.Live body) {m : FMove ι ω ε}
    (hm : s.next body m = some s') : s'.Live body := by
  rcases next_cases hm with ⟨i, o, -, hi, rfl⟩ | ⟨i, o, c, k, txn, failed, -, hi, -, rfl⟩ |
    ⟨i, o, a, txn, failed, -, hi, rfl⟩ | ⟨i, e, o, c, k, txn, failed, -, hi, rfl⟩
  · refine h.update rfl ?_ (fun hw => absurd hw (hsound.idle i hi)) fun _ _ hw => hw
    rintro _ ⟨⟩ - -
    rfl
  · obtain ⟨-, -, φ, hallows, hholds, -⟩ := hsound.calling hi
    have htxn : (perform (ε := ε) c s.db txn).2.2 ≠ .idle := perform_ne_idle hallows s.db hholds
    refine h.update rfl ?_ (fun _ => ⟨_, rfl, htxn⟩) ?_
    · rintro _ ⟨⟩ hidle -
      exact absurd hidle htxn
    · intro j hj hw
      change c.writerAfter i s.writer = some j at hw
      cases c with
      | beginWrite => exact absurd (Option.some.inj hw).symm hj
      | commit => exact ((writer_release s.writer i j).mp hw).1
      | _ => exact hw
  · refine h.update rfl nofun ?_ ?_
    · intro hw
      exact absurd rfl ((writer_release s.writer i i).mp hw).2
    · intro j _ hw
      exact ((writer_release s.writer i j).mp hw).1
  · refine h.update rfl ?_ ?_ ?_
    · rintro _ ⟨⟩ - hfailed
      cases hfailed
    · intro hw
      refine ⟨_, rfl, ?_⟩
      change c.writerFault i s.writer = some i at hw
      cases c with
      | commit => exact nofun
      | _ =>
          -- it had the write transaction before, and keeps it
          obtain ⟨p, hp, htxn⟩ := h.holder i hw
          rw [hi] at hp
          cases hp
          exact htxn
    · intro j _ hw
      change c.writerFault i s.writer = some j at hw
      cases c with
      | commit => exact ((writer_release s.writer i j).mp hw).1
      | _ => exact hw

/-- A client that runs an operation can go on, unless that is at a `beginWrite` while the write
transaction is taken. -/
theorem canGo_or_waits {i : ι} {p : FProc ω τ κ β ε α} (hi : s.procs i = some p) :
    s.CanGo body i ∨ (∃ k, p.rest = .call .beginWrite k) ∧ s.writer.isSome := by
  obtain ⟨o, rest, txn, failed⟩ := p
  cases rest with
  | ret a =>
      refine Or.inl (Or.inr ?_)
      simp only [FSys.next, hi, Option.isSome_some]
  | call c k =>
      cases hwait : c.waits s.writer with
      | false =>
          refine Or.inl (Or.inl ?_)
          simp only [FSys.next, hi, hwait, Bool.false_eq_true, if_false, Option.isSome_some]
      | true =>
          cases c with
          | beginWrite => exact Or.inr ⟨⟨k, rfl⟩, hwait⟩
          | _ => cases hwait

/-- **Who waits.** A running operation that cannot go on has not begun yet and is about to write,
and another client holds the write transaction, which can go on. -/
theorem Live.waits (hsound : s.Sound Q) (h : s.Live body) {i : ι} {p : FProc ω τ κ β ε α}
    (hi : s.procs i = some p) (hstuck : ¬ s.CanGo body i) :
    p.rest = body p.op ∧ (body p.op).point = .commit ∧
      ∃ j ≠ i, s.writer = some j ∧ s.CanGo body j := by
  have hidle : ∀ {j : ι} {q : FProc ω τ κ β ε α} {k}, s.procs j = some q →
      q.rest = .call .beginWrite k → q.txn = .idle ∧ q.failed = false := by
    rintro j ⟨o, _, txn, failed⟩ k hj rfl
    obtain ⟨hfailed, -, φ, hallows, hholds, -⟩ := hsound.calling hj
    cases φ with
    | idle => exact ⟨hholds, hfailed⟩
    | _ => exact hallows.elim
  obtain ⟨⟨k, hrest⟩, hsome⟩ := (canGo_or_waits hi).resolve_left hstuck
  obtain ⟨htxn, hfailed⟩ := hidle hi hrest
  have hfresh : p.rest = body p.op := h.fresh i p hi htxn hfailed
  refine ⟨hfresh, ?_, ?_⟩
  · rw [← hfresh, hrest]
    rfl
  · obtain ⟨j, hj⟩ := Option.isSome_iff_exists.mp hsome
    obtain ⟨q, hq, hopen⟩ := h.holder j hj
    refine ⟨j, ?_, hj, ?_⟩
    · rintro rfl
      rw [hi] at hq
      cases hq
      exact hopen htxn
    · refine (canGo_or_waits hq).resolve_right ?_
      rintro ⟨⟨k', hrest'⟩, -⟩
      exact hopen (hidle hq hrest').1

/-! ## How a run ends -/

theorem Ended.goes {outcomes : List (Outcome ι ω α)} (h : Ended s s' outcomes)
    (hgo : s'.Goes body s'') : ∃ outcomes', Ended s s'' outcomes' := by
  obtain ⟨m, hcont, hm⟩ := hgo
  have hsame : ∀ {i : ι} {p p' : FProc ω τ κ β ε α}, s'.procs i = some p → p'.op = p.op → ∀ j,
      (Function.update s'.procs i (some p') j).map FProc.op = (s'.procs j).map FProc.op := by
    intro i p p' hi hop j
    by_cases hij : j = i
    · rw [hij, Function.update_self, hi, Option.map_some, Option.map_some, hop]
    · rw [Function.update_of_ne hij]
  rcases next_cases hm with ⟨i, o, rfl, -, -⟩ | ⟨i, o, c, k, txn, failed, -, hi, -, rfl⟩ |
    ⟨i, o, a, txn, failed, -, hi, rfl⟩ | ⟨i, e, o, c, k, txn, failed, -, hi, rfl⟩
  · cases hcont
  · exact ⟨_, h.keep rfl (hsame hi rfl)⟩
  · exact ⟨_, h.ret (d := ⟨i, o, a, failed⟩) hi rfl rfl rfl rfl⟩
  · exact ⟨_, h.keep rfl (hsame hi rfl)⟩

theorem Ended.run {outcomes : List (Outcome ι ω α)} (h : Ended s s' outcomes)
    {ms : List (FMove ι ω ε)} (hms : ∀ m ∈ ms, m.continues = true)
    (hrun : s'.run body ms = some s'') : ∃ outcomes', Ended s s'' outcomes' := by
  induction ms generalizing s' outcomes with
  | nil =>
      cases hrun
      exact ⟨_, h⟩
  | cons m ms ih =>
      obtain ⟨s₁, hm, hrest⟩ := Option.bind_eq_some_iff.mp hrun
      obtain ⟨outcomes₁, h₁⟩ := h.goes ⟨m, hms m List.mem_cons_self, hm⟩
      exact ih h₁ (fun m' hm' => hms m' (List.mem_cons_of_mem m hm')) hrest

theorem Reaches.live (hbody : ∀ o, (body o).Obeys (Q o) .idle) {ms : List (FMove ι ω ε)}
    (h : Reaches body db ms s) : s.Sound Q ∧ s.Live body := by
  induction h with
  | init => exact ⟨sound_init db, live_init db⟩
  | next m _ hm ih => exact ⟨ih.1.next hbody hm, ih.2.next ih.1 hm⟩

/-- **Progress.** In every state that is reached, an operation that cannot go on waits to write
for another client, which can; there is no infinite run without new invocations; and when no
client can go on all the operations have returned. -/
theorem Reaches.progress (hbody : ∀ o, (body o).Obeys (Q o) .idle) {ms : List (FMove ι ω ε)}
    (h : Reaches body db ms s) :
    (∀ i p, s.procs i = some p → ¬ s.CanGo body i → (body p.op).point = .commit ∧
      ∃ j ≠ i, s.writer = some j ∧ s.CanGo body j) ∧
    (∀ f : ℕ → FSys ι ω τ κ β ε α, f 0 = s → ¬ ∀ n, (f n).Goes body (f (n + 1))) ∧
    ∀ ms' s', (∀ m ∈ ms', m.continues = true) → s.run body ms' = some s' →
      (∀ i, ¬ s'.CanGo body i) → (∀ i, s'.procs i = none) ∧ ∃ outcomes, Ended s s' outcomes := by
  obtain ⟨hsound, hlive⟩ := h.live hbody
  refine ⟨fun i p hi hstuck => (hlive.waits hsound hi hstuck).2, ?_, ?_⟩
  · intro f h0
    exact not_goes_forever hlive.finite f h0
  · intro ms' s' hcont hrun hstuck
    obtain ⟨hsound', hlive'⟩ := (h.run hrun).live hbody
    refine ⟨fun i => ?_, (Ended.refl s).run hcont hrun⟩
    cases hi : s'.procs i with
    | none => rfl
    | some p =>
        obtain ⟨-, -, j, -, -, hgo⟩ := hlive'.waits hsound' hi (hstuck i)
        exact absurd hgo (hstuck j)

end Moves

end FSys

end TxStore
