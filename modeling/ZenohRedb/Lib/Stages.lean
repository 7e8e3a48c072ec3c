import ZenohRedb.Lib.Faults

set_option autoImplicit false

/-! # Operations take effect in one call

An operation that keeps the discipline makes its calls one after the other, and other clients
come between them. `Stage Q p₀ db p txn res` says how far an operation `p₀` is when `p` is left of
it: whether it has taken effect, with the result `res` then, and what running the rest alone would
do on the committed contents `db`.

A call either takes no effect, or it is a `beginRead` or a commit, and then the whole operation
takes effect in it, as if it were run alone on the contents of that moment (`Stage.call`). So a
system of clients that make single calls is simulated by one in which an operation is a single
step, call by call and without a look at what the other clients do: they may change the contents
unless this one has the write transaction (`Stage.frame`).
-/

namespace TxStore

section Stages

variable {τ κ β ε α : Type} [DecidableEq τ] [Ord κ] [Std.TransOrd κ]

omit [DecidableEq τ] [Ord κ] [Std.TransOrd κ] in
/-- A call that does not have to wait leaves the write transaction with another holder. -/
theorem Cmd.writerAfter_of_ne {ι : Type} [DecidableEq ι] {c : Cmd τ κ β} {writer : Option ι}
    {i j : ι} (hj : writer = some j) (hne : j ≠ i) (hwait : c.waits writer = false) :
    c.writerAfter i writer = some j := by
  cases c with
  | beginWrite =>
      rw [hj] at hwait
      cases hwait
  | commit =>
      refine (if_neg fun hi => ?_).trans hj
      exact hne (Option.some.inj (hj.symm.trans hi))
  | _ => exact hj

omit [DecidableEq τ] [Ord κ] [Std.TransOrd κ] in
/-- A client keeps the write transaction until it commits. -/
theorem Cmd.writerAfter_self {ι : Type} [DecidableEq ι] {c : Cmd τ κ β} {writer : Option ι}
    {i : ι} (hi : writer = some i) (hc : c ≠ .commit) : c.writerAfter i writer = some i := by
  cases c with
  | beginWrite => rfl
  | commit => exact absurd rfl hc
  | _ => exact hi

omit [DecidableEq τ] [Ord κ] [Std.TransOrd κ] in
/-- A call that fails leaves the write transaction with another holder. -/
theorem Cmd.writerFault_of_ne {ι : Type} [DecidableEq ι] {c : Cmd τ κ β} {writer : Option ι}
    {i j : ι} (hj : writer = some j) (hne : j ≠ i) : c.writerFault i writer = some j := by
  cases c with
  | commit =>
      refine (if_neg fun hi => ?_).trans hj
      exact hne (Option.some.inj (hj.symm.trans hi))
  | _ => exact hj

/-- A client that is in a write transaction after a call has begun it, or was in it already. -/
theorem perform_eq_write {c : Cmd τ κ β} {db w' : Store τ κ β} {txn : Txn τ κ β}
    (h : (perform (ε := ε) c db txn).2.2 = .write w') :
    c = .beginWrite ∨ (c ≠ .commit ∧ ∃ w, txn = .write w) := by
  cases txn with
  | write w =>
      by_cases hc : c = .commit
      · subst hc
        cases h
      · exact Or.inr ⟨hc, w, rfl⟩
  | _ =>
      cases c with
      | beginWrite => exact Or.inl rfl
      | openTable t =>
          simp only [perform] at h
          split at h <;> cases h
      | _ => cases h

/-- How far the operation `p₀` is, when `p` is left of it and it holds `txn`.

* `fresh`: it has made no call yet.
* `writing`: it holds the write transaction. What is left ends as the whole operation does, run
  alone on the committed contents.
* `reading`: it has taken effect, and what is left of it gives its result on any contents.
* `answered`: it has taken effect and only has to return. -/
inductive Stage (Q : α → Phase → Prop) (p₀ : Prog τ κ β ε α) (db : Store τ κ β) :
    Prog τ κ β ε α → Txn τ κ β → Option α → Prop
  | fresh : Stage Q p₀ db p₀ .idle none
  | writing (p : Prog τ κ β ε α) (w : Store τ κ β) (hp : p.Obeys Q .writing)
      (hrun : (p.run ⟨db, .write w, []⟩).1 = (exec [] p₀ db).1 ∧
        (p.run ⟨db, .write w, []⟩).2.db = (exec [] p₀ db).2) :
      Stage Q p₀ db p (.write w) none
  | reading (p : Prog τ κ β ε α) (snap : Store τ κ β) (r : α) (hp : p.Obeys Q .reading)
      (hrun : ∀ db', (p.run ⟨db', .read snap, []⟩).1 = r) :
      Stage Q p₀ db p (.read snap) (some r)
  | answered (txn : Txn τ κ β) (r : α) (htxn : txn ≠ .idle) : Stage Q p₀ db (.ret r) txn (some r)

/-- A call that takes an operation from one stage to the next: it has no effect, or the whole
operation takes effect in it. -/
structure Stage.Step (Q : α → Phase → Prop) (p₀ : Prog τ κ β ε α) (db : Store τ κ β) (c : Cmd τ κ β)
    (res : Option α) (db' : Store τ κ β) (p' : Prog τ κ β ε α) (txn' : Txn τ κ β)
    (res' : Option α) : Prop where
  stage : Stage Q p₀ db' p' txn' res'
  effect : (c.point? = none ∧ db' = db ∧ res' = res) ∨
    (c.point?.isSome = true ∧ res = none ∧ res' = some (exec [] p₀ db).1 ∧
      db' = (exec [] p₀ db).2)

namespace Stage

variable {Q : α → Phase → Prop} {p₀ p : Prog τ κ β ε α} {db : Store τ κ β} {txn : Txn τ κ β}
  {res : Option α} {c : Cmd τ κ β} {k : Except (Failure τ ε) c.Ret → Prog τ κ β ε α}

/-- What other clients do to the contents matters only to one that is writing. -/
theorem frame (h : Stage Q p₀ db p txn res) (hw : ∀ w, txn ≠ .write w) (db' : Store τ κ β) :
    Stage Q p₀ db' p txn res := by
  cases h with
  | fresh => exact .fresh
  | writing p w hp hrun => exact absurd rfl (hw w)
  | reading p snap r hp hrun => exact .reading p snap r hp hrun
  | answered txn r htxn => exact .answered txn r htxn

/-- What is left keeps the discipline. -/
theorem obeys (hbody : p₀.Obeys Q .idle) (h : Stage Q p₀ db (.call c k) txn res) :
    ∃ φ : Phase, (Prog.call c k).Obeys Q φ ∧ φ.Holds txn := by
  cases h with
  | fresh => exact ⟨.idle, hbody, rfl⟩
  | writing p w hp hrun => exact ⟨.writing, hp, w, rfl⟩
  | reading p snap r hp hrun => exact ⟨.reading, hp, snap, rfl⟩

/-- Only an operation that is writing commits. -/
theorem write_of_commit (hbody : p₀.Obeys Q .idle) {k : Except (Failure τ ε) Unit → Prog τ κ β ε α}
    (h : Stage Q p₀ db (.call .commit k) txn res) : ∃ w, txn = .write w := by
  cases h with
  | fresh => exact hbody.1.elim
  | writing p w hp hrun => exact ⟨w, rfl⟩
  | reading p snap r hp hrun => exact hp.1.elim

/-- When a call fails, the operation is over. -/
theorem fail (hbody : p₀.Obeys Q .idle) (h : Stage Q p₀ db (.call c k) txn res) (e : ε) :
    ∃ a, k (.error (.fault e)) = .ret a ∧ Q a .failed := by
  obtain ⟨φ, hobeys, -⟩ := h.obeys hbody
  exact hobeys.of_error (.fault e)

/-- An operation that returns has taken effect, with the result it returns, or it has made no
call at all. -/
theorem ret (hQ : ∀ a φ, Q a φ → φ ≠ .writing) {a : α} (h : Stage Q p₀ db (.ret a) txn res) :
    (txn ≠ .idle ∧ res = some a) ∨ (txn = .idle ∧ res = none ∧ exec [] p₀ db = (a, db)) := by
  cases h with
  | fresh => exact Or.inr ⟨rfl, rfl, rfl⟩
  | writing p w hp hrun => exact absurd rfl (hQ a .writing hp)
  | reading p snap r hp hrun =>
      refine Or.inl ⟨nofun, ?_⟩
      rw [← hrun db]
      rfl
  | answered txn r htxn => exact Or.inl ⟨htxn, rfl⟩

/-- The first call begins the transaction. -/
theorem call_fresh (hbody : (Prog.call c k).Obeys Q .idle) (db : Store τ κ β) :
    ∃ res', Stage.Step Q (.call c k) db c none (perform (ε := ε) c db .idle).2.1
      (k (perform c db .idle).1) (perform (ε := ε) c db .idle).2.2 res' := by
  cases c with
  | beginRead =>
      have hk : (k (.ok ())).Obeys Q .reading := hbody.2 (.ok ())
      have hrun := fun db' => hk.run_reading db db' db
      exact ⟨_, .reading _ db _ hk fun db' => (hrun db').1,
        Or.inr ⟨rfl, rfl, rfl, (hrun db).2.symm⟩⟩
  | beginWrite =>
      exact ⟨none, .writing _ db (hbody.2 (.ok ())) ⟨rfl, rfl⟩, Or.inl ⟨rfl, rfl, rfl⟩⟩
  | _ => exact hbody.1.elim

/-- A call inside the write transaction: a commit takes effect, any other changes the private
copy only. -/
theorem call_writing {w : Store τ κ β} (hp : (Prog.call c k).Obeys Q .writing)
    (hrun : ((Prog.call c k).run ⟨db, .write w, []⟩).1 = (exec [] p₀ db).1 ∧
      ((Prog.call c k).run ⟨db, .write w, []⟩).2.db = (exec [] p₀ db).2) :
    ∃ res', Stage.Step Q p₀ db c none (perform (ε := ε) c db (.write w)).2.1
      (k (perform c db (.write w)).1) (perform (ε := ε) c db (.write w)).2.2 res' := by
  rw [Prog.run_call, Mach.step_nil] at hrun
  by_cases hc : c = .commit
  · subst hc
    obtain ⟨a, ha, -⟩ := hp.of_commit
    have hresult : a = (exec [] p₀ db).1 := by
      rw [← hrun.1]
      show a = ((k (.ok ())).run _).1
      rw [ha]
      rfl
    have hdb : w = (exec [] p₀ db).2 := by
      rw [← hrun.2]
      show w = ((k (.ok ())).run _).2.db
      rw [ha]
      rfl
    refine ⟨some a, ?_, Or.inr ⟨rfl, rfl, congrArg some hresult, hdb⟩⟩
    show Stage Q p₀ w (k (.ok ())) .closed (some a)
    rw [ha]
    exact .answered .closed a nofun
  · have hsame : (perform (ε := ε) c db (.write w)).2.1 = db := perform_db hc db (.write w)
    have hafter := Phase.after_writing hp.1 hc
    have hok := perform_write_ok (ε := ε) c db w
    have hnext := hp.2 (perform c db (.write w)).1
    have hholds := perform_holds (ε := ε) hp.1 db ⟨w, rfl⟩
    rw [hok, hafter] at hnext hholds
    obtain ⟨w', hw'⟩ := hholds
    rw [hw', hsame] at hrun
    rw [hw', hsame]
    refine ⟨none, .writing _ w' hnext hrun, Or.inl ⟨?_, rfl, rfl⟩⟩
    cases c with
    | commit => exact absurd rfl hc
    | beginRead => exact hp.1.elim
    | _ => rfl

/-- A call inside a read transaction. -/
theorem call_reading {snap : Store τ κ β} {r : α} (hp : (Prog.call c k).Obeys Q .reading)
    (hrun : ∀ db', ((Prog.call c k).run ⟨db', .read snap, []⟩).1 = r) :
    ∃ res', Stage.Step Q p₀ db c (some r) (perform (ε := ε) c db (.read snap)).2.1
      (k (perform c db (.read snap)).1) (perform (ε := ε) c db (.read snap)).2.2 res' := by
  have hperform := perform_read (ε := ε) hp.1 snap db db
  have hnext := hp.2 (perform c db (.read snap)).1
  rw [Phase.after_reading hp.1] at hnext
  rw [congrArg (·.2.1) hperform, congrArg (·.2.2) hperform]
  refine ⟨some r, ?_, Or.inl ⟨?_, rfl, rfl⟩⟩
  · cases hok : (perform (ε := ε) c db (.read snap)).1.isOk with
    | true =>
        rw [hok] at hnext
        refine .reading _ snap r hnext fun db' => ?_
        rw [← hrun db', Prog.run_call, Mach.step_nil, perform_read hp.1 snap db' db]
    | false =>
        -- a table that does not exist ends the operation
        rw [hok] at hnext
        obtain ⟨a, ha, -⟩ := hnext.eq_ret trivial
        have hra : a = r := by
          rw [← hrun db, Prog.run_call, Mach.step_nil, ha]
          rfl
        rw [ha, hra]
        exact .answered _ r nofun
  · cases c with
    | beginRead => exact hp.1.elim
    | commit => exact hp.1.elim
    | _ => rfl

/-- **A call takes no effect, or all of it.** -/
theorem call (hbody : p₀.Obeys Q .idle) (h : Stage Q p₀ db (.call c k) txn res) :
    ∃ res', Stage.Step Q p₀ db c res (perform (ε := ε) c db txn).2.1 (k (perform c db txn).1)
      (perform (ε := ε) c db txn).2.2 res' := by
  cases h with
  | fresh => exact call_fresh hbody db
  | writing p w hp hrun => exact call_writing hp hrun
  | reading p snap r hp hrun => exact call_reading hp hrun

end Stage

end Stages

end TxStore
