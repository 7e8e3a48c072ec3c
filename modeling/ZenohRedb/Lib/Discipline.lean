import ZenohRedb.Lib.Store

set_option autoImplicit false

/-! # One transaction, and stop at the first failure

A program obeys the *discipline* when, whatever the responses,

* it begins at most one transaction and makes every other call inside it,
* it makes no call after a commit, and
* it makes no call after a failure.

`Prog.Obeys Q p φ` says so of the program `p` from the phase `φ` on, and that the result and
the phase at the end satisfy `Q`. It is a weakest precondition over phases: `obeys_bind` and
`Obeys.mono` are its rules, and no store, transaction or fault occurs in it.

What the discipline buys is stated about runs. A run that ends without a commit has not
changed the store (`Obeys.run`), and a run with faults either ends in the failed phase with
the store as it was, or is the run without faults (`Obeys.exec_faults`).
-/

namespace TxStore

/-- How far a program is with its one transaction. -/
inductive Phase
  | idle
  | reading
  | writing
  | committed
  | failed
  deriving DecidableEq

namespace Phase

/-- The calls the discipline allows in a phase. -/
def Allows {τ κ β : Type} : Phase → Cmd τ κ β → Prop
  | .idle, .beginRead | .idle, .beginWrite => True
  | .reading, .openTable _ | .reading, .get _ _ | .reading, .iter _ | .reading, .next _ _ => True
  | .writing, .beginRead | .writing, .beginWrite => False
  | .writing, _ => True
  | _, _ => False

/-- The phase after a call, which may have failed (`ok = false`). -/
def after {τ κ β : Type} (φ : Phase) (c : Cmd τ κ β) (ok : Bool) : Phase :=
  match ok, c with
  | false, _ => .failed
  | true, .beginRead => .reading
  | true, .beginWrite => .writing
  | true, .commit => .committed
  | true, _ => φ

/-- Phases in which nothing more may be called. -/
def Terminal : Phase → Prop
  | .committed | .failed => True
  | _ => False

theorem Terminal.not_allows {τ κ β : Type} {φ : Phase} (h : φ.Terminal) (c : Cmd τ κ β) :
    ¬ φ.Allows c := by
  cases φ <;> simp_all [Terminal, Allows]

/-- A read transaction stays in the reading phase unless a call failed. -/
theorem after_reading {τ κ β : Type} {c : Cmd τ κ β} (hc : reading.Allows c) (ok : Bool) :
    reading.after c ok = if ok then .reading else .failed := by
  cases ok with
  | false => cases c <;> rfl
  | true =>
      cases c with
      | openTable t => rfl
      | get t k => rfl
      | iter t => rfl
      | next t i => rfl
      | _ => exact hc.elim

/-- A write transaction stays in the writing phase up to the commit. -/
theorem after_writing {τ κ β : Type} {c : Cmd τ κ β} (hc : writing.Allows c) (hne : c ≠ .commit) :
    writing.after c true = .writing := by
  cases c with
  | commit => exact absurd rfl hne
  | beginRead => exact hc.elim
  | beginWrite => exact hc.elim
  | _ => rfl

/-- The transaction a client holds in a phase. -/
def Holds {τ κ β : Type} [Ord κ] : Phase → Txn τ κ β → Prop
  | .idle, txn => txn = .idle
  | .reading, txn => ∃ s, txn = .read s
  | .writing, txn => ∃ w, txn = .write w
  | _, _ => True

end Phase

section Rules

variable {τ κ β ε α γ : Type}

namespace Prog

/-- `p` keeps the discipline from phase `φ` on, and ends with a result and a phase that
satisfy `Q`. -/
def Obeys (Q : α → Phase → Prop) : Prog τ κ β ε α → Phase → Prop
  | .ret a, φ => Q a φ
  | .call c k, φ => φ.Allows c ∧ ∀ r, (k r).Obeys Q (φ.after c r.isOk)

theorem obeys_bind (p : Prog τ κ β ε α) (f : α → Prog τ κ β ε γ) (Q : γ → Phase → Prop)
    (φ : Phase) :
    (p >>= f).Obeys Q φ ↔ p.Obeys (fun a ψ => (f a).Obeys Q ψ) φ := by
  induction p generalizing φ with
  | ret a => exact Iff.rfl
  | call c k ih => exact and_congr_right fun _ => forall_congr' fun r => ih r _

theorem Obeys.mono {Q Q' : α → Phase → Prop} {p : Prog τ κ β ε α} {φ : Phase}
    (h : p.Obeys Q φ) (hQ : ∀ a ψ, Q a ψ → Q' a ψ) : p.Obeys Q' φ := by
  induction p generalizing φ with
  | ret a => exact hQ _ _ h
  | call c k ih => exact ⟨h.1, fun r => ih r (h.2 r)⟩

/-- In a terminal phase a program is over. -/
theorem Obeys.eq_ret {Q : α → Phase → Prop} {p : Prog τ κ β ε α} {φ : Phase}
    (h : p.Obeys Q φ) (hφ : φ.Terminal) : ∃ a, p = .ret a ∧ Q a φ := by
  cases p with
  | ret a => exact ⟨a, rfl, h⟩
  | call c k => exact absurd h.1 (hφ.not_allows c)

/-- After a failed call a program is over. -/
theorem Obeys.of_error {Q : α → Phase → Prop} {c : Cmd τ κ β}
    {k : Except (Failure τ ε) c.Ret → Prog τ κ β ε α} {φ : Phase}
    (h : (Prog.call c k).Obeys Q φ) (e : Failure τ ε) : ∃ a, k (.error e) = .ret a ∧ Q a .failed :=
  (h.2 (.error e)).eq_ret trivial

/-- After its commit a program is over. -/
theorem Obeys.of_commit {Q : α → Phase → Prop}
    {k : Except (Failure τ ε) Unit → Prog τ κ β ε α} {φ : Phase}
    (h : (Prog.call .commit k).Obeys Q φ) : ∃ a, k (.ok ()) = .ret a ∧ Q a .committed :=
  (h.2 (.ok ())).eq_ret trivial

end Prog

end Rules

section Runs

variable {τ κ β ε α : Type} [DecidableEq τ] [Ord κ] [Std.TransOrd κ]

/-! ## What one allowed call does -/

/-- Only a commit changes the committed contents. -/
theorem perform_db {c : Cmd τ κ β} (hc : c ≠ .commit) (db : Store τ κ β) (txn : Txn τ κ β) :
    (perform (ε := ε) c db txn).2.1 = db := by
  cases c with
  | commit => exact absurd rfl hc
  | openTable t =>
      cases txn with
      | write w => rfl
      | _ => simp only [perform]; split <;> rfl
  | deleteTable t => cases txn <;> rfl
  | _ => rfl

/-- A commit does not fail of itself. -/
theorem perform_commit (db : Store τ κ β) (txn : Txn τ κ β) :
    (perform (ε := ε) (.commit : Cmd τ κ β) db txn).1 = .ok () := by
  cases txn <;> rfl

/-- The transaction after an allowed call is the one its next phase asks for. -/
theorem perform_holds {φ : Phase} {c : Cmd τ κ β} (hφ : φ.Allows c) (db : Store τ κ β)
    {txn : Txn τ κ β} (ht : φ.Holds txn) :
    (φ.after c (perform (ε := ε) c db txn).1.isOk).Holds (perform (ε := ε) c db txn).2.2 := by
  cases φ with
  | idle =>
      cases c with
      | beginRead => exact ⟨db, rfl⟩
      | beginWrite => exact ⟨db, rfl⟩
      | _ => exact hφ.elim
  | reading =>
      obtain ⟨s, rfl⟩ := ht
      cases c with
      | openTable t =>
          -- a missing table is a failure, and after it nothing is asked of the transaction
          simp only [perform, Txn.view]
          cases s t with
          | some _ => exact ⟨s, rfl⟩
          | none => trivial
      | get t k => exact ⟨s, rfl⟩
      | iter t => exact ⟨s, rfl⟩
      | next t i => exact ⟨s, rfl⟩
      | _ => exact hφ.elim
  | writing =>
      obtain ⟨w, rfl⟩ := ht
      cases c with
      | commit => trivial
      | beginRead => exact hφ.elim
      | beginWrite => exact hφ.elim
      | _ => exact ⟨_, rfl⟩
  | committed => exact hφ.elim
  | failed => exact hφ.elim

/-- A call inside a write transaction does not fail of itself. -/
theorem perform_write_ok (c : Cmd τ κ β) (db w : Store τ κ β) :
    (perform (ε := ε) c db (.write w)).1.isOk = true := by
  cases c <;> rfl

/-- A read transaction answers from its own contents and stays as it is, whatever has been
committed in the meantime. -/
theorem perform_read {c : Cmd τ κ β} (hc : Phase.reading.Allows c) (s db db' : Store τ κ β) :
    perform (ε := ε) c db (.read s) = ((perform c db' (.read s)).1, db, .read s) := by
  cases c with
  | openTable t =>
      simp only [perform, Txn.view]
      cases s t <;> rfl
  | get t k => rfl
  | iter t => rfl
  | next t i => rfl
  | _ => exact hc.elim

/-- A fault leaves the client in a transaction its next phase, `failed`, accepts. -/
theorem Mach.step_fault (c : Cmd τ κ β) (m : Mach τ κ β ε) {e : ε} {fs : List (Option ε)}
    (hm : m.faults = some e :: fs) :
    m.step c = (.error (.fault e), ⟨m.db, m.txn.afterFault c, fs⟩) := by
  unfold Mach.step
  rw [hm]

/-- Either the next call is made to fail, or it does what `perform` says. -/
theorem Mach.step_cases (c : Cmd τ κ β) (m : Mach τ κ β ε) :
    (∃ e fs, m.faults = some e :: fs ∧
      m.step c = (.error (.fault e), ⟨m.db, m.txn.afterFault c, fs⟩)) ∨
    m.step c = ((perform c m.db m.txn).1,
      ⟨(perform (ε := ε) c m.db m.txn).2.1, (perform (ε := ε) c m.db m.txn).2.2,
        m.faults.tail⟩) := by
  by_cases h : ∃ e, m.faults.head? = some (some e)
  · obtain ⟨e, he⟩ := h
    obtain ⟨fs, hfs⟩ := List.head?_eq_some_iff.mp he
    exact Or.inl ⟨e, fs, hfs, Mach.step_fault c m hfs⟩
  · exact Or.inr (Mach.step_none c m.db m.txn m.faults fun e he => h ⟨e, he⟩)

/-! ## What a disciplined run does -/

/-- **A run that does not reach a commit changes nothing.** The phase at the end is the one
`Q` speaks about. -/
theorem Prog.Obeys.run {Q : α → Phase → Prop} {p : Prog τ κ β ε α} {φ : Phase}
    (h : p.Obeys Q φ) (m : Mach τ κ β ε) (hm : φ.Holds m.txn) :
    ∃ ψ, Q (p.run m).1 ψ ∧ (ψ ≠ .committed → (p.run m).2.db = m.db) := by
  induction p generalizing φ m with
  | ret a => exact ⟨φ, h, fun _ => rfl⟩
  | call c k ih =>
      rw [Prog.run_call]
      rcases Mach.step_cases c m with ⟨e, fs, -, hs⟩ | hs
      · rw [hs]
        obtain ⟨a, ha, hQ⟩ := h.of_error (.fault e)
        rw [ha]
        exact ⟨.failed, hQ, fun _ => rfl⟩
      · rw [hs]
        by_cases hc : c = .commit
        · subst hc
          obtain ⟨a, ha, hQ⟩ := h.of_commit
          rw [perform_commit, ha]
          exact ⟨.committed, hQ, fun hψ => absurd rfl hψ⟩
        · -- any other call leaves the contents, and the program goes on from its next phase
          have hk := h.2 (perform c m.db m.txn).1
          obtain ⟨ψ, hQ, hψ⟩ := ih _ hk ⟨_, _, m.faults.tail⟩ (perform_holds h.1 m.db hm)
          exact ⟨ψ, hQ, fun hne => (hψ hne).trans (perform_db hc m.db m.txn)⟩

/-- **Faults are all or nothing.** A run with faults ends in the failed phase with the
committed contents as they were, or it has the result and the contents of the run without
faults. -/
theorem Prog.Obeys.run_faults {Q : α → Phase → Prop} {p : Prog τ κ β ε α} {φ : Phase}
    (h : p.Obeys Q φ) (m : Mach τ κ β ε) :
    (Q (p.run m).1 .failed ∧ (p.run m).2.db = m.db) ∨
    ((p.run m).1 = (p.run ⟨m.db, m.txn, []⟩).1 ∧
      (p.run m).2.db = (p.run ⟨m.db, m.txn, []⟩).2.db) := by
  induction p generalizing φ m with
  | ret a => exact Or.inr ⟨rfl, rfl⟩
  | call c k ih =>
      rw [Prog.run_call, Prog.run_call, Mach.step_nil]
      rcases Mach.step_cases c m with ⟨e, fs, -, hs⟩ | hs
      · rw [hs]
        obtain ⟨a, ha, hQ⟩ := h.of_error (.fault e)
        rw [ha]
        exact Or.inl ⟨hQ, rfl⟩
      · rw [hs]
        by_cases hc : c = .commit
        · subst hc
          -- nothing is left that a later fault could reach
          obtain ⟨a, ha, -⟩ := h.of_commit
          rw [perform_commit, ha]
          exact Or.inr ⟨rfl, rfl⟩
        · have hk := h.2 (perform c m.db m.txn).1
          rcases ih _ hk ⟨_, _, m.faults.tail⟩ with ⟨hQ, hdb⟩ | hsame
          · exact Or.inl ⟨hQ, hdb.trans (perform_db hc m.db m.txn)⟩
          · exact Or.inr hsame

/-- `Obeys.run` for a program run as one client. -/
theorem Prog.Obeys.exec {Q : α → Phase → Prop} {p : Prog τ κ β ε α} (h : p.Obeys Q .idle)
    (fs : List (Option ε)) (db : Store τ κ β) :
    ∃ ψ, Q (exec fs p db).1 ψ ∧ (ψ ≠ .committed → (TxStore.exec fs p db).2 = db) :=
  h.run ⟨db, .idle, fs⟩ rfl

/-- `Obeys.run_faults` for a program run as one client. -/
theorem Prog.Obeys.exec_faults {Q : α → Phase → Prop} {p : Prog τ κ β ε α}
    (h : p.Obeys Q .idle) (fs : List (Option ε)) (db : Store τ κ β) :
    (Q (TxStore.exec fs p db).1 .failed ∧ (TxStore.exec fs p db).2 = db) ∨
      TxStore.exec fs p db = TxStore.exec [] p db := by
  rcases h.run_faults ⟨db, .idle, fs⟩ with hf | ⟨h1, h2⟩
  · exact Or.inl hf
  · exact Or.inr (Prod.ext h1 h2)

/-- A program inside a read transaction gives the same result on any committed contents, and
leaves them alone. -/
theorem Prog.Obeys.run_reading {Q : α → Phase → Prop} {p : Prog τ κ β ε α}
    (h : p.Obeys Q .reading) (s db db' : Store τ κ β) :
    (p.run ⟨db, .read s, []⟩).1 = (p.run ⟨db', .read s, []⟩).1 ∧
      (p.run ⟨db, .read s, []⟩).2.db = db := by
  induction p with
  | ret a => exact ⟨rfl, rfl⟩
  | call c k ih =>
      -- both sides get the response of the one on `db'`
      rw [Prog.run_call, Prog.run_call, Mach.step_nil, Mach.step_nil, perform_read h.1 s db db',
        perform_read h.1 s db' db']
      have hk := h.2 (perform c db' (.read s)).1
      rw [Phase.after_reading h.1] at hk
      cases hr : (perform (ε := ε) c db' (.read s)).1.isOk with
      | true =>
          rw [hr] at hk
          exact ih _ hk
      | false =>
          rw [hr] at hk
          obtain ⟨a, ha, -⟩ := hk.eq_ret trivial
          simp only [ha, Prog.run_ret, and_self]

end Runs

end TxStore
