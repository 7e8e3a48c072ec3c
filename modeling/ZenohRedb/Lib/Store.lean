import Mathlib

set_option autoImplicit false

/-! # Transactional stores and the programs that use them

A *store* is a family of ordered tables. A client works on it through one transaction at a
time: a read transaction looks at the contents committed last when it began, a write
transaction works on a private copy that becomes the committed contents when it commits.

What a client does is a *program* (`Prog`): a tree of calls (`Cmd`), each of which may
report a failure, with one continuation for every possible response. The same program is

* run alone, with a list saying which of its calls fail (`Prog.run`, `exec`), and
* run call by call, interleaved with the programs of other clients (`Lib/Linearize.lean`).

What is assumed of the store that does the calls is in `perform`, `Txn.afterFault` and
`Lib/Linearize.lean`, and no more than this:

* a table is a finite map, iterated in the order of its keys;
* a read transaction sees the contents committed last when it began;
* there is one write transaction at a time, and its changes become the committed contents
  together, when it commits;
* a write transaction that ends without a successful commit has no effect. In particular a
  failing commit leaves the old contents, for those who open the store later too;
* any call may fail, and a failing call that is no commit leaves the transaction as it was.

Nothing here refers to a particular table layout, key type or failure type.
-/

namespace TxStore

/-- One table of a store: a finite map ordered by its keys. -/
abbrev Table (κ β : Type) [Ord κ] := Std.ExtTreeMap κ β compare

section OrderedMap

/-! Looking up a key after an update, where the order takes equal keys only for the same. -/

variable {κ β : Type} {cmp : κ → κ → Ordering} [Std.TransCmp cmp] [Std.LawfulEqCmp cmp]
  [DecidableEq κ]

theorem getElem?_insert_eq_ite (t : Std.ExtTreeMap κ β cmp) (k k' : κ) (v : β) :
    (t.insert k v)[k']? = if k = k' then some v else t[k']? := by
  rw [Std.ExtTreeMap.getElem?_insert]
  simp only [Std.LawfulEqCmp.compare_eq_iff_eq]

theorem getElem?_erase_eq_ite (t : Std.ExtTreeMap κ β cmp) (k k' : κ) :
    (t.erase k)[k']? = if k = k' then none else t[k']? := by
  rw [Std.ExtTreeMap.getElem?_erase]
  simp only [Std.LawfulEqCmp.compare_eq_iff_eq]

/-- Inserting what is there changes nothing. -/
theorem insert_of_getElem?_eq_some {t : Std.ExtTreeMap κ β cmp} {k : κ} {v : β}
    (h : t[k]? = some v) : t.insert k v = t := by
  refine Std.ExtTreeMap.ext_getElem? fun k' => ?_
  rw [getElem?_insert_eq_ite]
  by_cases hk : k = k'
  · rw [if_pos hk, ← hk, h]
  · rw [if_neg hk]

/-- Every binding of the first map is one of the second. -/
def Submap (t t' : Std.ExtTreeMap κ β cmp) : Prop :=
  ∀ (k : κ) (v : β), t[k]? = some v → t'[k]? = some v

theorem Submap.insert {t t' : Std.ExtTreeMap κ β cmp} (h : Submap t t') (k : κ) (v : β) :
    Submap (t.insert k v) (t'.insert k v) := by
  intro k' v' hk'
  rw [getElem?_insert_eq_ite] at hk' ⊢
  by_cases hk : k = k'
  · rwa [if_pos hk] at hk' ⊢
  · rw [if_neg hk] at hk' ⊢
    exact h k' v' hk'

omit [Std.LawfulEqCmp cmp] [DecidableEq κ] in
theorem mem_of_getElem?_eq_some {t : Std.ExtTreeMap κ β cmp} {k : κ} {v : β}
    (h : t[k]? = some v) : k ∈ t := by
  rw [Std.ExtTreeMap.mem_iff_isSome_getElem?, h]
  rfl

omit [DecidableEq κ] in
/-- A part that has all keys is the whole. -/
theorem Submap.eq_of_mem {t t' : Std.ExtTreeMap κ β cmp} (h : Submap t t')
    (hmem : ∀ k, k ∈ t' → k ∈ t) : t = t' := by
  refine Std.ExtTreeMap.ext_getElem? fun k => ?_
  cases hk : t[k]? with
  | some v => exact (h k v hk).symm
  | none =>
      cases hk' : t'[k]? with
      | none => rfl
      | some v =>
          have hin : k ∈ t := hmem k (mem_of_getElem?_eq_some hk')
          rw [Std.ExtTreeMap.mem_iff_isSome_getElem?, hk] at hin
          cases hin

omit [DecidableEq κ] in
/-- The entries that are listed are those that are found. -/
theorem getElem?_of_mem_toList {t : Std.ExtTreeMap κ β cmp} {item : κ × β} (h : item ∈ t.toList) :
    t[item.1]? = some item.2 ∧ item.1 ∈ t := by
  have hget : t[item.1]? = some item.2 := Std.ExtTreeMap.mem_toList_iff_getElem?_eq_some.mp h
  refine ⟨hget, ?_⟩
  rw [Std.ExtTreeMap.mem_iff_isSome_getElem?, hget]
  rfl

end OrderedMap

/-- The contents of a store: the tables that exist, by name. -/
abbrev Store (τ κ β : Type) [Ord κ] := τ → Option (Table κ β)

/-- The calls a client makes. `next t i` is the `i`-th step of an iteration over `t` that
`iter t` has started. -/
inductive Cmd (τ κ β : Type)
  | beginRead
  | beginWrite
  | commit
  | openTable (t : τ)
  | deleteTable (t : τ)
  | get (t : τ) (k : κ)
  | insert (t : τ) (k : κ) (v : β)
  | remove (t : τ) (k : κ)
  | iter (t : τ)
  | next (t : τ) (i : Nat)

/-- What a call returns when it does not fail: `get`, `insert` and `remove` return the value
stored so far, `deleteTable` whether the table existed, `iter` a bound on the number of
entries to come, and `next` an entry, or `none` at the end. -/
@[reducible] def Cmd.Ret {τ κ β : Type} : Cmd τ κ β → Type
  | .beginRead | .beginWrite | .commit | .openTable _ => Unit
  | .deleteTable _ => Bool
  | .get _ _ | .insert _ _ _ | .remove _ _ => Option β
  | .iter _ => Nat
  | .next _ _ => Option (κ × β)

/-- The key a call names, if it names one. -/
def Cmd.key? {τ κ β : Type} : Cmd τ κ β → Option κ
  | .get _ k | .insert _ k _ | .remove _ k => some k
  | _ => none

/-- Why a call fails: the table it opens for reading does not exist, or the store itself
reports a failure `e` (an input/output error, say), which may happen to any call. -/
inductive Failure (τ ε : Type)
  | missing (t : τ)
  | fault (e : ε)

/-- A program: what it does next, and how it goes on for each response. -/
inductive Prog (τ κ β ε α : Type)
  | ret (a : α)
  | call (c : Cmd τ κ β) (k : Except (Failure τ ε) c.Ret → Prog τ κ β ε α)

section Programs

variable {τ κ β ε α γ : Type}

namespace Prog

/-- Run `p`, then `f` on its result. -/
def bind : Prog τ κ β ε α → (α → Prog τ κ β ε γ) → Prog τ κ β ε γ
  | .ret a, f => f a
  | .call c k, f => .call c fun r => (k r).bind f

instance : Monad (Prog τ κ β ε) where
  pure := .ret
  bind := bind

/-- A property that is decided along the paths of `p`: at a result by `Q`, and at a call by `S`,
from the call and from whether the rest of `p` has the property, whatever the response. -/
def Along (S : Cmd τ κ β → Prop → Prop) (Q : α → Prop) : Prog τ κ β ε α → Prop
  | .ret a => Q a
  | .call c k => S c (∀ r, (k r).Along S Q)

/-- Every call `p` may make satisfies `P`, and every result it may end with satisfies `Q`. -/
def Calls (P : Cmd τ κ β → Prop) (Q : α → Prop) (p : Prog τ κ β ε α) : Prop :=
  p.Along (fun c rest => P c ∧ rest) Q

/-- Whatever the responses, `p` makes a call that satisfies `P`, or ends with a result that
satisfies `Q`. -/
def Makes (P : Cmd τ κ β → Prop) (Q : α → Prop) (p : Prog τ κ β ε α) : Prop :=
  p.Along (fun c rest => P c ∨ rest) Q

theorem along_bind (S : Cmd τ κ β → Prop → Prop) (Q : γ → Prop) (p : Prog τ κ β ε α)
    (f : α → Prog τ κ β ε γ) :
    (p >>= f).Along S Q ↔ p.Along S fun a => (f a).Along S Q := by
  induction p with
  | ret a => exact Iff.rfl
  | call c k ih => exact iff_of_eq (congrArg (S c) (propext (forall_congr' ih)))

end Prog

end Programs

/-! ## One call

The transaction a client holds (`Txn`) decides what a call sees and changes. Calls that the
types of a client rule out (an insertion in a read transaction, an access to a table that is
not open) have no effect. -/

/-- The transaction a client holds: none yet, a read transaction on the contents `snap`, a
write transaction whose private copy is `work`, or one that is over. -/
inductive Txn (τ κ β : Type) [Ord κ]
  | idle
  | read (snap : Store τ κ β)
  | write (work : Store τ κ β)
  | closed

section Machine

variable {τ κ β ε α γ : Type} [DecidableEq τ] [Ord κ] [Std.TransOrd κ]

/-- Create table `t` unless it exists. -/
def Store.ensure (s : Store τ κ β) (t : τ) : Store τ κ β :=
  Function.update s t (some ((s t).getD ∅))

namespace Txn

/-- The contents a transaction looks at. -/
def view : Txn τ κ β → Store τ κ β
  | .read s => s
  | .write w => w
  | _ => fun _ => none

/-- Table `t` as the transaction sees it. -/
def table (txn : Txn τ κ β) (t : τ) : Table κ β := (txn.view t).getD ∅

/-- Change the private copy of table `t`. -/
def modify (txn : Txn τ κ β) (t : τ) (f : Table κ β → Table κ β) : Txn τ κ β :=
  match txn with
  | .write w => .write (Function.update w t ((w t).map f))
  | txn => txn

/-- The transaction left by a call that failed: a failing commit consumes it, with all its
changes, any other call leaves it as it was. -/
def afterFault (txn : Txn τ κ β) : Cmd τ κ β → Txn τ κ β
  | .commit => .closed
  | _ => txn

end Txn

/-- A call that does not fail of itself, on the committed contents `db` and the caller's
transaction: its response, and both of them afterwards. -/
def perform (c : Cmd τ κ β) (db : Store τ κ β) (txn : Txn τ κ β) :
    Except (Failure τ ε) c.Ret × Store τ κ β × Txn τ κ β :=
  match c with
  | .beginRead => (.ok (), db, .read db)
  | .beginWrite => (.ok (), db, .write db)
  | .commit =>
      match txn with
      | .write w => (.ok (), w, .closed)
      | txn => (.ok (), db, txn)
  | .openTable t =>
      match txn with
      -- a write transaction creates the table, a read transaction does not
      | .write w => (.ok (), db, .write (Store.ensure w t))
      | txn =>
          match txn.view t with
          | some _ => (.ok (), db, txn)
          | none => (.error (.missing t), db, txn)
  | .deleteTable t =>
      match txn with
      | .write w => (.ok (w t).isSome, db, .write (Function.update w t none))
      | txn => (.ok false, db, txn)
  | .get t k => (.ok (txn.table t)[k]?, db, txn)
  | .insert t k v => (.ok (txn.table t)[k]?, db, txn.modify t (·.insert k v))
  | .remove t k => (.ok (txn.table t)[k]?, db, txn.modify t (·.erase k))
  | .iter t => (.ok (txn.table t).size, db, txn)
  | .next t i => (.ok (txn.table t).toList[i]?, db, txn)

/-! ## Running a program alone -/

/-- The committed contents, the transaction of the one client, and what is still to go
wrong: the head of `faults` decides whether the next call fails, and past the end of the
list no call fails. -/
structure Mach (τ κ β ε : Type) [Ord κ] where
  db : Store τ κ β
  txn : Txn τ κ β
  faults : List (Option ε)

/-- One call, which fails if the head of `faults` says so. -/
def Mach.step (m : Mach τ κ β ε) (c : Cmd τ κ β) :
    Except (Failure τ ε) c.Ret × Mach τ κ β ε :=
  match m.faults with
  | some e :: fs => (.error (.fault e), ⟨m.db, m.txn.afterFault c, fs⟩)
  -- `none` at the head, or the list is used up
  | fs => ((perform c m.db m.txn).1,
      ⟨(perform (ε := ε) c m.db m.txn).2.1, (perform (ε := ε) c m.db m.txn).2.2, fs.tail⟩)

/-- Run a program to its end. -/
def Prog.run : Prog τ κ β ε α → Mach τ κ β ε → α × Mach τ κ β ε
  | .ret a, m => (a, m)
  | .call c k, m => (k (m.step c).1).run (m.step c).2

/-- Run a program as one client on the contents `db`. The transaction it may leave behind is
dropped, so only what it committed is kept. -/
def exec (faults : List (Option ε)) (p : Prog τ κ β ε α) (db : Store τ κ β) :
    α × Store τ κ β :=
  ((p.run ⟨db, .idle, faults⟩).1, (p.run ⟨db, .idle, faults⟩).2.db)

@[simp] theorem Prog.run_ret (a : α) (m : Mach τ κ β ε) : (Prog.ret a).run m = (a, m) := rfl

@[simp] theorem Prog.run_call (c : Cmd τ κ β)
    (k : Except (Failure τ ε) c.Ret → Prog τ κ β ε α) (m : Mach τ κ β ε) :
    (Prog.call c k).run m = (k (m.step c).1).run (m.step c).2 := rfl

theorem Prog.run_bind (p : Prog τ κ β ε α) (f : α → Prog τ κ β ε γ) (m : Mach τ κ β ε) :
    (p >>= f).run m = (f (p.run m).1).run (p.run m).2 := by
  induction p generalizing m with
  | ret a => rfl
  | call c k ih => exact ih _ _

/-- A program that converts its result at the end. -/
theorem exec_bind_ret (faults : List (Option ε)) (p : Prog τ κ β ε α) (g : α → γ)
    (db : Store τ κ β) :
    exec faults (p >>= fun a => .ret (g a)) db
      = (g (exec faults p db).1, (exec faults p db).2) := by
  simp only [exec, Prog.run_bind, Prog.run_ret]

/-- Without faults a call does what `perform` says. -/
@[simp] theorem Mach.step_nil (c : Cmd τ κ β) (db : Store τ κ β) (txn : Txn τ κ β) :
    (⟨db, txn, []⟩ : Mach τ κ β ε).step c
      = ((perform c db txn).1,
          ⟨(perform (ε := ε) c db txn).2.1, (perform (ε := ε) c db txn).2.2, []⟩) := rfl

/-- A call that is not made to fail leaves the rest of the fault list and does what it does
without faults. -/
theorem Mach.step_none (c : Cmd τ κ β) (db : Store τ κ β) (txn : Txn τ κ β)
    (fs : List (Option ε)) (hfs : ∀ e, fs.head? ≠ some (some e)) :
    (⟨db, txn, fs⟩ : Mach τ κ β ε).step c
      = ((perform c db txn).1,
          ⟨(perform (ε := ε) c db txn).2.1, (perform (ε := ε) c db txn).2.2, fs.tail⟩) := by
  match fs with
  | [] => rfl
  | none :: _ => rfl
  | some e :: _ => exact absurd rfl (hfs e)

end Machine

end TxStore
