import ZenohRedb.Lib.Linearize

set_option autoImplicit false

/-! # Concurrent clients whose calls fail

The clients of `Lib/Linearize.lean`, but any call of any client may fail (`FMove.fail`). An
operation that keeps the discipline returns after that, and has changed nothing.

So the operations that fail can be left out: without their moves the run is a run of the
system without faults, with the same committed contents, in which all the others return what
they return here, in the same order (`Reaches.erase`). What `Linearized` says of that run holds
of them (`Reaches.explained`).

Whether a running operation will fail is not known before it does. The proof therefore leaves
out any operations that run and have not committed (`Erasable`), those that have failed and any
others: a step of a client that is left out is no step of the other system, and one of a client
that is not is the same step there.
-/

namespace TxStore

/-- What a client is doing: its operation, what is left of it, the transaction it holds, and
whether one of its calls has failed. -/
structure FProc (ω τ κ β ε α : Type) [Ord κ] where
  op : ω
  rest : Prog τ κ β ε α
  txn : Txn τ κ β
  failed : Bool

/-- An operation that has returned, and whether one of its calls failed. -/
structure Outcome (ι ω α : Type) where
  client : ι
  op : ω
  result : α
  failed : Bool

/-- The store with its clients. -/
structure FSys (ι ω τ κ β ε α : Type) [Ord κ] where
  db : Store τ κ β
  writer : Option ι
  procs : ι → Option (FProc ω τ κ β ε α)
  returned : List (Outcome ι ω α)

/-- A move in which nothing fails, or the next call of a client fails. -/
inductive FMove (ι ω ε : Type)
  | move (m : Move ι ω)
  | fail (i : ι) (e : ε)

/-- The move, unless it is a failure. -/
def FMove.sound? {ι ω ε : Type} : FMove ι ω ε → Option (Move ι ω)
  | .move m => some m
  | .fail _ _ => none

/-- The holder of the write transaction after a call of client `i` has failed: a failing commit
gives it up. -/
def Cmd.writerFault {ι τ κ β : Type} [DecidableEq ι] (c : Cmd τ κ β) (i : ι)
    (writer : Option ι) : Option ι :=
  match c with
  | .commit => if writer = some i then none else writer
  | _ => writer

/-- The system before any client has done anything. -/
def FSys.init {ι ω τ κ β ε α : Type} [Ord κ] (db : Store τ κ β) : FSys ι ω τ κ β ε α :=
  ⟨db, none, fun _ => none, []⟩

section Systems

variable {ι ω τ κ β ε α : Type} [DecidableEq ι] [DecidableEq τ] [Ord κ] [Std.TransOrd κ]

namespace FSys

/-- One move, or `none` if it is not possible. -/
def next (body : ω → Prog τ κ β ε α) (s : FSys ι ω τ κ β ε α) :
    FMove ι ω ε → Option (FSys ι ω τ κ β ε α)
  | .move (.invoke i o) =>
      match s.procs i with
      | some _ => none
      | none =>
          some { s with procs := Function.update s.procs i (some ⟨o, body o, .idle, false⟩) }
  | .move (.call i) =>
      match s.procs i with
      | some ⟨o, .call c k, txn, failed⟩ =>
          if c.waits s.writer then none
          else
            some { s with
              db := (perform (ε := ε) c s.db txn).2.1
              writer := c.writerAfter i s.writer
              procs := Function.update s.procs i (some
                ⟨o, k (perform c s.db txn).1, (perform (ε := ε) c s.db txn).2.2, failed⟩) }
      | _ => none
  | .move (.ret i) =>
      match s.procs i with
      | some ⟨o, .ret a, _, failed⟩ =>
          some { s with
            writer := if s.writer = some i then none else s.writer
            procs := Function.update s.procs i none
            returned := s.returned ++ [⟨i, o, a, failed⟩] }
      | _ => none
  | .fail i e =>
      match s.procs i with
      | some ⟨o, .call c k, txn, _⟩ =>
          some { s with
            writer := c.writerFault i s.writer
            procs := Function.update s.procs i (some
              ⟨o, k (.error (.fault e)), txn.afterFault c, true⟩) }
      | _ => none

/-- The states reached by the moves of a list. -/
inductive Reaches (body : ω → Prog τ κ β ε α) (db : Store τ κ β) :
    List (FMove ι ω ε) → FSys ι ω τ κ β ε α → Prop
  | init : Reaches body db [] (init db)
  | next {ms : List (FMove ι ω ε)} {s s' : FSys ι ω τ κ β ε α} (m : FMove ι ω ε)
      (h : Reaches body db ms s) (hm : s.next body m = some s') :
      Reaches body db (ms ++ [m]) s'

/-- Make the moves of a list, as long as they are possible. -/
def run (body : ω → Prog τ κ β ε α) (s : FSys ι ω τ κ β ε α) :
    List (FMove ι ω ε) → Option (FSys ι ω τ κ β ε α)
  | [] => some s
  | m :: ms => (s.next body m).bind (run body · ms)

theorem Reaches.run {body : ω → Prog τ κ β ε α} {db : Store τ κ β} {s s' : FSys ι ω τ κ β ε α}
    {ms ms' : List (FMove ι ω ε)} (h : Reaches body db ms s) (hms : s.run body ms' = some s') :
    Reaches body db (ms ++ ms') s' := by
  induction ms' generalizing s ms with
  | nil =>
      cases hms
      rw [List.append_nil]
      exact h
  | cons m ms' ih =>
      obtain ⟨s₁, hm, hrest⟩ := Option.bind_eq_some_iff.mp hms
      have hrun := ih (h.next m hm) hrest
      rwa [List.append_assoc, List.singleton_append] at hrun

end FSys

/-- The moves of a run, and one more. -/
theorem Sys.run_snoc {body : ω → Prog τ κ β ε α} {s s' s'' : Sys ι ω τ κ β ε α}
    {ms : List (Move ι ω)} {m : Move ι ω} (h : s.run body ms = some s')
    (hm : s'.next body m = some s'') : s.run body (ms ++ [m]) = some s'' := by
  induction ms generalizing s with
  | nil =>
      cases h
      show (s'.next body m).bind _ = _
      rw [hm]
      rfl
  | cons m' ms ih =>
      obtain ⟨s₁, hm', hrest⟩ := Option.bind_eq_some_iff.mp h
      show (s.next body m').bind _ = _
      rw [hm']
      exact ih hrest

namespace FSys

variable {body : ω → Prog τ κ β ε α} {s s' : FSys ι ω τ κ β ε α}

/-- What a possible move does. -/
theorem next_cases {m : FMove ι ω ε} (hm : s.next body m = some s') :
    (∃ i o, m = .move (.invoke i o) ∧ s.procs i = none ∧
      s' = { s with procs := Function.update s.procs i (some ⟨o, body o, .idle, false⟩) }) ∨
    (∃ i o c k txn failed, m = .move (.call i) ∧ s.procs i = some ⟨o, .call c k, txn, failed⟩ ∧
      c.waits s.writer = false ∧
      s' = { s with
        db := (perform (ε := ε) c s.db txn).2.1
        writer := c.writerAfter i s.writer
        procs := Function.update s.procs i (some
          ⟨o, k (perform c s.db txn).1, (perform (ε := ε) c s.db txn).2.2, failed⟩) }) ∨
    (∃ i o a txn failed, m = .move (.ret i) ∧ s.procs i = some ⟨o, .ret a, txn, failed⟩ ∧
      s' = { s with
        writer := if s.writer = some i then none else s.writer
        procs := Function.update s.procs i none
        returned := s.returned ++ [⟨i, o, a, failed⟩] }) ∨
    (∃ i e o c k txn failed, m = .fail i e ∧ s.procs i = some ⟨o, .call c k, txn, failed⟩ ∧
      s' = { s with
        writer := c.writerFault i s.writer
        procs := Function.update s.procs i (some
          ⟨o, k (.error (.fault e)), txn.afterFault c, true⟩) }) := by
  cases m with
  | move m =>
      cases m with
      | invoke i o =>
          cases hi : s.procs i with
          | some p => simp only [next, hi, reduceCtorEq] at hm
          | none =>
              simp only [next, hi, Option.some.injEq] at hm
              exact Or.inl ⟨i, o, rfl, hi, hm.symm⟩
      | call i =>
          cases hi : s.procs i with
          | none => simp only [next, hi, reduceCtorEq] at hm
          | some p =>
              obtain ⟨o, rest, txn, failed⟩ := p
              cases rest with
              | ret a => simp only [next, hi, reduceCtorEq] at hm
              | call c k =>
                  cases hwait : c.waits s.writer with
                  | true => simp only [next, hi, hwait, if_true, reduceCtorEq] at hm
                  | false =>
                      simp only [next, hi, hwait, Bool.false_eq_true, if_false,
                        Option.some.injEq] at hm
                      exact Or.inr (Or.inl ⟨i, o, c, k, txn, failed, rfl, hi, hwait, hm.symm⟩)
      | ret i =>
          cases hi : s.procs i with
          | none => simp only [next, hi, reduceCtorEq] at hm
          | some p =>
              obtain ⟨o, rest, txn, failed⟩ := p
              cases rest with
              | call c k => simp only [next, hi, reduceCtorEq] at hm
              | ret a =>
                  simp only [next, hi, Option.some.injEq] at hm
                  exact Or.inr (Or.inr (Or.inl ⟨i, o, a, txn, failed, rfl, hi, hm.symm⟩))
  | fail i e =>
      cases hi : s.procs i with
      | none => simp only [next, hi, reduceCtorEq] at hm
      | some p =>
          obtain ⟨o, rest, txn, failed⟩ := p
          cases rest with
          | ret a => simp only [next, hi, reduceCtorEq] at hm
          | call c k =>
              simp only [next, hi, Option.some.injEq] at hm
              exact Or.inr (Or.inr (Or.inr ⟨i, e, o, c, k, txn, failed, rfl, hi, hm.symm⟩))

end FSys

end Systems

/-! ## The holder of the write transaction -/

section Writer

variable {ι τ κ β : Type} [DecidableEq ι] {writer : Option ι} {i : ι} {out : Set ι}

/-- The holder of the write transaction after a call, without the clients that are left out. -/
theorem writerAfter_iff {c : Cmd τ κ β} {writer' : Option ι} (hi : i ∉ out)
    (h : ∀ j, writer' = some j ↔ writer = some j ∧ j ∉ out) (j : ι) :
    c.writerAfter i writer' = some j ↔ c.writerAfter i writer = some j ∧ j ∉ out := by
  cases c with
  | beginWrite =>
      refine ⟨fun heq => ⟨heq, ?_⟩, And.left⟩
      rw [← Option.some.inj heq]
      exact hi
  | commit =>
      simp only [Cmd.writerAfter]
      by_cases hw : writer = some i
      · rw [if_pos hw, if_pos ((h i).mpr ⟨hw, hi⟩)]
        exact ⟨nofun, fun heq => (by cases heq.1)⟩
      · rw [if_neg hw, if_neg (mt (h i).mp fun heq => hw heq.1)]
        exact h j
  | _ => exact h j

/-- One that is left out has the write transaction or not; for the others it is the same. -/
theorem writerAfter_out {c : Cmd τ κ β} (hi : i ∈ out) (hne : c ≠ .commit)
    (hwait : c.waits writer = false) (j : ι) :
    (c.writerAfter i writer = some j ∧ j ∉ out) ↔ (writer = some j ∧ j ∉ out) := by
  by_cases hbegin : c = .beginWrite
  · subst hbegin
    have hnone : writer = none :=
      Option.isNone_iff_eq_none.mp (Option.isSome_eq_false_iff.mp hwait)
    rw [hnone]
    refine ⟨fun h => ?_, fun h => (by cases h.1)⟩
    rw [← Option.some.inj h.1] at h
    exact absurd hi h.2
  · rw [Cmd.writerAfter_eq hbegin hne]

theorem writer_release (writer : Option ι) (i j : ι) :
    (if writer = some i then none else writer) = some j ↔ writer = some j ∧ j ≠ i := by
  by_cases hw : writer = some i
  · rw [if_pos hw, hw]
    refine ⟨nofun, fun h => ?_⟩
    exact absurd (Option.some.inj h.1).symm h.2
  · rw [if_neg hw]
    refine ⟨fun h => ⟨h, ?_⟩, And.left⟩
    rintro rfl
    exact hw h

end Writer

namespace FSys

variable {ι ω τ κ β ε α : Type} [Ord κ] {body : ω → Prog τ κ β ε α}
  {Q : ω → α → Phase → Prop} {db : Store τ κ β} {s s' : FSys ι ω τ κ β ε α} {i : ι}

/-! ## What is kept by every move -/

/-- What every move keeps: what is left of an operation keeps the discipline, in the failed
phase if a call has failed, and an idle client holds no write transaction. -/
structure Sound (Q : ω → α → Phase → Prop) (s : FSys ι ω τ κ β ε α) : Prop where
  running : ∀ i p, s.procs i = some p → ∃ φ : Phase, p.rest.Obeys (Q p.op) φ ∧ φ.Holds p.txn ∧
    (p.failed = true → φ = .failed)
  idle : ∀ i, s.procs i = none → s.writer ≠ some i
  returned : ∀ d ∈ s.returned, d.failed = true → Q d.op d.result .failed

/-- A client that has a call left has not failed, and its transaction is not over. -/
theorem Sound.calling (h : s.Sound Q) {o : ω} {c : Cmd τ κ β}
    {k : Except (Failure τ ε) c.Ret → Prog τ κ β ε α} {txn : Txn τ κ β} {failed : Bool}
    (hi : s.procs i = some ⟨o, .call c k, txn, failed⟩) :
    failed = false ∧ txn ≠ .closed ∧ ∃ φ : Phase, φ.Allows c ∧ φ.Holds txn ∧
      ∀ r, (k r).Obeys (Q o) (φ.after c r.isOk) := by
  obtain ⟨φ, hobeys, hholds, hfailed⟩ := h.running i _ hi
  have hφ : ¬ φ.Terminal := fun ht => ht.not_allows c hobeys.1
  refine ⟨?_, ?_, φ, hobeys.1, hholds, hobeys.2⟩
  · cases failed with
    | false => rfl
    | true =>
        rw [hfailed rfl] at hφ
        exact absurd trivial hφ
  · rintro rfl
    cases φ with
    | idle => cases hholds
    | reading => obtain ⟨_, h⟩ := hholds; cases h
    | writing => obtain ⟨_, h⟩ := hholds; cases h
    | committed => exact hφ trivial
    | failed => exact hφ trivial

theorem sound_init (db : Store τ κ β) : (init db : FSys ι ω τ κ β ε α).Sound Q where
  running _ _ h := by cases h
  idle _ _ := nofun
  returned _ h := by cases h

/-! ## Leaving operations out -/

/-- The clients whose operation has failed, and has not returned yet. -/
def erring (s : FSys ι ω τ κ β ε α) : Set ι := {i | ∃ p, s.procs i = some p ∧ p.failed = true}

/-- A set of clients whose running operations can be left out: none of them has committed, and
all that have failed are among them. -/
structure Erasable (s : FSys ι ω τ κ β ε α) (out : Set ι) : Prop where
  uncommitted : ∀ i ∈ out, ∃ p, s.procs i = some p ∧ (p.failed = true ∨ p.txn ≠ .closed)
  failed : ∀ i p, s.procs i = some p → p.failed = true → i ∈ out

/-- `s'` is `s` without the operations that have failed and those that the clients in `out` are
doing. -/
structure Erases (out : Set ι) (s : FSys ι ω τ κ β ε α) (s' : Sys ι ω τ κ β ε α) : Prop where
  db : s'.db = s.db
  writer : ∀ i, s'.writer = some i ↔ s.writer = some i ∧ i ∉ out
  idle : ∀ i ∈ out, s'.procs i = none
  procs : ∀ i ∉ out, (s'.procs i).map (fun p => (p.ticket.client, p.ticket.op, p.rest, p.txn))
    = (s.procs i).map fun p => (i, p.op, p.rest, p.txn)
  returned : s'.returned.map (fun d => (d.ticket.client, d.ticket.op, d.result))
    = (s.returned.filter (!·.failed)).map fun d => (d.client, d.op, d.result)

theorem erases_init (db : Store τ κ β) :
    Erases ∅ (init db : FSys ι ω τ κ β ε α) (Sys.init db) where
  db := rfl
  writer _ := ⟨nofun, fun h => (by cases h.1)⟩
  idle _ h := h.elim
  procs _ _ := rfl
  returned := rfl

variable {t : Sys ι ω τ κ β ε α} {out out' : Set ι} {p : Option (FProc ω τ κ β ε α)}
  {writer : Option ι} {returned : List (Outcome ι ω α)}

/-- What `Erases` says of a client that is not left out. -/
theorem Erases.proc (h : Erases out s t) (hi : i ∉ out) {o : ω} {rest : Prog τ κ β ε α}
    {txn : Txn τ κ β} {failed : Bool} (hs : s.procs i = some ⟨o, rest, txn, failed⟩) :
    ∃ ticket logged, t.procs i = some ⟨ticket, rest, txn, logged⟩ ∧ ticket.client = i ∧
      ticket.op = o := by
  have hprocs := h.procs i hi
  rw [hs] at hprocs
  cases ht : t.procs i with
  | none =>
      rw [ht] at hprocs
      cases hprocs
  | some q =>
      obtain ⟨ticket, rest', txn', logged⟩ := q
      rw [ht] at hprocs
      simp only [Option.map_some, Option.some.injEq, Prod.mk.injEq] at hprocs
      obtain ⟨hclient, hop, rfl, rfl⟩ := hprocs
      exact ⟨ticket, logged, rfl, hclient, hop⟩

/-- What has been returned without a failure is returned in the run without faults. -/
theorem Erases.mem_returned (h : Erases out s t) {d : Outcome ι ω α} (hd : d ∈ s.returned)
    (hf : d.failed = false) : ∃ d' ∈ t.returned, d'.ticket.client = d.client ∧
      d'.ticket.op = d.op ∧ d'.result = d.result := by
  have hmem : (d.client, d.op, d.result)
      ∈ (s.returned.filter (!·.failed)).map fun d => (d.client, d.op, d.result) :=
    List.mem_map_of_mem (List.mem_filter.mpr ⟨hd, by simp [hf]⟩)
  rw [← h.returned] at hmem
  obtain ⟨d', hd', heq⟩ := List.mem_map.mp hmem
  simp only [Prod.mk.injEq] at heq
  exact ⟨d', hd', heq⟩

section Moves

variable [DecidableEq ι]

/-- A client goes on. -/
theorem Sound.update (h : s.Sound Q) {p : Option (FProc ω τ κ β ε α)} {writer : Option ι}
    {db : Store τ κ β} {returned : List (Outcome ι ω α)}
    (hp : ∀ p', p = some p' → ∃ φ : Phase, p'.rest.Obeys (Q p'.op) φ ∧ φ.Holds p'.txn ∧
      (p'.failed = true → φ = .failed))
    (hwriter : ∀ j, writer = some j → (j = i ∧ p ≠ none) ∨ (j ≠ i ∧ s.writer = some j))
    (hreturned : ∀ d ∈ returned, d.failed = true → Q d.op d.result .failed) :
    (⟨db, writer, Function.update s.procs i p, returned⟩ : FSys ι ω τ κ β ε α).Sound Q where
  running j p' hj := by
    change Function.update s.procs i p j = some p' at hj
    by_cases hij : j = i
    · subst hij
      rw [Function.update_self] at hj
      exact hp p' hj
    · rw [Function.update_of_ne hij] at hj
      exact h.running j p' hj
  idle j hj hw := by
    change Function.update s.procs i p j = none at hj
    rcases hwriter j hw with ⟨rfl, hne⟩ | ⟨hij, hw⟩
    · rw [Function.update_self] at hj
      exact hne hj
    · rw [Function.update_of_ne hij] at hj
      exact h.idle j hj hw
  returned := hreturned

/-- A client that is left out moves: nothing happens in the other system. -/
theorem Erases.skip (h : Erases out s t) {db' : Store τ κ β} (hdb : db' = s.db)
    (hout : ∀ j ≠ i, (j ∈ out' ↔ j ∈ out)) (hi : t.procs i = none) (hp : i ∈ out' ∨ p = none)
    (hwriter : ∀ j, (writer = some j ∧ j ∉ out') ↔ (s.writer = some j ∧ j ∉ out))
    (hret : returned.filter (!·.failed) = s.returned.filter (!·.failed)) :
    Erases out' (⟨db', writer, Function.update s.procs i p, returned⟩ : FSys ι ω τ κ β ε α) t where
  db := h.db.trans hdb.symm
  writer j := (h.writer j).trans (hwriter j).symm
  idle j hj := by
    by_cases hij : j = i
    · rw [hij, hi]
    · exact h.idle j ((hout j hij).mp hj)
  procs j hj := by
    show _ = (Function.update s.procs i p j).map _
    by_cases hij : j = i
    · subst hij
      rw [hi, Function.update_self, hp.resolve_left hj]
      rfl
    · rw [Function.update_of_ne hij]
      exact h.procs j (mt (hout j hij).mpr hj)
  returned := by
    rw [hret]
    exact h.returned

/-- A client that is not left out moves: it does so in both systems. -/
theorem Erases.move (h : Erases out s t) (hi : i ∉ out) {db' db'' : Store τ κ β}
    (hdb : db'' = db') {p' : Option (Proc ι ω τ κ β ε α)} {writer' : Option ι} {time : Nat}
    {log : List (Entry ι ω)} {returned' : List (Returned ι ω α)}
    (hp : p'.map (fun p => (p.ticket.client, p.ticket.op, p.rest, p.txn))
      = p.map fun p => (i, p.op, p.rest, p.txn))
    (hwriter : ∀ j, writer' = some j ↔ writer = some j ∧ j ∉ out)
    (hret : returned'.map (fun d => (d.ticket.client, d.ticket.op, d.result))
      = (returned.filter (!·.failed)).map fun d => (d.client, d.op, d.result)) :
    Erases out (⟨db', writer, Function.update s.procs i p, returned⟩ : FSys ι ω τ κ β ε α)
      ⟨db'', writer', Function.update t.procs i p', time, log, returned'⟩ where
  db := hdb
  writer := hwriter
  idle j hj := by
    show Function.update t.procs i p' j = none
    have hij : j ≠ i := by
      rintro rfl
      exact hi hj
    rw [Function.update_of_ne hij]
    exact h.idle j hj
  procs j hj := by
    show (Function.update t.procs i p' j).map _ = (Function.update s.procs i p j).map _
    by_cases hij : j = i
    · subst hij
      rw [Function.update_self, Function.update_self]
      exact hp
    · rw [Function.update_of_ne hij, Function.update_of_ne hij]
      exact h.procs j hj
  returned := hret

/-- The clients that are left out may be told before a client goes on if they may be told
after it. -/
theorem Erasable.before (he : Erasable
      (⟨db, writer, Function.update s.procs i p, returned⟩ : FSys ι ω τ κ β ε α) out')
    (hout : ∀ j ≠ i, (j ∈ out ↔ j ∈ out'))
    (hi : i ∈ out → ∃ q, s.procs i = some q ∧ (q.failed = true ∨ q.txn ≠ .closed))
    (hfailed : ∀ q, s.procs i = some q → q.failed = true → i ∈ out) : s.Erasable out where
  uncommitted j hj := by
    by_cases hij : j = i
    · subst hij
      exact hi hj
    · obtain ⟨q, hq, hopen⟩ := he.uncommitted j ((hout j hij).mp hj)
      change Function.update s.procs i p j = some q at hq
      rw [Function.update_of_ne hij] at hq
      exact ⟨q, hq, hopen⟩
  failed j q hq hqf := by
    by_cases hij : j = i
    · subst hij
      exact hfailed q hq hqf
    · refine (hout j hij).mpr (he.failed j q ?_ hqf)
      show Function.update s.procs i p j = some q
      rw [Function.update_of_ne hij, hq]

variable [DecidableEq τ] [Std.TransOrd κ]

theorem Sound.next (hbody : ∀ o, (body o).Obeys (Q o) .idle) (h : s.Sound Q) {m : FMove ι ω ε}
    (hm : s.next body m = some s') : s'.Sound Q := by
  rcases next_cases hm with ⟨i, o, -, hi, rfl⟩ | ⟨i, o, c, k, txn, failed, -, hi, -, rfl⟩ |
    ⟨i, o, a, txn, failed, -, hi, rfl⟩ | ⟨i, e, o, c, k, txn, failed, -, hi, rfl⟩
  · refine h.update ?_ ?_ h.returned
    · rintro _ ⟨⟩
      exact ⟨.idle, hbody o, rfl, nofun⟩
    · intro j hj
      refine Or.inr ⟨?_, hj⟩
      rintro rfl
      exact h.idle j hi hj
  · obtain ⟨rfl, -, φ, hallows, hholds, hk⟩ := h.calling hi
    refine h.update ?_ ?_ h.returned
    · rintro _ ⟨⟩
      exact ⟨_, hk _, perform_holds hallows s.db hholds, nofun⟩
    · intro j hj
      by_cases hij : j = i
      · exact Or.inl ⟨hij, nofun⟩
      · refine Or.inr ⟨hij, ?_⟩
        cases c with
        | beginWrite => exact absurd (Option.some.inj hj).symm hij
        | commit =>
            simp only [Cmd.writerAfter] at hj
            split at hj
            · cases hj
            · exact hj
        | _ => exact hj
  · obtain ⟨φ, hobeys, -, hfailed⟩ := h.running i _ hi
    refine h.update nofun ?_ ?_
    · intro j hj
      split at hj
      · cases hj
      · next hne =>
          refine Or.inr ⟨?_, hj⟩
          rintro rfl
          exact hne hj
    · intro d hd hdf
      rcases List.mem_append.mp hd with hd | hd
      · exact h.returned d hd hdf
      · obtain rfl := List.mem_singleton.mp hd
        rw [← hfailed hdf]
        exact hobeys
  · obtain ⟨-, -, φ, -, -, hk⟩ := h.calling hi
    refine h.update ?_ ?_ h.returned
    · rintro _ ⟨⟩
      exact ⟨.failed, hk (.error (.fault e)), trivial, fun _ => rfl⟩
    · intro j hj
      by_cases hij : j = i
      · exact Or.inl ⟨hij, nofun⟩
      · refine Or.inr ⟨hij, ?_⟩
        cases c with
        | commit =>
            simp only [Cmd.writerFault] at hj
            split at hj
            · cases hj
            · exact hj
        | _ => exact hj

/-- **One move.** Whoever is to be left out after it, there is somebody to leave out before it,
and then the other system makes no move or the same one. -/
theorem Sound.erase_next (hs : s.Sound Q) {m : FMove ι ω ε} (hm : s.next body m = some s')
    (he : s'.Erasable out') :
    ∃ out, s.Erasable out ∧ ∀ t, Erases out s t → Erases out' s' t ∨
      ∃ m' t', m.sound? = some m' ∧ t.next body m' = some t' ∧ Erases out' s' t' := by
  rcases next_cases hm with ⟨i, o, rfl, hi, rfl⟩ | ⟨i, o, c, k, txn, failed, rfl, hi, hwait, rfl⟩ |
    ⟨i, o, a, txn, failed, rfl, hi, rfl⟩ | ⟨i, e, o, c, k, txn, failed, rfl, hi, rfl⟩
  · -- an operation begins, to be left out or not
    refine ⟨SDiff.sdiff out' {i}, he.before (fun j hij => by simp [hij])
      (fun h => (h.2 rfl).elim) ?_, ?_⟩
    · rw [hi]
      exact nofun
    intro t ht
    have hidle : t.procs i = none := by
      have hprocs := ht.procs i fun h => h.2 rfl
      rw [hi] at hprocs
      exact Option.map_eq_none_iff.mp hprocs
    by_cases hmem : i ∈ out'
    · refine Or.inl (ht.skip rfl (fun j hij => by simp [hij]) hidle (Or.inl hmem) (fun j => ?_) rfl)
      have hne : s.writer = some j → j ≠ i := by
        rintro hj rfl
        exact hs.idle j hi hj
      refine and_congr_right fun hj => not_congr ?_
      simp [hne hj]
    · rw [Set.sdiff_singleton_eq_self hmem] at ht
      refine Or.inr ⟨_, _, rfl, by simp only [Sys.next, hidle]; rfl, ?_⟩
      exact ht.move hmem ht.db rfl ht.writer ht.returned
  · obtain ⟨rfl, hopen, φ, hallows, hholds, -⟩ := hs.calling hi
    refine ⟨out', he.before (fun _ _ => Iff.rfl) (fun _ => ⟨_, hi, Or.inr hopen⟩) ?_, ?_⟩
    · intro q hq hqf
      rw [hi] at hq
      cases hq
      cases hqf
    intro t ht
    by_cases hmem : i ∈ out'
    · -- it does not commit, since it may be left out afterwards
      have hne : c ≠ .commit := by
        rintro rfl
        obtain ⟨q, hq, hqopen⟩ := he.uncommitted i hmem
        change Function.update s.procs i _ i = some q at hq
        rw [Function.update_self] at hq
        cases hq
        cases φ with
        | writing =>
            obtain ⟨w, rfl⟩ := hholds
            rcases hqopen with h | h
            · cases h
            · exact h rfl
        | _ => exact hallows.elim
      left
      exact ht.skip (perform_db hne s.db txn) (fun _ _ => Iff.rfl) (ht.idle i hmem) (Or.inl hmem)
        (writerAfter_out hmem hne hwait) rfl
    · obtain ⟨ticket, logged, hti, hclient, hop⟩ := ht.proc hmem hi
      have hwait' : c.waits t.writer = false := by
        cases c with
        | beginWrite =>
            cases htw : t.writer with
            | none => rfl
            | some j =>
                have hj := ((ht.writer j).mp htw).1
                rw [hj] at hwait
                cases hwait
        | _ => rfl
      refine Or.inr ⟨_, _, rfl, by
        simp only [Sys.next, hti, hwait', Bool.false_eq_true, if_false]; rfl, ?_⟩
      refine ht.move hmem ?_ ?_ (writerAfter_iff hmem ht.writer) ht.returned
      · rw [ht.db]
      · simp only [Option.map_some, ht.db, hclient, hop]
  · by_cases hf : failed = true
    · -- it has failed, and is left out until it returns
      refine ⟨insert i out', he.before (fun j hij => by simp [hij])
        (fun _ => ⟨_, hi, Or.inl hf⟩) (fun _ _ _ => Set.mem_insert i out'), fun t ht => Or.inl ?_⟩
      refine ht.skip rfl (fun j hij => by simp [hij]) (ht.idle i (Set.mem_insert i out'))
        (Or.inr rfl) (fun j => ?_) ?_
      · rw [writer_release, Set.mem_insert_iff, not_or, and_assoc]
      · rw [List.filter_append, hf]
        simp
    · have hmem : i ∉ out' := by
        intro hmem
        obtain ⟨q, hq, -⟩ := he.uncommitted i hmem
        change Function.update s.procs i none i = some q at hq
        rw [Function.update_self] at hq
        cases hq
      refine ⟨out', he.before (fun _ _ => Iff.rfl) (fun h => absurd h hmem) ?_, ?_⟩
      · intro q hq hqf
        rw [hi] at hq
        cases hq
        exact absurd hqf hf
      intro t ht
      obtain ⟨ticket, logged, hti, hclient, hop⟩ := ht.proc hmem hi
      refine Or.inr ⟨_, _, rfl, by simp only [Sys.next, hti]; rfl, ?_⟩
      refine ht.move hmem ht.db rfl (fun j => ?_) ?_
      · rw [writer_release, writer_release, ht.writer, and_right_comm]
      · rw [List.filter_append, List.map_append, List.map_append, ht.returned]
        simp [hf, hclient, hop]
  · obtain ⟨rfl, hopen, -⟩ := hs.calling hi
    have hmem : i ∈ out' := he.failed i _ (Function.update_self ..) rfl
    refine ⟨out', he.before (fun _ _ => Iff.rfl) (fun _ => ⟨_, hi, Or.inr hopen⟩)
      (fun _ _ _ => hmem), fun t ht => Or.inl ?_⟩
    refine ht.skip rfl (fun _ _ => Iff.rfl) (ht.idle i hmem) (Or.inl hmem) (fun j => ?_) rfl
    cases c with
    | commit =>
        simp only [Cmd.writerFault, writer_release]
        refine ⟨fun h => ⟨h.1.1, h.2⟩, fun h => ⟨⟨h.1, ?_⟩, h.2⟩⟩
        rintro rfl
        exact h.2 hmem
    | _ => exact Iff.rfl

/-- **Operations that fail can be left out.** In every state that is reached, let `out` be
clients with operations that have not committed, those that have failed among them. Some of the
moves make a run without faults that has the same committed contents, in which the other
operations are where they are here, and return what they returned here, in the same order. -/
theorem Reaches.erase (hbody : ∀ o, (body o).Obeys (Q o) .idle) {ms : List (FMove ι ω ε)}
    (h : Reaches body db ms s) : s.Sound Q ∧ ∀ out, s.Erasable out →
      ∃ ms' t, ms'.Sublist (ms.filterMap FMove.sound?) ∧ (Sys.init db).run body ms' = some t ∧
        Erases out s t := by
  induction h with
  | init =>
      refine ⟨sound_init db, fun out hout => ⟨[], Sys.init db, List.Sublist.refl _, rfl, ?_⟩⟩
      have hempty : out = ∅ := by
        refine Set.eq_empty_of_forall_notMem fun i hi => ?_
        obtain ⟨p, hp, -⟩ := hout.uncommitted i hi
        cases hp
      rw [hempty]
      exact erases_init db
  | @next ms s s' m _ hm ih =>
      obtain ⟨hs, hrun⟩ := ih
      refine ⟨hs.next hbody hm, fun out' he => ?_⟩
      obtain ⟨out, hout, hstep⟩ := hs.erase_next hm he
      obtain ⟨ms', t, hsub, ht, herases⟩ := hrun out hout
      rw [List.filterMap_append]
      rcases hstep t herases with hskip | ⟨m', t', hm', ht', hmove⟩
      · exact ⟨ms', t, hsub.trans (List.sublist_append_left _ _), ht, hskip⟩
      · refine ⟨ms' ++ [m'], t', hsub.append ?_, Sys.run_snoc ht ht', hmove⟩
        rw [List.filterMap_cons, hm', List.filterMap_nil]

/-- A run `t` without faults that explains a state `s` with faults, which the moves `ms` have
reached from `db`: nothing but the operations that failed has been left out. -/
structure Explained (body : ω → Prog τ κ β ε α) (db : Store τ κ β) (ms : List (FMove ι ω ε))
    (s : FSys ι ω τ κ β ε α) (t : Sys ι ω τ κ β ε α) : Prop where
  /-- The run consists of moves that were made, in the order in which they were made. -/
  moves : ∃ ms', ms'.Sublist (ms.filterMap FMove.sound?) ∧ (Sys.init db).run body ms' = some t
  /-- The operations in which no call failed are where they are in `s`. -/
  erases : Erases s.erring s t
  linearized : Linearized body db t

theorem Explained.contents {ms : List (FMove ι ω ε)} (h : Explained body db ms s t) :
    s.db = replay body db t.log := by
  rw [← h.erases.db, h.linearized.contents]

/-- What was returned without a failure has its place in the log. -/
theorem Explained.results {ms : List (FMove ι ω ε)} (h : Explained body db ms s t)
    {d : Outcome ι ω α} (hd : d ∈ s.returned) (hf : d.failed = false) :
    ∃ before e after, t.log = before ++ e :: after ∧ e.ticket.client = d.client ∧
      e.ticket.op = d.op ∧ d.result = (exec [] (body d.op) (replay body db before)).1 := by
  obtain ⟨d', hd', hclient, hop, hresult⟩ := h.erases.mem_returned hd hf
  obtain ⟨before, e, after, hlog, het, -, hr⟩ := h.linearized.results d' hd'
  refine ⟨before, e, after, hlog, ?_, ?_, ?_⟩
  · rw [het, hclient]
  · rw [het, hop]
  · rw [← hresult, hr, hop]

/-- **Faults are explained.** In every state that is reached the operations that have failed
have ended as the discipline says, and a run without them explains everything else. -/
theorem Reaches.explained (hbody : ∀ o, (body o).Obeys (Q o) .idle)
    (hQ : ∀ o a φ, Q o a φ → φ ≠ .writing) {ms : List (FMove ι ω ε)} (h : Reaches body db ms s) :
    (∃ t, Explained body db ms s t) ∧
      ∀ d ∈ s.returned, d.failed = true → Q d.op d.result .failed := by
  obtain ⟨hsound, herase⟩ := h.erase hbody
  obtain ⟨ms', t, hsub, hrun, herases⟩ := herase s.erring
    ⟨fun i ⟨p, hp, hf⟩ => ⟨p, hp, Or.inl hf⟩, fun i p hp hf => ⟨p, hp, hf⟩⟩
  have hlin : Linearized body db t := reachable_linearized
    (fun o => (hbody o).mono (hQ o)) (Sys.Reachable.init.run ms' hrun)
  exact ⟨⟨t, ⟨ms', hsub, hrun⟩, herases, hlin⟩, hsound.returned⟩

end Moves

end FSys

end TxStore
