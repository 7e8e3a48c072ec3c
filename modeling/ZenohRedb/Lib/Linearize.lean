import ZenohRedb.Lib.Discipline

set_option autoImplicit false

/-! # Concurrent clients of a store

Clients run operations, each of them a program over the store, and their calls interleave in
any order (`Sys.next`). A write transaction excludes other write transactions, a read
transaction looks at the contents committed last when it began, and nothing else is
synchronized.

If every operation keeps the discipline of `Lib/Discipline.lean` and gives up no write
transaction, every history is linearizable (`Linearized`, `reachable_linearized`). The order
is the log of the system: an operation that writes enters it at its commit, one that reads at
its `beginRead`, and one that makes no transaction when it returns (`Prog.point`).

The proof follows one client. Before its place in the log, what is left of its operation
would still end as the whole operation does, run alone from here; behind it, what is left
neither depends on the store nor changes it (`ProcInv`).
-/

namespace TxStore

/-- Where an operation takes effect: at its `beginRead`, at its commit, or when it returns. -/
inductive Point
  | beginRead
  | commit
  | ret
  deriving DecidableEq

/-- The calls at which an operation takes effect. -/
def Cmd.point? {τ κ β : Type} : Cmd τ κ β → Option Point
  | .beginRead => some .beginRead
  | .commit => some .commit
  | _ => none

/-- Where an operation takes effect, by how it begins. -/
def Prog.point {τ κ β ε α : Type} : Prog τ κ β ε α → Point
  | .ret _ => .ret
  | .call .beginRead _ => .beginRead
  | .call _ _ => .commit

/-- Whether a call has to wait while `writer` holds the write transaction. -/
def Cmd.waits {ι τ κ β : Type} (c : Cmd τ κ β) (writer : Option ι) : Bool :=
  match c with
  | .beginWrite => writer.isSome
  | _ => false

/-- One execution of an operation: when it was invoked, by whom, and what it is. -/
structure Ticket (ι ω : Type) where
  invoked : Nat
  client : ι
  op : ω

/-- An operation in the log, with the time at which it took effect and where in its program
that was. -/
structure Entry (ι ω : Type) where
  ticket : Ticket ι ω
  time : Nat
  point : Point

/-- An operation that has returned: its result, and when it did. -/
structure Returned (ι ω α : Type) where
  ticket : Ticket ι ω
  result : α
  time : Nat

/-- What a client is doing: what is left of its operation, the transaction it holds, and
whether the operation is in the log already. -/
structure Proc (ι ω τ κ β ε α : Type) [Ord κ] where
  ticket : Ticket ι ω
  rest : Prog τ κ β ε α
  txn : Txn τ κ β
  logged : Bool

/-- An operation enters the log at its point, unless it is in it already. -/
def enterLog {ι ω : Type} (log : List (Entry ι ω)) (t : Ticket ι ω) (time : Nat)
    (logged : Bool) (point : Option Point) : List (Entry ι ω) :=
  match logged, point with
  | false, some pt => log ++ [⟨t, time, pt⟩]
  | _, _ => log

/-- The store with its clients. `writer` holds the write transaction, if there is one. The
time counts steps; `log` and `returned` record what happened. -/
structure Sys (ι ω τ κ β ε α : Type) [Ord κ] where
  db : Store τ κ β
  writer : Option ι
  procs : ι → Option (Proc ι ω τ κ β ε α)
  time : Nat
  log : List (Entry ι ω)
  returned : List (Returned ι ω α)

/-- Who moves next: a client without an operation invokes one, or a client makes the next
call of its operation, or returns from it. -/
inductive Move (ι ω : Type)
  | invoke (i : ι) (o : ω)
  | call (i : ι)
  | ret (i : ι)

section Systems

variable {ι ω τ κ β ε α : Type} [DecidableEq τ] [Ord κ] [Std.TransOrd κ]

/-- The holder of the write transaction after a call of client `i`. -/
def Cmd.writerAfter [DecidableEq ι] (c : Cmd τ κ β) (i : ι) (writer : Option ι) : Option ι :=
  match c with
  | .beginWrite => some i
  | .commit => if writer = some i then none else writer
  | _ => writer

omit [DecidableEq τ] [Ord κ] [Std.TransOrd κ] in
/-- Calls inside a transaction leave the write transaction with its holder. -/
theorem Cmd.writerAfter_eq [DecidableEq ι] {c : Cmd τ κ β} (hbegin : c ≠ .beginWrite)
    (hcommit : c ≠ .commit) (i : ι) (writer : Option ι) : c.writerAfter i writer = writer := by
  cases c with
  | beginWrite => exact absurd rfl hbegin
  | commit => exact absurd rfl hcommit
  | _ => rfl

namespace Sys

/-- The system before any client has done anything. -/
def init (db : Store τ κ β) : Sys ι ω τ κ β ε α := ⟨db, none, fun _ => none, 0, [], []⟩

/-- One move, or `none` if it is not possible. `beginWrite` waits until no write transaction
is live; a client that returns drops its transaction. -/
def next [DecidableEq ι] (body : ω → Prog τ κ β ε α) (s : Sys ι ω τ κ β ε α) :
    Move ι ω → Option (Sys ι ω τ κ β ε α)
  | .invoke i o =>
      match s.procs i with
      | some _ => none
      | none =>
          let t : Ticket ι ω := ⟨s.time, i, o⟩
          some { s with
            procs := Function.update s.procs i (some ⟨t, body o, .idle, false⟩)
            time := s.time + 1 }
  | .call i =>
      match s.procs i with
      | some ⟨t, .call c k, txn, logged⟩ =>
          if c.waits s.writer then none
          else
            some { s with
              db := (perform (ε := ε) c s.db txn).2.1
              writer := c.writerAfter i s.writer
              procs := Function.update s.procs i (some
                ⟨t, k (perform c s.db txn).1, (perform (ε := ε) c s.db txn).2.2,
                  logged || c.point?.isSome⟩)
              log := enterLog s.log t s.time logged c.point?
              time := s.time + 1 }
      | _ => none
  | .ret i =>
      match s.procs i with
      | some ⟨t, .ret a, _, logged⟩ =>
          some { s with
            writer := if s.writer = some i then none else s.writer
            procs := Function.update s.procs i none
            log := enterLog s.log t s.time logged (some .ret)
            returned := s.returned ++ [⟨t, a, s.time⟩]
            time := s.time + 1 }
      | _ => none

/-- The states reached by possible moves. -/
inductive Reachable [DecidableEq ι] (body : ω → Prog τ κ β ε α) (db : Store τ κ β) :
    Sys ι ω τ κ β ε α → Prop
  | init : Reachable body db (init db)
  | next {s s' : Sys ι ω τ κ β ε α} (m : Move ι ω) (h : Reachable body db s)
      (hm : s.next body m = some s') : Reachable body db s'

/-- Make the moves of a list, as long as they are possible. -/
def run [DecidableEq ι] (body : ω → Prog τ κ β ε α) (s : Sys ι ω τ κ β ε α) :
    List (Move ι ω) → Option (Sys ι ω τ κ β ε α)
  | [] => some s
  | m :: ms => (s.next body m).bind (run body · ms)

theorem Reachable.run [DecidableEq ι] {body : ω → Prog τ κ β ε α} {db : Store τ κ β}
    {s s' : Sys ι ω τ κ β ε α} (h : Reachable body db s) (ms : List (Move ι ω))
    (hms : s.run body ms = some s') : Reachable body db s' := by
  induction ms generalizing s with
  | nil =>
      cases hms
      exact h
  | cons m ms ih =>
      obtain ⟨s₁, hm, hrest⟩ := Option.bind_eq_some_iff.mp hms
      exact ih (h.next m hm) hrest

end Sys

/-! ## Linearizability -/

/-- The contents after the operations of a log, one at a time. -/
def replay (body : ω → Prog τ κ β ε α) (db : Store τ κ β) (log : List (Entry ι ω)) :
    Store τ κ β :=
  log.foldl (fun db e => (exec [] (body e.ticket.op) db).2) db

/-- `r` is the result of the operation `t` at its place in the log, which it took at `time`
or before. -/
def Placed (body : ω → Prog τ κ β ε α) (db : Store τ κ β) (log : List (Entry ι ω))
    (t : Ticket ι ω) (r : α) (time : Nat) : Prop :=
  ∃ before e after, log = before ++ e :: after ∧ e.ticket = t ∧ e.time ≤ time ∧
    r = (exec [] (body t.op) (replay body db before)).1

/-- The operation of a client that is running and has taken effect, if there is one. -/
def pending : Option (Proc ι ω τ κ β ε α) → List (Ticket ι ω)
  | some p => if p.logged then [p.ticket] else []
  | none => []

/-- The log explains the history: the operations in it, executed one at a time from the
initial contents `db`, give the results that were returned and the contents that are
committed. -/
structure Linearized [DecidableEq ι] (body : ω → Prog τ κ β ε α) (db : Store τ κ β)
    (s : Sys ι ω τ κ β ε α) : Prop where
  /-- The committed contents are those after the log. -/
  contents : s.db = replay body db s.log
  /-- An operation that has returned is in the log, and its result is the one it has there. -/
  results : ∀ d ∈ s.returned, Placed body db s.log d.ticket d.result d.time
  /-- No operation is in the log twice. -/
  once : (s.log.map Entry.ticket).Nodup
  /-- The operations of a client are in the log in the order in which it ran them: those that
  have returned, and then the one that is running, if it has taken effect. -/
  program : ∀ i, (s.log.map Entry.ticket).filter (·.client = i)
    = (s.returned.map Returned.ticket).filter (·.client = i) ++ pending (s.procs i)
  /-- Every operation took effect where its program says. -/
  points : ∀ e ∈ s.log, e.point = (body e.ticket.op).point
  /-- The log is in the order of time, and every operation takes effect after it was invoked. -/
  times : s.log.Pairwise (fun e e' => e.time < e'.time) ∧ ∀ e ∈ s.log, e.ticket.invoked ≤ e.time
  /-- An operation that returned before another was invoked precedes it in the log. -/
  realTime : ∀ d ∈ s.returned, ∀ e ∈ s.log, d.time < e.ticket.invoked →
    ∃ before e' after, s.log = before ++ e' :: after ∧ e'.ticket = d.ticket ∧ e ∈ after

theorem replay_append (body : ω → Prog τ κ β ε α) (db : Store τ κ β)
    (log more : List (Entry ι ω)) :
    replay body db (log ++ more) = replay body (replay body db log) more := by
  unfold replay
  rw [List.foldl_append]

/-- A place in the log is kept when the log grows. -/
theorem Placed.append {body : ω → Prog τ κ β ε α} {db : Store τ κ β} {log : List (Entry ι ω)}
    {t : Ticket ι ω} {r : α} {time time' : Nat} (h : Placed body db log t r time)
    (ht : time ≤ time') (more : List (Entry ι ω)) :
    Placed body db (log ++ more) t r time' := by
  obtain ⟨before, e, after, hlog, he, htime, hr⟩ := h
  refine ⟨before, e, after ++ more, ?_, he, htime.trans ht, hr⟩
  rw [hlog, List.append_assoc, List.cons_append]

/-- The operation that entered the log last. -/
theorem placed_last {body : ω → Prog τ κ β ε α} {db : Store τ κ β} {log : List (Entry ι ω)}
    {t : Ticket ι ω} {r : α} {time time' : Nat} {pt : Point}
    (hr : r = (exec [] (body t.op) (replay body db log)).1) (ht : time ≤ time') :
    Placed body db (log ++ [⟨t, time, pt⟩]) t r time' :=
  ⟨log, ⟨t, time, pt⟩, [], rfl, rfl, ht, hr⟩

/-! ## What is left of an operation -/

/-- How far client `i` is with its operation, and what is left of it.

* `fresh`: it has made no call yet.
* `writing`: it holds the write transaction and will commit it. What is left ends as the
  whole operation does, run alone on the committed contents.
* `reading`: it is in the log and holds a read transaction. What is left gives the result it
  has there.
* `answered`: it is in the log and only has to return the result it has there. -/
inductive ProcInv (body : ω → Prog τ κ β ε α) (db : Store τ κ β) (s : Sys ι ω τ κ β ε α)
    (i : ι) : Proc ι ω τ κ β ε α → Prop
  | fresh (t : Ticket ι ω) (p : Prog τ κ β ε α) (hw : s.writer ≠ some i) (hp : p = body t.op) :
      ProcInv body db s i ⟨t, p, .idle, false⟩
  | writing (t : Ticket ι ω) (p : Prog τ κ β ε α) (w : Store τ κ β)
      (hw : s.writer = some i) (hpoint : (body t.op).point = .commit)
      (hp : p.Obeys (fun _ ψ => ψ ≠ .writing) .writing)
      (hrun : (p.run ⟨s.db, .write w, []⟩).1 = (exec [] (body t.op) s.db).1 ∧
        (p.run ⟨s.db, .write w, []⟩).2.db = (exec [] (body t.op) s.db).2) :
      ProcInv body db s i ⟨t, p, .write w, false⟩
  | reading (t : Ticket ι ω) (p : Prog τ κ β ε α) (snap : Store τ κ β) (r : α)
      (hw : s.writer ≠ some i) (hp : p.Obeys (fun _ ψ => ψ ≠ .writing) .reading)
      (hr : Placed body db s.log t r s.time)
      (hrun : ∀ db', (p.run ⟨db', .read snap, []⟩).1 = r) :
      ProcInv body db s i ⟨t, p, .read snap, true⟩
  | answered (t : Ticket ι ω) (txn : Txn τ κ β) (r : α) (hw : s.writer ≠ some i)
      (hr : Placed body db s.log t r s.time) : ProcInv body db s i ⟨t, .ret r, txn, true⟩

/-- What a move of another client leaves of `ProcInv`. The committed contents may have
changed unless this client holds the write transaction. -/
theorem ProcInv.frame {body : ω → Prog τ κ β ε α} {db : Store τ κ β} {s s' : Sys ι ω τ κ β ε α}
    {i : ι} {p : Proc ι ω τ κ β ε α} (h : ProcInv body db s i p)
    (hw : s'.writer = some i ↔ s.writer = some i) (hdb : s.writer = some i → s'.db = s.db)
    (hlog : ∃ more, s'.log = s.log ++ more) (htime : s.time ≤ s'.time) :
    ProcInv body db s' i p := by
  obtain ⟨more, hlog⟩ := hlog
  -- only a writer depends on the committed contents, and no one else changes them meanwhile
  cases h with
  | fresh t p hw' hp => exact .fresh t p (fun h => hw' (hw.mp h)) hp
  | writing t p w hw' hpoint hp hrun =>
      refine .writing t p w (hw.mpr hw') hpoint hp ?_
      rw [hdb hw']
      exact hrun
  | reading t p snap r hw' hp hr hrun =>
      refine .reading t p snap r (fun h => hw' (hw.mp h)) hp ?_ hrun
      rw [hlog]
      exact hr.append htime more
  | answered t txn r hw' hr =>
      refine .answered t txn r (fun h => hw' (hw.mp h)) ?_
      rw [hlog]
      exact hr.append htime more

/-! ## The invariant of the system -/

/-- The log explains the history so far, and every running operation can be completed in
accordance with it. -/
structure SysInv [DecidableEq ι] (body : ω → Prog τ κ β ε α) (db : Store τ κ β)
    (s : Sys ι ω τ κ β ε α) : Prop where
  contents : s.db = replay body db s.log
  results : ∀ d ∈ s.returned, Placed body db s.log d.ticket d.result d.time
  once : (s.log.map Entry.ticket).Nodup
  program : ∀ i, (s.log.map Entry.ticket).filter (·.client = i)
    = (s.returned.map Returned.ticket).filter (·.client = i) ++ pending (s.procs i)
  points : ∀ e ∈ s.log, e.point = (body e.ticket.op).point
  sorted : s.log.Pairwise fun e e' => e.time < e'.time
  past : ∀ e ∈ s.log, e.ticket.invoked ≤ e.time ∧ e.time < s.time
  holder : ∀ i, s.procs i = none → s.writer ≠ some i
  running : ∀ i p, s.procs i = some p → p.ticket.client = i ∧ p.ticket.invoked < s.time ∧
    (p.logged = false → p.ticket ∉ s.log.map Entry.ticket) ∧ ProcInv body db s i p

section Steps

variable [DecidableEq ι] {body : ω → Prog τ κ β ε α} {db : Store τ κ β} {s s' : Sys ι ω τ κ β ε α}

theorem sysInv_init : SysInv body db (Sys.init db : Sys ι ω τ κ β ε α) where
  contents := rfl
  results d hd := by cases hd
  once := List.nodup_nil
  program _ := rfl
  points e he := by cases he
  sorted := List.Pairwise.nil
  past e he := by cases he
  holder _ _ := nofun
  running i p hp := by cases hp

/-- What the log says about the order of two operations one of which had returned before the
other was invoked. -/
theorem SysInv.realTime (h : SysInv body db s) {d : Returned ι ω α} (hd : d ∈ s.returned)
    {e : Entry ι ω} (he : e ∈ s.log) (hlt : d.time < e.ticket.invoked) :
    ∃ before e' after, s.log = before ++ e' :: after ∧ e'.ticket = d.ticket ∧ e ∈ after := by
  obtain ⟨before, e', after, hlog, hticket, htime, -⟩ := h.results d hd
  have hpast := (h.past e he).1
  have hsorted := h.sorted
  refine ⟨before, e', after, hlog, hticket, ?_⟩
  rw [hlog] at he hsorted
  rcases List.mem_append.mp he with hbefore | hrest
  · -- an earlier entry took effect before `e'`, so it was not invoked after `d` returned
    have hearlier := (List.pairwise_append.mp hsorted).2.2 e hbefore e' (by simp)
    omega
  · rcases List.mem_cons.mp hrest with rfl | hafter
    · omega
    · exact hafter

theorem SysInv.linearized (h : SysInv body db s) : Linearized body db s where
  contents := h.contents
  results := h.results
  once := h.once
  program := h.program
  points := h.points
  times := ⟨h.sorted, fun e he => (h.past e he).1⟩
  realTime _ hd _ he hlt := h.realTime hd he hlt

/-- Tickets of client `i`, restricted to those of client `j`. -/
theorem filter_client {i : ι} {ts : List (Ticket ι ω)} (h : ∀ t ∈ ts, t.client = i) (j : ι) :
    ts.filter (·.client = j) = if j = i then ts else [] := by
  split
  · subst j
    exact List.filter_eq_self.mpr fun t ht => decide_eq_true (h t ht)
  · refine List.filter_eq_nil_iff.mpr fun t ht hj => ?_
    have hclient := h t ht
    have hj' := of_decide_eq_true hj
    rw [hclient] at hj'
    exact absurd hj'.symm ‹_›

theorem SysInv.pending_client (h : SysInv body db s) {i : ι} {t : Ticket ι ω}
    (ht : t ∈ pending (s.procs i)) : t.client = i := by
  cases hp : s.procs i with
  | none =>
      rw [hp] at ht
      cases ht
  | some p =>
      rw [hp] at ht
      have hmem : t ∈ if p.logged then [p.ticket] else [] := ht
      cases hl : p.logged with
      | false => simp [hl] at hmem
      | true =>
          rw [hl, if_pos rfl, List.mem_singleton] at hmem
          rw [hmem]
          exact (h.running i p hp).1

/-- A move of client `i`, which is left with `p'`, has put `new` into the log if there is
anything new, and has returned `more`. -/
structure Moved (body : ω → Prog τ κ β ε α) (db : Store τ κ β) (s s' : Sys ι ω τ κ β ε α) (i : ι)
    (p' : Option (Proc ι ω τ κ β ε α)) (new : Option (Entry ι ω)) (more : List (Returned ι ω α)) :
    Prop where
  procs : s'.procs = Function.update s.procs i p'
  time : s'.time = s.time + 1
  log : s'.log = s.log ++ new.toList
  returned : s'.returned = s.returned ++ more
  contents : s'.db = replay body s.db new.toList
  others : ∀ j, j ≠ i → (s'.writer = some j ↔ s.writer = some j) ∧
    (s.writer = some j → s'.db = s.db)
  entered : ∀ e ∈ new, e.ticket.client = i ∧ e.ticket.invoked ≤ s.time ∧ e.time = s.time ∧
    e.point = (body e.ticket.op).point ∧ e.ticket ∉ s.log.map Entry.ticket
  own : more.map Returned.ticket ++ pending p'
    = pending (s.procs i) ++ new.toList.map Entry.ticket
  placed : ∀ d ∈ more, Placed body db s'.log d.ticket d.result d.time
  free : p' = none → s'.writer ≠ some i
  running : ∀ p, p' = some p → p.ticket.client = i ∧ p.ticket.invoked < s'.time ∧
    (p.logged = false → p.ticket ∉ s'.log.map Entry.ticket) ∧ ProcInv body db s' i p

section Moved

variable {i : ι} {p' : Option (Proc ι ω τ κ β ε α)} {new : Option (Entry ι ω)}
  {more : List (Returned ι ω α)}

/-- The operation that enters the log was not in it. -/
theorem Moved.once (hm : Moved body db s s' i p' new more) (h : SysInv body db s) :
    (s'.log.map Entry.ticket).Nodup := by
  rw [hm.log]
  cases hnew : new with
  | none => simpa using h.once
  | some e =>
      have hfresh := (hm.entered e hnew).2.2.2.2
      rw [Option.toList_some, List.map_append, List.nodup_append]
      refine ⟨h.once, by simp, ?_⟩
      intro t ht t' ht' heq
      obtain rfl : t' = e.ticket := List.mem_singleton.mp ht'
      exact hfresh (heq ▸ ht)

/-- What is new, in the log and among the results, is of client `i`. -/
theorem Moved.program (hm : Moved body db s s' i p' new more) (h : SysInv body db s) (j : ι) :
    (s'.log.map Entry.ticket).filter (·.client = j)
      = (s'.returned.map Returned.ticket).filter (·.client = j) ++ pending (s'.procs j) := by
  have hnew : ∀ t ∈ new.toList.map Entry.ticket, t.client = i := by
    intro t ht
    obtain ⟨e, he, rfl⟩ := List.mem_map.mp ht
    exact (hm.entered e (Option.mem_toList.mp he)).1
  have hmore : ∀ t ∈ more.map Returned.ticket, t.client = i := by
    intro t ht
    have hmem : t ∈ pending (s.procs i) ++ new.toList.map Entry.ticket :=
      hm.own ▸ List.mem_append_left _ ht
    rcases List.mem_append.mp hmem with hmem | hmem
    · exact h.pending_client hmem
    · exact hnew t hmem
  rw [hm.log, hm.returned, hm.procs, List.map_append, List.map_append, List.filter_append,
    List.filter_append, filter_client hnew, filter_client hmore, h.program j]
  by_cases hj : j = i
  · subst hj
    rw [if_pos rfl, if_pos rfl, Function.update_self, List.append_assoc, List.append_assoc, hm.own]
  · rw [if_neg hj, if_neg hj, Function.update_of_ne hj, List.append_nil, List.append_nil]

/-- Whatever was in the log took effect before now. -/
theorem Moved.sorted (hm : Moved body db s s' i p' new more) (h : SysInv body db s) :
    s'.log.Pairwise fun e e' => e.time < e'.time := by
  rw [hm.log, List.pairwise_append]
  refine ⟨h.sorted, ?_, ?_⟩
  · cases new with
    | none => exact List.Pairwise.nil
    | some e => exact List.pairwise_singleton _ _
  · intro e he e' he'
    have htime := (hm.entered e' (Option.mem_toList.mp he')).2.2.1
    have hpast := (h.past e he).2
    omega

/-- An entry of the log was there before, or is the new one. -/
theorem Moved.mem_log (hm : Moved body db s s' i p' new more) {e : Entry ι ω}
    (he : e ∈ s'.log) : e ∈ s.log ∨ e ∈ new := by
  rw [hm.log, List.mem_append, Option.mem_toList] at he
  exact he

/-- Another client sees the contents it depends on, and a log that may have grown. -/
theorem Moved.running_other (hm : Moved body db s s' i p' new more) (h : SysInv body db s)
    {j : ι} (hj : j ≠ i) {p : Proc ι ω τ κ β ε α} (hp : s.procs j = some p) :
    p.ticket.client = j ∧ p.ticket.invoked < s'.time ∧
      (p.logged = false → p.ticket ∉ s'.log.map Entry.ticket) ∧ ProcInv body db s' j p := by
  have htime := hm.time
  obtain ⟨hwriter, hdb⟩ := hm.others j hj
  obtain ⟨hclient, hinvoked, hnot, hproc⟩ := h.running j p hp
  refine ⟨hclient, by omega, ?_, hproc.frame hwriter hdb ⟨_, hm.log⟩ (by omega)⟩
  intro hlogged hmem
  obtain ⟨e, he, heq⟩ := List.mem_map.mp hmem
  rcases hm.mem_log he with he | he
  · exact hnot hlogged (List.mem_map.mpr ⟨e, he, heq⟩)
  · -- the ticket that entered is another client's
    have hcl := (hm.entered e he).1
    rw [heq, hclient] at hcl
    exact hj hcl

/-- **A move keeps the invariant.** -/
theorem Moved.sysInv (hm : Moved body db s s' i p' new more) (h : SysInv body db s) :
    SysInv body db s' where
  contents := by rw [hm.contents, hm.log, replay_append, h.contents]
  results d hd := by
    rw [hm.returned, List.mem_append] at hd
    rcases hd with hd | hd
    · rw [hm.log]
      exact (h.results d hd).append (le_refl _) _
    · exact hm.placed d hd
  once := hm.once h
  program := hm.program h
  points e he := by
    rcases hm.mem_log he with he | he
    · exact h.points e he
    · exact (hm.entered e he).2.2.2.1
  sorted := hm.sorted h
  past e he := by
    have htime := hm.time
    rcases hm.mem_log he with he | he
    · have hpast := h.past e he
      omega
    · obtain ⟨-, hinvoked, hnow, -⟩ := hm.entered e he
      omega
  holder j hj := by
    rw [hm.procs] at hj
    by_cases hji : j = i
    · subst hji
      rw [Function.update_self] at hj
      exact hm.free hj
    · rw [Function.update_of_ne hji] at hj
      exact fun hwriter => h.holder j hj ((hm.others j hji).1.mp hwriter)
  running j p hp := by
    rw [hm.procs] at hp
    by_cases hj : j = i
    · subst hj
      rw [Function.update_self] at hp
      exact hm.running p hp
    · rw [Function.update_of_ne hj] at hp
      exact hm.running_other h hj hp

end Moved

/-- A move of client `i` that does not put its operation into the log. -/
theorem SysInv.keep (h : SysInv body db s) (i : ι)
    {p' : Option (Proc ι ω τ κ β ε α)} {more : List (Returned ι ω α)}
    (hprocs : s'.procs = Function.update s.procs i p') (htime : s'.time = s.time + 1)
    (hdb : s'.db = s.db) (hlog : s'.log = s.log) (hret : s'.returned = s.returned ++ more)
    (hw : ∀ j, j ≠ i → (s'.writer = some j ↔ s.writer = some j))
    (hnone : p' = none → s'.writer ≠ some i)
    (hmore : ∀ d ∈ more, Placed body db s.log d.ticket d.result d.time)
    (hown : more.map Returned.ticket ++ pending p' = pending (s.procs i))
    (hp' : ∀ p, p' = some p → p.ticket.client = i ∧ p.ticket.invoked < s'.time ∧
      (p.logged = false → p.ticket ∉ s.log.map Entry.ticket) ∧ ProcInv body db s' i p) :
    SysInv body db s' := by
  have hm : Moved body db s s' i p' none more :=
    { procs := hprocs
      time := htime
      log := by rw [hlog, Option.toList_none, List.append_nil]
      returned := hret
      contents := hdb
      others := fun j hj => ⟨hw j hj, fun _ => hdb⟩
      entered := nofun
      own := by rw [hown, Option.toList_none, List.map_nil, List.append_nil]
      placed := by rwa [hlog]
      free := hnone
      running := by rwa [hlog] }
  exact hm.sysInv h

/-- A move of client `i` that puts its operation into the log. -/
theorem SysInv.enter (h : SysInv body db s) (i : ι) {p : Proc ι ω τ κ β ε α}
    {p' : Option (Proc ι ω τ κ β ε α)} {more : List (Returned ι ω α)}
    (hp : s.procs i = some p) (hl : p.logged = false)
    (hprocs : s'.procs = Function.update s.procs i p') (htime : s'.time = s.time + 1)
    (hdb : s'.db = (exec [] (body p.ticket.op) s.db).2)
    (hother : ∀ j, j ≠ i → s.writer = some j → s'.db = s.db)
    {pt : Point} (hpt : pt = (body p.ticket.op).point)
    (hlog : s'.log = s.log ++ [⟨p.ticket, s.time, pt⟩]) (hret : s'.returned = s.returned ++ more)
    (hw : ∀ j, j ≠ i → (s'.writer = some j ↔ s.writer = some j))
    (hnone : p' = none → s'.writer ≠ some i)
    (hmore : ∀ d ∈ more, Placed body db s'.log d.ticket d.result d.time)
    (hown : more.map Returned.ticket ++ pending p' = [p.ticket])
    (hp' : ∀ q, p' = some q → q.ticket = p.ticket ∧ q.logged = true ∧ ProcInv body db s' i q) :
    SysInv body db s' := by
  obtain ⟨hclient, hinvoked, hnot, -⟩ := h.running i p hp
  have hpending : pending (s.procs i) = [] := by
    rw [hp]
    simp only [pending, hl, Bool.false_eq_true, if_false]
  have hm : Moved body db s s' i p' (some ⟨p.ticket, s.time, pt⟩) more :=
    { procs := hprocs
      time := htime
      log := hlog
      returned := hret
      contents := hdb
      others := fun j hj => ⟨hw j hj, hother j hj⟩
      entered := by
        rintro e he
        obtain rfl := Option.mem_some_iff.mp he
        exact ⟨hclient, hinvoked.le, rfl, hpt, hnot hl⟩
      own := by rw [hown, hpending]; rfl
      placed := hmore
      free := hnone
      running := by
        intro q hq
        obtain ⟨hticket, hlogged, hproc⟩ := hp' q hq
        rw [hticket, hlogged]
        exact ⟨hclient, by omega, nofun, hproc⟩ }
  exact hm.sysInv h

/-! ### The three kinds of moves -/

theorem SysInv.invoke (h : SysInv body db s) {i : ι} (hi : s.procs i = none) (o : ω) :
    SysInv body db
      { s with
        procs := Function.update s.procs i (some ⟨⟨s.time, i, o⟩, body o, .idle, false⟩)
        time := s.time + 1 } := by
  refine h.keep i rfl rfl rfl rfl (List.append_nil _).symm (fun j _ => Iff.rfl) nofun nofun
    ?_ ?_
  · rw [hi]
    rfl
  · intro p hp
    cases hp
    refine ⟨rfl, Nat.lt_succ_self _, ?_, .fresh _ _ (h.holder i hi) rfl⟩
    -- everything in the log was invoked before now
    intro _ hmem
    obtain ⟨e, he, het⟩ := List.mem_map.mp hmem
    have hpast := h.past e he
    rw [het] at hpast
    exact absurd hpast.1 (by simpa using hpast.2)

/-- The state after a call of client `i`, whose operation is `t`. -/
def Sys.afterCall (s : Sys ι ω τ κ β ε α) (i : ι) (t : Ticket ι ω) (c : Cmd τ κ β)
    (k : Except (Failure τ ε) c.Ret → Prog τ κ β ε α) (txn : Txn τ κ β) (logged : Bool) :
    Sys ι ω τ κ β ε α :=
  { s with
    db := (perform (ε := ε) c s.db txn).2.1
    writer := c.writerAfter i s.writer
    procs := Function.update s.procs i (some
      ⟨t, k (perform c s.db txn).1, (perform (ε := ε) c s.db txn).2.2,
        logged || c.point?.isSome⟩)
    log := enterLog s.log t s.time logged c.point?
    time := s.time + 1 }

/-- The first call of an operation begins its transaction. -/
theorem SysInv.call_fresh (h : SysInv body db s)
    (hbody : ∀ o, (body o).Obeys (fun _ ψ => ψ ≠ .writing) .idle)
    {i : ι} {t : Ticket ι ω} {c : Cmd τ κ β} {k : Except (Failure τ ε) c.Ret → Prog τ κ β ε α}
    (hi : s.procs i = some ⟨t, .call c k, .idle, false⟩) (hwait : c.waits s.writer = false)
    (hw : s.writer ≠ some i) (hp : Prog.call c k = body t.op) :
    SysInv body db (s.afterCall i t c k .idle false) := by
  obtain ⟨hclient, hinv, hnot, -⟩ := h.running i _ hi
  have hobeys := hbody t.op
  rw [← hp] at hobeys
  have hexec : ∀ s : Store τ κ β, exec [] (body t.op) s
      = (((Prog.call c k).run ⟨s, .idle, []⟩).1, ((Prog.call c k).run ⟨s, .idle, []⟩).2.db) := by
    intro s
    rw [← hp]
    rfl
  -- of the first calls the discipline allows, one takes effect and the other takes the lock
  cases c with
  | beginRead =>
      have hk : (k (.ok ())).Obeys (fun _ ψ => ψ ≠ .writing) .reading := hobeys.2 (.ok ())
      have hrun := fun db' => hk.run_reading s.db db' s.db
      have hpt : Point.beginRead = (body t.op).point := by rw [← hp]; rfl
      refine h.enter i hi rfl rfl rfl ?_ (fun _ _ _ => rfl) hpt rfl (List.append_nil _).symm
        (fun j _ => Iff.rfl) nofun nofun rfl ?_
      · rw [hexec]
        exact (hrun s.db).2.symm
      · intro q hq
        cases hq
        refine ⟨rfl, rfl, .reading t _ s.db _ hw hk
          (placed_last (r := (exec [] (body t.op) s.db).1) ?_ (Nat.le_succ _)) ?_⟩
        · rw [h.contents]
        · intro db'
          rw [hexec]
          exact (hrun db').1
  | beginWrite =>
      -- it did not have to wait, so nobody holds the write transaction
      have hnone : s.writer = none := by simpa [Cmd.waits] using hwait
      have hpt : (body t.op).point = .commit := by rw [← hp]; rfl
      refine h.keep i rfl rfl rfl rfl (List.append_nil _).symm ?_ nofun nofun ?_ ?_
      · intro j hj
        show some i = some j ↔ s.writer = some j
        rw [hnone]
        simp [Ne.symm hj]
      · rw [hi]
        rfl
      · intro p hp'
        cases hp'
        refine ⟨hclient, Nat.lt_succ_of_lt hinv, fun _ => hnot rfl,
          .writing t _ s.db rfl hpt (hobeys.2 (.ok ())) ?_⟩
        show _ = (exec [] (body t.op) s.db).1 ∧ _ = (exec [] (body t.op) s.db).2
        rw [hexec]
        exact ⟨rfl, rfl⟩
  | _ => exact hobeys.1.elim

/-- The commit of a write transaction. -/
theorem SysInv.call_commit (h : SysInv body db s) {i : ι} {t : Ticket ι ω}
    {k : Except (Failure τ ε) Unit → Prog τ κ β ε α} {w : Store τ κ β}
    (hi : s.procs i = some ⟨t, .call .commit k, .write w, false⟩) (hw : s.writer = some i)
    (hpoint : (body t.op).point = .commit)
    (hp : (Prog.call .commit k).Obeys (fun _ ψ => ψ ≠ .writing) .writing)
    (hrun : ((Prog.call .commit k).run ⟨s.db, .write w, []⟩).1 = (exec [] (body t.op) s.db).1 ∧
      ((Prog.call .commit k).run ⟨s.db, .write w, []⟩).2.db = (exec [] (body t.op) s.db).2) :
    SysInv body db (s.afterCall i t .commit k (.write w) false) := by
  -- the operation is over, and its result is the one it has at this place in the log
  obtain ⟨a, ha, -⟩ := hp.of_commit
  rw [Prog.run_call, Mach.step_nil] at hrun
  have hresult : a = (exec [] (body t.op) s.db).1 := by
    rw [← hrun.1]
    show a = ((k (.ok ())).run _).1
    rw [ha]
    rfl
  have hdb : w = (exec [] (body t.op) s.db).2 := by
    rw [← hrun.2]
    show w = ((k (.ok ())).run _).2.db
    rw [ha]
    rfl
  -- no other client is writing, so the change of the contents disturbs nobody
  have hothers : ∀ j, j ≠ i → ¬ s.writer = some j := by
    intro j hj hwj
    rw [hw] at hwj
    exact hj (Option.some.inj hwj).symm
  have hwriter : (s.afterCall i t .commit k (.write w) false).writer = none := if_pos hw
  refine h.enter i hi rfl rfl rfl hdb (fun j hj hwj => absurd hwj (hothers j hj)) hpoint.symm rfl
    (List.append_nil _).symm ?_ nofun nofun rfl ?_
  · intro j hj
    rw [hwriter]
    exact ⟨nofun, fun hwj => absurd hwj (hothers j hj)⟩
  · intro q hq
    cases hq
    refine ⟨rfl, rfl, ?_⟩
    show ProcInv _ _ _ _ ⟨t, k (.ok ()), _, _⟩
    rw [ha]
    refine .answered t _ a (by rw [hwriter]; exact nofun) (placed_last ?_ (Nat.le_succ _))
    rw [hresult, h.contents]

omit [DecidableEq ι] in
/-- What a call inside a write transaction does, unless it commits: it takes no effect yet and
leaves the committed contents, and there is a private copy for the calls that follow. -/
theorem writing_step {c : Cmd τ κ β} {k : Except (Failure τ ε) c.Ret → Prog τ κ β ε α}
    (hc : c ≠ .commit) (hp : (Prog.call c k).Obeys (fun _ ψ => ψ ≠ .writing) .writing)
    (s w : Store τ κ β) :
    c ≠ .beginWrite ∧ c.point? = none ∧ (perform (ε := ε) c s (.write w)).2.1 = s ∧
      (∃ w', (perform (ε := ε) c s (.write w)).2.2 = .write w') ∧
      (k (perform c s (.write w)).1).Obeys (fun _ ψ => ψ ≠ .writing) .writing := by
  have hok := perform_write_ok (ε := ε) c s w
  have hafter := Phase.after_writing hp.1 hc
  refine ⟨by rintro rfl; exact hp.1, ?_, perform_db hc s (.write w), ?_, ?_⟩
  · cases c with
    | commit => exact absurd rfl hc
    | beginRead => exact hp.1.elim
    | _ => rfl
  · have hholds := perform_holds (ε := ε) hp.1 s ⟨w, rfl⟩
    rwa [hok, hafter] at hholds
  · have hnext := hp.2 (perform c s (.write w)).1
    rwa [hok, hafter] at hnext

/-- A call inside a write transaction: it changes the private copy only. -/
theorem SysInv.call_writing (h : SysInv body db s) {i : ι} {t : Ticket ι ω} {c : Cmd τ κ β}
    {k : Except (Failure τ ε) c.Ret → Prog τ κ β ε α} {w : Store τ κ β} (hc : c ≠ .commit)
    (hi : s.procs i = some ⟨t, .call c k, .write w, false⟩) (hw : s.writer = some i)
    (hpoint : (body t.op).point = .commit)
    (hp : (Prog.call c k).Obeys (fun _ ψ => ψ ≠ .writing) .writing)
    (hrun : ((Prog.call c k).run ⟨s.db, .write w, []⟩).1 = (exec [] (body t.op) s.db).1 ∧
      ((Prog.call c k).run ⟨s.db, .write w, []⟩).2.db = (exec [] (body t.op) s.db).2) :
    SysInv body db (s.afterCall i t c k (.write w) false) := by
  obtain ⟨hclient, hinv, hnot, -⟩ := h.running i _ hi
  obtain ⟨hbegin, hpt, hdb, ⟨w', hw'⟩, hnext⟩ := writing_step hc hp s.db w
  have hwriter : c.writerAfter i s.writer = s.writer := Cmd.writerAfter_eq hbegin hc _ _
  rw [Prog.run_call, Mach.step_nil, hdb, hw'] at hrun
  refine h.keep i rfl rfl hdb ?_ (List.append_nil _).symm ?_ nofun nofun ?_ ?_
  · show enterLog s.log t s.time false c.point? = s.log
    rw [hpt]
    rfl
  · intro j hj
    show c.writerAfter i s.writer = some j ↔ _
    rw [hwriter]
  · rw [hi]
    show (if (false || c.point?.isSome) = true then [t] else []) = _
    rw [hpt]
    rfl
  · intro p hp'
    cases hp'
    refine ⟨hclient, Nat.lt_succ_of_lt hinv, fun _ => hnot rfl, ?_⟩
    show ProcInv _ _ _ _ ⟨t, _, _, false || c.point?.isSome⟩
    rw [hpt, hw']
    refine .writing t _ w' (hwriter.trans hw) hpoint hnext ?_
    show (Prog.run _ ⟨(perform (ε := ε) c s.db (.write w)).2.1, _, []⟩).1
          = (exec [] (body t.op) (perform (ε := ε) c s.db (.write w)).2.1).1 ∧
        (Prog.run _ ⟨(perform (ε := ε) c s.db (.write w)).2.1, _, []⟩).2.db
          = (exec [] (body t.op) (perform (ε := ε) c s.db (.write w)).2.1).2
    rw [hdb]
    exact hrun

/-- A call inside a read transaction. -/
theorem SysInv.call_reading (h : SysInv body db s) {i : ι} {t : Ticket ι ω} {c : Cmd τ κ β}
    {k : Except (Failure τ ε) c.Ret → Prog τ κ β ε α} {snap : Store τ κ β} {r : α}
    (hi : s.procs i = some ⟨t, .call c k, .read snap, true⟩) (hw : s.writer ≠ some i)
    (hp : (Prog.call c k).Obeys (fun _ ψ => ψ ≠ .writing) .reading)
    (hr : Placed body db s.log t r s.time)
    (hrun : ∀ db', ((Prog.call c k).run ⟨db', .read snap, []⟩).1 = r) :
    SysInv body db (s.afterCall i t c k (.read snap) true) := by
  obtain ⟨hclient, hinv, hnot, -⟩ := h.running i _ hi
  have hperform := perform_read (ε := ε) hp.1 snap s.db s.db
  have hlog : (s.afterCall i t c k (.read snap) true).log = s.log := rfl
  have hwriter : c.writerAfter i s.writer = s.writer :=
    Cmd.writerAfter_eq (by rintro rfl; exact hp.1) (by rintro rfl; exact hp.1) _ _
  have hwriter' : (s.afterCall i t c k (.read snap) true).writer ≠ some i := by
    show c.writerAfter i s.writer ≠ some i
    rwa [hwriter]
  have hplaced : Placed body db (s.afterCall i t c k (.read snap) true).log t r (s.time + 1) := by
    rw [hlog, ← List.append_nil s.log]
    exact hr.append (Nat.le_succ _) []
  refine h.keep i rfl rfl (congrArg (·.2.1) hperform) hlog (List.append_nil _).symm ?_ nofun nofun
    ?_ ?_
  · intro j hj
    show c.writerAfter i s.writer = some j ↔ _
    rw [hwriter]
  · rw [hi]
    rfl
  · intro p hp'
    cases hp'
    refine ⟨hclient, Nat.lt_succ_of_lt hinv, nofun, ?_⟩
    have hnext := hp.2 (perform c s.db (.read snap)).1
    rw [Phase.after_reading hp.1] at hnext
    show ProcInv _ _ _ _
      ⟨t, _, (perform (ε := ε) c s.db (.read snap)).2.2, true || c.point?.isSome⟩
    rw [Bool.true_or, congrArg (·.2.2) hperform]
    cases hok : (perform (ε := ε) c s.db (.read snap)).1.isOk with
    | true =>
        rw [hok] at hnext
        refine .reading t _ snap r hwriter' hnext hplaced ?_
        intro db'
        rw [← hrun db', Prog.run_call, Mach.step_nil, perform_read hp.1 snap db' s.db]
    | false =>
        -- a table that does not exist ends the operation
        rw [hok] at hnext
        obtain ⟨a, ha, -⟩ := hnext.eq_ret trivial
        have hra : a = r := by
          rw [← hrun s.db, Prog.run_call, Mach.step_nil, ha]
          rfl
        rw [ha, hra]
        exact .answered t _ r hwriter' hplaced

/-- The state after client `i` has returned `a` from the operation `t`. -/
def Sys.afterRet (s : Sys ι ω τ κ β ε α) (i : ι) (t : Ticket ι ω) (a : α) (logged : Bool) :
    Sys ι ω τ κ β ε α :=
  { s with
    writer := if s.writer = some i then none else s.writer
    procs := Function.update s.procs i none
    log := enterLog s.log t s.time logged (some .ret)
    returned := s.returned ++ [⟨t, a, s.time⟩]
    time := s.time + 1 }

omit [DecidableEq τ] [Std.TransOrd κ] in
theorem Sys.afterRet_writer (s : Sys ι ω τ κ β ε α) (i : ι) (t : Ticket ι ω) (a : α)
    (logged : Bool) :
    (s.afterRet i t a logged).writer ≠ some i ∧
      ∀ j, j ≠ i → ((s.afterRet i t a logged).writer = some j ↔ s.writer = some j) := by
  show (if s.writer = some i then none else s.writer) ≠ some i ∧
    ∀ j, j ≠ i → ((if s.writer = some i then none else s.writer) = some j ↔ s.writer = some j)
  by_cases hw : s.writer = some i
  · rw [if_pos hw, hw]
    refine ⟨nofun, fun j hj => ⟨nofun, fun h => ?_⟩⟩
    exact absurd (Option.some.inj h).symm hj
  · rw [if_neg hw]
    exact ⟨hw, fun _ _ => Iff.rfl⟩

/-- A client that returns without having begun a transaction. -/
theorem SysInv.ret_fresh (h : SysInv body db s) {i : ι} {t : Ticket ι ω} {a : α}
    (hi : s.procs i = some ⟨t, .ret a, .idle, false⟩) (hp : Prog.ret a = body t.op) :
    SysInv body db (s.afterRet i t a false) := by
  obtain ⟨hself, hothers⟩ := s.afterRet_writer i t a false
  have hrun : ∀ db', exec [] (body t.op) db' = (a, db') := by
    intro db'
    rw [← hp]
    rfl
  have hpt : Point.ret = (body t.op).point := by rw [← hp]; rfl
  refine h.enter i hi rfl rfl rfl ?_ (fun _ _ _ => rfl) hpt rfl rfl hothers (fun _ => hself) ?_
    rfl nofun
  · rw [hrun]
    rfl
  · intro d hd
    obtain rfl := List.mem_singleton.mp hd
    refine placed_last ?_ (le_refl _)
    rw [hrun]

theorem SysInv.ret (h : SysInv body db s) {i : ι} {t : Ticket ι ω} {a : α} {txn : Txn τ κ β}
    {logged : Bool} (hi : s.procs i = some ⟨t, .ret a, txn, logged⟩) :
    SysInv body db (s.afterRet i t a logged) := by
  obtain ⟨hself, hothers⟩ := s.afterRet_writer i t a logged
  have hplaced : logged = true → Placed body db s.log t a s.time →
      SysInv body db (s.afterRet i t a logged) := by
    rintro rfl hr
    refine h.keep i rfl rfl rfl rfl rfl hothers (fun _ => hself) ?_ ?_ nofun
    · intro d hd
      obtain rfl := List.mem_singleton.mp hd
      exact hr
    · rw [hi]
      rfl
  obtain ⟨-, -, -, hproc⟩ := h.running i _ hi
  cases hproc with
  | fresh _ _ hw hp => exact h.ret_fresh hi hp
  -- no operation gives up a write transaction
  | writing _ _ w hw hpoint hp hrun => exact absurd rfl hp
  | reading _ _ snap r hw hp hr hrun =>
      obtain rfl : a = r := hrun s.db
      exact hplaced rfl hr
  | answered _ _ _ hw hr => exact hplaced rfl hr

theorem SysInv.call (h : SysInv body db s) (hbody : ∀ o, (body o).Obeys (fun _ ψ => ψ ≠ .writing) .idle)
    {i : ι} {t : Ticket ι ω} {c : Cmd τ κ β} {k : Except (Failure τ ε) c.Ret → Prog τ κ β ε α}
    {txn : Txn τ κ β} {logged : Bool} (hi : s.procs i = some ⟨t, .call c k, txn, logged⟩)
    (hwait : c.waits s.writer = false) :
    SysInv body db (s.afterCall i t c k txn logged) := by
  obtain ⟨-, -, -, hproc⟩ := h.running i _ hi
  cases hproc with
  | fresh _ _ hw hp => exact h.call_fresh hbody hi hwait hw hp
  | writing _ _ w hw hpoint hp hrun =>
      by_cases hc : c = .commit
      · subst hc
        exact h.call_commit hi hw hpoint hp hrun
      · exact h.call_writing hc hi hw hpoint hp hrun
  | reading _ _ snap r hw hp hr hrun => exact h.call_reading hi hw hp hr hrun

/-- What a possible move does. -/
theorem Sys.next_cases {m : Move ι ω} (hm : s.next body m = some s') :
    (∃ i o, s.procs i = none ∧
      s' = { s with
        procs := Function.update s.procs i (some ⟨⟨s.time, i, o⟩, body o, .idle, false⟩)
        time := s.time + 1 }) ∨
    (∃ i t c k txn logged, s.procs i = some ⟨t, .call c k, txn, logged⟩ ∧
      c.waits s.writer = false ∧ s' = s.afterCall i t c k txn logged) ∨
    (∃ i t a txn logged, s.procs i = some ⟨t, .ret a, txn, logged⟩ ∧
      s' = s.afterRet i t a logged) := by
  cases m with
  | invoke i o =>
      cases hi : s.procs i with
      | some p => simp only [Sys.next, hi, reduceCtorEq] at hm
      | none =>
          simp only [Sys.next, hi, Option.some.injEq] at hm
          exact Or.inl ⟨i, o, hi, hm.symm⟩
  | call i =>
      cases hi : s.procs i with
      | none => simp only [Sys.next, hi, reduceCtorEq] at hm
      | some p =>
          obtain ⟨t, rest, txn, logged⟩ := p
          cases rest with
          | ret a => simp only [Sys.next, hi, reduceCtorEq] at hm
          | call c k =>
              cases hwait : c.waits s.writer with
              | true => simp only [Sys.next, hi, hwait, if_true, reduceCtorEq] at hm
              | false =>
                  simp only [Sys.next, hi, hwait, Bool.false_eq_true, if_false,
                    Option.some.injEq] at hm
                  exact Or.inr (Or.inl ⟨i, t, c, k, txn, logged, hi, hwait, hm.symm⟩)
  | ret i =>
      cases hi : s.procs i with
      | none => simp only [Sys.next, hi, reduceCtorEq] at hm
      | some p =>
          obtain ⟨t, rest, txn, logged⟩ := p
          cases rest with
          | call c k => simp only [Sys.next, hi, reduceCtorEq] at hm
          | ret a =>
              simp only [Sys.next, hi, Option.some.injEq] at hm
              exact Or.inr (Or.inr ⟨i, t, a, txn, logged, hi, hm.symm⟩)

/-- **Linearizability.** If every operation keeps the discipline and gives up no write
transaction, then in every reachable state the log explains the history. -/
theorem reachable_linearized (hbody : ∀ o, (body o).Obeys (fun _ ψ => ψ ≠ .writing) .idle)
    (h : Sys.Reachable body db s) : Linearized body db s := by
  have hinv : SysInv body db s := by
    induction h with
    | init => exact sysInv_init
    | next m _ hm ih =>
        rcases Sys.next_cases hm with ⟨i, o, hi, rfl⟩ | ⟨i, t, c, k, txn, logged, hi, hwait, rfl⟩ |
          ⟨i, t, a, txn, logged, hi, rfl⟩
        · exact ih.invoke hi o
        · exact ih.call hbody hi hwait
        · exact ih.ret hi
  exact hinv.linearized

end Steps

end Systems

end TxStore
