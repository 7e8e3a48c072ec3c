import ZenohRedb.Lib.Progress
import ZenohRedb.Storage.Concurrent

set_option autoImplicit false

/-! # Concurrent clients with faults

The clients of `Storage/Concurrent.lean`, and any of their calls to redb may fail. An operation
in which a call failed returns an error of redb, and can be left out of the history; the others
are linearizable as they are without faults (`clients_with_faults`).

Faults or not, every operation can be completed (`clients_progress`): one that waits is a write
that waits for another client, which can go on.
-/

namespace ZenohRedb

open TxStore

section Clients

variable {ι : Type} [DecidableEq ι]

/-- The state of clients that call a storage. -/
abbrev Clients (ι : Type) :=
  FSys ι ClientOp TableName Bytes Bytes String (Except RedbBackendError Reply × Bytes)

/-- Ending an operation: no write transaction is given up, and after a failing call there is an
error of redb. -/
def EndsWell (r : Except RedbBackendError Reply × Bytes) (φ : Phase) : Prop :=
  φ ≠ .writing ∧ (φ = .failed → ∃ e, r.1 = .error e ∧ e.isRedb = true)

theorem clientBody_endsWell (z : ZExt) (self : RedbStorage) (o : ClientOp) :
    (clientBody z self o).Obeys EndsWell .idle := by
  refine (StorageCall.obeys z self o.1 o.2).mono ?_
  rintro ⟨r, buf⟩ φ hr
  cases r with
  | error e => exact ⟨hr.1, fun hφ => ⟨e, rfl, hr.2.2 hφ⟩⟩
  | ok a =>
      obtain ⟨hne, rfl⟩ := hr
      refine ⟨?_, fun hφ => absurd hφ hne⟩
      split
      · exact nofun
      · exact nofun

/-- A run `t` without faults that explains a state `s` with faults, which the moves `ms` have
reached from the tables `T`. -/
structure Explains (z : ZExt) (storage : RedbStorage) (T : Tables)
    (ms : List (FMove ι ClientOp String)) (s : Clients ι)
    (t : Sys ι ClientOp TableName Bytes Bytes String (Except RedbBackendError Reply × Bytes)) :
    Prop where
  explained : FSys.Explained (clientBody z storage) T.db ms s t
  contents : s.db = (T.after z storage.config.readOnly (calls t.log)).db
  /-- An operation that has returned without a failing call has a place in the order, and returned
  what it returns on the tables its predecessors leave behind. -/
  results : ∀ d ∈ s.returned, d.failed = false → ∃ before e after,
    t.log = before ++ e :: after ∧ e.ticket.client = d.client ∧ e.ticket.op = d.op ∧
      d.result.1 = (d.op.1.spec z storage.config.readOnly
        (T.after z storage.config.readOnly (calls before))).1
  /-- One in which a call failed has returned an error of redb. -/
  failures : ∀ d ∈ s.returned, d.failed = true →
    ∃ e, d.result.1 = .error e ∧ e.isRedb = true

/-- In terms of the tables, an explanation says what the calls of the storage do. -/
theorem explains_of_explained {z : ZExt} {self : RedbStorage} {T : Tables}
    {ms : List (FMove ι ClientOp String)} {s : Clients ι}
    {t : Sys ι ClientOp TableName Bytes Bytes String (Except RedbBackendError Reply × Bytes)}
    (h : FSys.Explained (clientBody z self) T.db ms s t)
    (hfail : ∀ d ∈ s.returned, d.failed = true → EndsWell d.result .failed) :
    Explains z self T ms s t where
  explained := h
  contents := by rw [h.contents, replay_eq]
  results d hd hf := by
    obtain ⟨before, e, after, hlog, hclient, hop, hr⟩ := h.results hd hf
    refine ⟨before, e, after, hlog, hclient, hop, ?_⟩
    rw [hr, replay_eq]
    exact (exec_clientBody z self d.op _).1
  failures d hd hf := (hfail d hd hf).2 rfl

/-- **Concurrent clients with faults.** Let any number of clients call the operations of one
storage on opened tables, their calls to redb interleaved in any way and any of them failing.
In every state that can be reached, the operations in which a call failed have had no effect and
returned an error of redb; leaving them out gives a linearizable history, which explains the
contents of the tables and what the others have returned. -/
theorem clients_with_faults (z : ZExt) (self : RedbStorage) (T : Tables)
    {ms : List (FMove ι ClientOp String)} {s : Clients ι}
    (h : FSys.Reaches (clientBody z self) T.db ms s) : ∃ t, Explains z self T ms s t := by
  obtain ⟨⟨t, ht⟩, hfail⟩ := h.explained (clientBody_endsWell z self) fun _ _ _ hφ => hφ.1
  exact ⟨t, explains_of_explained ht hfail⟩

/-- A `put` whose commit fails, and a `get` that begins after that and finds nothing. -/
theorem clients_with_faults_commit :
    let self : RedbStorage := ⟨.ofString "s.redb", .new, "s"⟩
    let value : StoredValue := ⟨[1], .first, ⟨0, none⟩⟩
    let ms : List (FMove Bool ClientOp String) :=
      [.move (.invoke true (.put "k" value, [])), .move (.call true), .move (.call true),
        .move (.call true), .move (.call true), .move (.call true), .fail true "disk full",
        .move (.invoke false (.get "k", [])), .move (.call false), .move (.call false),
        .move (.call false), .move (.call false), .move (.call false), .move (.ret true),
        .move (.ret false)]
    ∃ s t, (FSys.init Tables.empty.db).run (clientBody .layout self) ms = some s ∧
      s.returned.map (·.result.1)
        = [.error (.commitError (.storage "disk full")), .ok (.value none)] ∧
      Explains .layout self .empty ms s t := by
  intro self value ms
  obtain ⟨s, hs, hreturned⟩ : ∃ s : Clients Bool,
      (FSys.init Tables.empty.db).run (clientBody .layout self) ms = some s ∧
        s.returned.map (·.result.1)
          = [.error (.commitError (.storage "disk full")), .ok (.value none)] :=
    ⟨_, by rfl, by rfl⟩
  obtain ⟨t, ht⟩ := clients_with_faults .layout self .empty (FSys.Reaches.init.run hs)
  exact ⟨s, t, hs, hreturned, ht⟩

/-- **Progress.** Let any number of clients call the operations of one storage, their calls to
redb interleaved in any way and any of them failing. In every state that can be reached:

* an operation that cannot go on is a write on a storage that is not read-only, and waits for
  another client that holds the write transaction and can go on;
* no run without new operations is infinite;
* a run without new operations that ends where no client can go on has completed all operations
  that were running, each once. -/
theorem clients_progress (z : ZExt) (self : RedbStorage) (T : Tables)
    {ms : List (FMove ι ClientOp String)} {s : Clients ι}
    (h : FSys.Reaches (clientBody z self) T.db ms s) :
    (∀ i p, s.procs i = some p → ¬ s.CanGo (clientBody z self) i →
      p.op.1.isWrite = true ∧ self.config.readOnly = false ∧
        ∃ j ≠ i, s.writer = some j ∧ s.CanGo (clientBody z self) j) ∧
    (∀ f : ℕ → Clients ι, f 0 = s → ¬ ∀ n, (f n).Goes (clientBody z self) (f (n + 1))) ∧
    ∀ ms' s', (∀ m ∈ ms', m.continues = true) → s.run (clientBody z self) ms' = some s' →
      (∀ i, ¬ s'.CanGo (clientBody z self) i) →
      (∀ i, s'.procs i = none) ∧ ∃ outcomes, FSys.Ended s s' outcomes := by
  obtain ⟨hwaits, hends, hlast⟩ := h.progress (clientBody_endsWell z self)
  refine ⟨fun i p hi hstuck => ?_, hends, hlast⟩
  obtain ⟨hpoint, hholder⟩ := hwaits i p hi hstuck
  rw [clientBody_point] at hpoint
  unfold StorageCall.point at hpoint
  cases hwrite : p.op.1.isWrite with
  | false =>
      rw [hwrite] at hpoint
      cases hpoint
  | true =>
      cases hro : self.config.readOnly with
      | true =>
          rw [hwrite, hro] at hpoint
          cases hpoint
      | false => exact ⟨rfl, rfl, hholder⟩

/-- Two clients that write: one holds the write transaction, and the other one waits. When the
first has failed to commit and returned, the second goes on; in the end both have returned. -/
theorem clients_progress_two_writers :
    let self : RedbStorage := ⟨.ofString "s.redb", .new, "s"⟩
    let ms : List (FMove Bool ClientOp String) :=
      [.move (.invoke true (.delete "k", [])), .move (.call true),
        .move (.invoke false (.delete "k", []))]
    let ms' : List (FMove Bool ClientOp String) :=
      [.fail true "disk full", .move (.ret true), .move (.call false), .fail false "disk full",
        .move (.ret false)]
    ∃ s s', (FSys.init Tables.empty.db).run (clientBody .layout self) ms = some s ∧
      s.run (clientBody .layout self) ms' = some s' ∧
      (∃ j ≠ false, s.writer = some j ∧ s.CanGo (clientBody .layout self) j) ∧
      ∃ outcomes, FSys.Ended s s' outcomes := by
  intro self ms ms'
  obtain ⟨s, s', hs, hs', hfalse, hstuck, hidle⟩ : ∃ s s' : Clients Bool,
      (FSys.init Tables.empty.db).run (clientBody .layout self) ms = some s ∧
        s.run (clientBody .layout self) ms' = some s' ∧ (s.procs false).isSome = true ∧
        ((s.next (clientBody .layout self) (.move (.call false))).isSome ||
          (s.next (clientBody .layout self) (.move (.ret false))).isSome) = false ∧
        ∀ i, ((s'.next (clientBody .layout self) (.move (.call i))).isSome ||
          (s'.next (clientBody .layout self) (.move (.ret i))).isSome) = false := by
    refine ⟨_, _, by rfl, by rfl, by rfl, by rfl, fun i => ?_⟩
    cases i <;> rfl
  have hcannot : ∀ {t : Clients Bool} {i : Bool},
      ((t.next (clientBody .layout self) (.move (.call i))).isSome ||
        (t.next (clientBody .layout self) (.move (.ret i))).isSome) = false →
      ¬ t.CanGo (clientBody .layout self) i := by
    intro t i ht hgo
    rw [Bool.or_eq_false_iff] at ht
    rcases hgo with hgo | hgo
    · rw [ht.1] at hgo
      cases hgo
    · rw [ht.2] at hgo
      cases hgo
  obtain ⟨hwaits, -, hlast⟩ := clients_progress .layout self .empty (FSys.Reaches.init.run hs)
  obtain ⟨p, hp⟩ := Option.isSome_iff_exists.mp hfalse
  refine ⟨s, s', hs, hs', (hwaits false p hp (hcannot hstuck)).2.2, ?_⟩
  exact (hlast ms' s' (by decide) hs' fun i => hcannot (hidle i)).2

end Clients

end ZenohRedb
