import ZenohRedb.Storage.Tables

set_option autoImplicit false

/-! # Every operation is atomic, whatever fails

`StorageM.Obeys` lifts the discipline of `Lib/Discipline.lean` to operations: an operation
keeps to one transaction and stops at the first failure, an error it returns after a failing
call to redb is one of redb's, and once its write transaction has begun nothing but such a call
makes it fail. The rules below follow the shape of an operation; `StorageCall.obeys` applies them to
all of them.

Two facts about runs come out. An operation that returns an error has changed nothing
(`StorageCall.exec_error`), and a run with faults is the run without faults or ends in an
error of redb (`StorageCall.exec_faults`).
-/

namespace ZenohRedb

open TxStore

/-- `x` keeps the discipline from phase `φ` on; it ends with a value and a phase that satisfy
`Q`, or with an error. It does not end with an error in a write transaction or after its
commit, and after a failing call only with an error of redb. -/
def StorageM.Obeys {α : Type} (Q : α → Phase → Prop) (x : StorageM α) (φ : Phase) : Prop :=
  ∀ buf, (x.run.run buf).Obeys
    (fun r ψ =>
      match r.1 with
      | .ok a => ψ ≠ .failed ∧ Q a ψ
      | .error e => ψ ≠ .writing ∧ ψ ≠ .committed ∧
          (ψ = .failed → e.isRedb = true)) φ

section Rules

variable {α β : Type} {φ : Phase}

/-- A phase in which an operation may give up of itself. -/
def MayThrow (φ : Phase) : Prop := φ = .idle ∨ φ = .reading

instance (φ : Phase) : Decidable (MayThrow φ) := inferInstanceAs (Decidable (_ ∨ _))

theorem MayThrow.error (h : MayThrow φ) (e : RedbBackendError) :
    φ ≠ .writing ∧ φ ≠ .committed ∧ (φ = .failed → e.isRedb = true) := by
  rcases h with rfl | rfl
  · exact ⟨nofun, nofun, nofun⟩
  · exact ⟨nofun, nofun, nofun⟩

theorem obeys_pure {Q : α → Phase → Prop} {a : α} (hφ : φ ≠ .failed) (h : Q a φ) :
    (pure a : StorageM α).Obeys Q φ := fun _ => ⟨hφ, h⟩

theorem obeys_orThrow {Q : α → Phase → Prop} {x : Except RedbBackendError α} (hφ : MayThrow φ)
    (h : ∀ a, Q a φ) : (orThrow x).Obeys Q φ := by
  intro buf
  cases x with
  | ok a =>
      refine ⟨?_, h a⟩
      rcases hφ with rfl | rfl
      · exact nofun
      · exact nofun
  | error e => exact hφ.error e

theorem obeys_throw {Q : α → Phase → Prop} {e : RedbBackendError} (hφ : MayThrow φ) :
    (throw e : StorageM α).Obeys Q φ := fun _ => hφ.error e

theorem obeys_keyBuf {Q : Bytes → Phase → Prop} (hφ : φ ≠ .failed) (h : ∀ bs, Q bs φ) :
    keyBuf.Obeys Q φ := fun buf => ⟨hφ, h buf⟩

theorem obeys_keyBufClear {Q : Unit → Phase → Prop} (hφ : φ ≠ .failed) (h : Q () φ) :
    keyBufClear.Obeys Q φ := fun _ => ⟨hφ, h⟩

theorem obeys_keyBufExtend {Q : Unit → Phase → Prop} {bs : Bytes} (hφ : φ ≠ .failed)
    (h : Q () φ) : (keyBufExtend bs).Obeys Q φ := fun _ => ⟨hφ, h⟩

/-- A call to redb: either it goes through, or the operation ends in the failed phase. -/
theorem obeys_redb {c : RedbCmd} {Q : c.Ret → Phase → Prop} {ψ : Phase} (hc : φ.Allows c)
    (hψ : φ.after c true = ψ) (hne : ψ ≠ .failed) (h : ∀ a, Q a ψ) : (redb c).Obeys Q φ := by
  subst hψ
  intro buf
  refine ⟨hc, ?_⟩
  intro r
  cases r with
  | ok a => exact ⟨hne, h a⟩
  | error e =>
      exact ⟨nofun, nofun, fun _ => RedbBackendError.isRedb_ofRedb c e⟩

theorem obeys_beginRead {Q : Unit → Phase → Prop} (h : Q () .reading) :
    beginRead.Obeys Q .idle := obeys_redb trivial rfl (by decide) fun _ => h

theorem obeys_beginWrite {Q : Unit → Phase → Prop} (h : Q () .writing) :
    beginWrite.Obeys Q .idle := obeys_redb trivial rfl (by decide) fun _ => h

theorem obeys_commit {Q : Unit → Phase → Prop} (h : Q () .committed) :
    commit.Obeys Q .writing := obeys_redb trivial rfl (by decide) fun _ => h

/-- A call inside a read transaction. -/
theorem obeys_read {c : RedbCmd} {Q : c.Ret → Phase → Prop} (hc : Phase.reading.Allows c)
    (h : ∀ a, Q a .reading) : (redb c).Obeys Q .reading :=
  obeys_redb hc (Phase.after_reading hc true) (by decide) h

/-- A call inside a write transaction other than the commit. -/
theorem obeys_write {c : RedbCmd} {Q : c.Ret → Phase → Prop} (hc : Phase.writing.Allows c)
    (hne : c ≠ .commit) (h : ∀ a, Q a .writing) : (redb c).Obeys Q .writing :=
  obeys_redb hc (Phase.after_writing hc hne) (by decide) h

theorem obeys_bind {Q : β → Phase → Prop} {x : StorageM α} {f : α → StorageM β}
    (h : x.Obeys (fun a ψ => (f a).Obeys Q ψ) φ) : (x >>= f).Obeys Q φ := by
  intro buf
  show ((x.run.run buf) >>= _).Obeys _ φ
  rw [Prog.obeys_bind]
  -- an error of `x` is the error of the whole, in the phase `x` ended in
  refine (h buf).mono ?_
  rintro ⟨r, buf'⟩ ψ hr
  cases r with
  | ok a => exact hr.2 buf'
  | error e => exact hr

/-- A loop over a table in a read transaction stays in it when its body does. -/
theorem obeys_forItems {σ : Type} {t : TableName} {body : σ → Bytes → Bytes → StorageM σ}
    (hbody : ∀ acc k v, (body acc k v).Obeys (fun _ ψ => ψ = .reading) .reading)
    (n i : Nat) (acc : σ) :
    (forItems t body n i acc).Obeys (fun _ ψ => ψ = .reading) .reading := by
  induction n generalizing i acc with
  | zero => exact obeys_pure (by decide) rfl
  | succ n ih =>
      -- the step of the iterator, then the body, then the rest of the loop
      refine obeys_bind (obeys_read trivial ?_)
      intro item
      cases item with
      | none => exact obeys_pure (by decide) rfl
      | some kv =>
          refine obeys_bind ?_
          intro buf
          refine (hbody acc kv.1 kv.2 buf).mono ?_
          rintro ⟨r, buf'⟩ ψ hr
          cases r with
          | ok acc' =>
              obtain ⟨hne, rfl⟩ := hr
              exact ⟨hne, ih (i + 1) acc'⟩
          | error e => exact hr

end Rules

/-! ## The operations -/

section Operations

variable (z : ZExt) (self : RedbStorage)

theorem put_obeys (key : String) (value : StoredValue) :
    (self.put z key value).Obeys (fun _ ψ => ψ = .committed) .idle := by
  unfold RedbStorage.put
  split
  · exact obeys_throw (by decide)
  · refine obeys_bind (obeys_keyBufClear (by decide) ?_)
    refine obeys_bind (obeys_keyBufExtend (by decide) ?_)
    refine obeys_bind (obeys_orThrow (by decide) fun bytes => ?_)
    refine obeys_bind (obeys_beginWrite ?_)
    -- in the write transaction, up to the commit
    refine obeys_bind (obeys_write trivial nofun fun _ => ?_)
    refine obeys_bind (obeys_keyBuf (by decide) fun _ => ?_)
    refine obeys_bind (obeys_write trivial nofun fun _ => ?_)
    refine obeys_bind (obeys_write trivial nofun fun _ => ?_)
    refine obeys_bind (obeys_keyBuf (by decide) fun _ => ?_)
    refine obeys_bind (obeys_write trivial nofun fun _ => ?_)
    exact obeys_commit rfl

theorem delete_obeys (key : String) :
    (self.delete key).Obeys (fun _ ψ => ψ = .committed) .idle := by
  unfold RedbStorage.delete
  split
  · exact obeys_throw (by decide)
  · refine obeys_bind (obeys_keyBufClear (by decide) ?_)
    refine obeys_bind (obeys_keyBufExtend (by decide) ?_)
    refine obeys_bind (obeys_beginWrite ?_)
    -- both tables are opened before either is changed
    refine obeys_bind (obeys_write trivial nofun fun _ => ?_)
    refine obeys_bind (obeys_write trivial nofun fun _ => ?_)
    refine obeys_bind (obeys_keyBuf (by decide) fun _ => ?_)
    refine obeys_bind (obeys_write trivial nofun fun _ => ?_)
    refine obeys_bind (obeys_keyBuf (by decide) fun _ => ?_)
    refine obeys_bind (obeys_write trivial nofun fun _ => ?_)
    exact obeys_commit rfl

theorem clear_obeys : self.clear.Obeys (fun _ ψ => ψ = .committed) .idle := by
  unfold RedbStorage.clear
  split
  · exact obeys_throw (by decide)
  · refine obeys_bind (obeys_beginWrite ?_)
    refine obeys_bind (obeys_write trivial nofun fun _ => ?_)
    refine obeys_bind (obeys_write trivial nofun fun _ => ?_)
    refine obeys_bind (obeys_write trivial nofun fun _ => ?_)
    refine obeys_bind (obeys_write trivial nofun fun _ => ?_)
    exact obeys_commit rfl

theorem initTables_obeys : initTables.Obeys (fun _ ψ => ψ = .committed) .idle := by
  refine obeys_bind (obeys_beginWrite ?_)
  refine obeys_bind (obeys_write trivial nofun fun _ => ?_)
  refine obeys_bind (obeys_write trivial nofun fun _ => ?_)
  exact obeys_commit rfl

theorem get_obeys (key : String) :
    (RedbStorage.get z key).Obeys (fun _ ψ => ψ = .reading) .idle := by
  refine obeys_bind (obeys_keyBufClear (by decide) ?_)
  refine obeys_bind (obeys_keyBufExtend (by decide) ?_)
  refine obeys_bind (obeys_beginRead ?_)
  refine obeys_bind (obeys_read trivial fun _ => ?_)
  refine obeys_bind (obeys_read trivial fun _ => ?_)
  refine obeys_bind (obeys_keyBuf (by decide) fun _ => ?_)
  refine obeys_bind (obeys_read trivial fun _ => ?_)
  refine obeys_bind (obeys_keyBuf (by decide) fun _ => ?_)
  refine obeys_bind (obeys_read trivial fun _ => ?_)
  -- a record that does not decode is an error after calls that went through
  exact obeys_orThrow (by decide) fun _ => rfl

theorem scanBody_obeys (sel : String → Bool) (acc : List (String × StoredValue)) (k v : Bytes) :
    (RedbStorage.scanBody z sel acc k v).Obeys (fun _ ψ => ψ = .reading) .reading := by
  refine obeys_bind (obeys_orThrow (by decide) fun key => ?_)
  split
  · refine obeys_bind (obeys_orThrow (by decide) fun info => ?_)
    obtain ⟨encoding, timestamp, deleted⟩ := info
    cases deleted with
    | true => exact obeys_pure (by decide) rfl
    | false =>
        refine obeys_bind (obeys_read trivial fun payload => ?_)
        cases payload with
        | none => exact obeys_pure (by decide) rfl
        | some bytes => exact obeys_pure (by decide) rfl
  · exact obeys_pure (by decide) rfl

theorem scan_obeys (sel : String → Bool) :
    (RedbStorage.scan z sel).Obeys (fun _ ψ => ψ = .reading) .idle := by
  refine obeys_bind (obeys_beginRead ?_)
  refine obeys_bind (obeys_read trivial fun _ => ?_)
  refine obeys_bind (obeys_read trivial fun _ => ?_)
  refine obeys_bind (obeys_read trivial fun n => ?_)
  exact obeys_forItems (scanBody_obeys z sel) (n + 1) 0 []

theorem countBody_obeys (acc : Nat) (k v : Bytes) :
    (RedbStorage.countBody z acc k v).Obeys (fun _ ψ => ψ = .reading) .reading := by
  refine obeys_bind (obeys_orThrow (by decide) fun info => ?_)
  obtain ⟨encoding, timestamp, deleted⟩ := info
  cases deleted with
  | true => exact obeys_pure (by decide) rfl
  | false => exact obeys_pure (by decide) rfl

theorem count_obeys : (RedbStorage.count z).Obeys (fun _ ψ => ψ = .reading) .idle := by
  refine obeys_bind (obeys_beginRead ?_)
  refine obeys_bind (obeys_read trivial fun _ => ?_)
  refine obeys_bind (obeys_read trivial fun n => ?_)
  exact obeys_forItems (countBody_obeys z) (n + 1) 0 0

/-- Turning the result of an operation into a reply keeps the discipline. -/
theorem obeys_reply {α : Type} {Q : α → Phase → Prop} {x : StorageM α} {f : α → Reply}
    (h : x.Obeys Q .idle) :
    (x >>= fun a => pure (f a)).Obeys (fun r ψ => ∃ a, r = f a ∧ Q a ψ) .idle := by
  refine obeys_bind ?_
  intro buf
  refine (h buf).mono ?_
  rintro ⟨r, buf'⟩ ψ hr
  cases r with
  | ok a => exact ⟨hr.1, fun _ => ⟨hr.1, a, rfl, hr.2⟩⟩
  | error e => exact hr

theorem StorageM.Obeys.mono {α : Type} {Q Q' : α → Phase → Prop} {x : StorageM α} {φ : Phase}
    (h : x.Obeys Q φ) (hQ : ∀ a ψ, Q a ψ → Q' a ψ) : x.Obeys Q' φ := by
  intro buf
  refine (h buf).mono ?_
  rintro ⟨r, buf'⟩ ψ hr
  cases r with
  | ok a => exact ⟨hr.1, hQ a ψ hr.2⟩
  | error e => exact hr

/-- Every operation keeps the discipline. One that writes succeeds with its commit, one that
reads in its read transaction. -/
theorem StorageCall.obeys (c : StorageCall) :
    (c.prog z self).Obeys (fun _ ψ => ψ = if c.isWrite then .committed else .reading) .idle := by
  cases c with
  | put key value => exact (obeys_reply (put_obeys z self key value)).mono fun _ _ ⟨_, _, h⟩ => h
  | delete key => exact (obeys_reply (delete_obeys self key)).mono fun _ _ ⟨_, _, h⟩ => h
  | clear => exact (obeys_reply (clear_obeys self)).mono fun _ _ ⟨_, _, h⟩ => h
  | get key => exact (obeys_reply (get_obeys z key)).mono fun _ _ ⟨_, _, h⟩ => h
  | getAll => exact (obeys_reply (scan_obeys z _)).mono fun _ _ ⟨_, _, h⟩ => h
  | getByPrefix keyPrefix => exact (obeys_reply (scan_obeys z _)).mono fun _ _ ⟨_, _, h⟩ => h
  | getByWildcard pattern => exact (obeys_reply (scan_obeys z _)).mono fun _ _ ⟨_, _, h⟩ => h
  | count => exact (obeys_reply (count_obeys z)).mono fun _ _ ⟨_, _, h⟩ => h

end Operations

/-! ## What that says about runs -/

section Runs

variable {α : Type} {Q : α → Phase → Prop} {x : StorageM α}

/-- **An error has no effect.** -/
theorem StorageM.Obeys.exec_error (h : x.Obeys Q .idle) {fs : List (Option String)}
    {buf : Bytes} {db : Db} {e : RedbBackendError} (he : (x.exec fs buf db).1 = .error e) :
    (x.exec fs buf db).2.2 = db := by
  obtain ⟨ψ, hQ, hdb⟩ := (h buf).exec fs db
  have hr : (TxStore.exec fs (x.run.run buf) db).1.1 = .error e := he
  rw [hr] at hQ
  exact hdb hQ.2.1

/-- **A run with faults** ends in an error of redb that has no effect, or it gives the result
and the contents of the run without faults. -/
theorem StorageM.Obeys.exec_faults (h : x.Obeys Q .idle) (fs : List (Option String))
    (buf : Bytes) (db : Db) :
    (∃ e, (x.exec fs buf db).1 = .error e ∧ e.isRedb = true ∧
      (x.exec fs buf db).2.2 = db) ∨
    x.exec fs buf db = x.exec [] buf db := by
  rcases (h buf).exec_faults fs db with ⟨hQ, hdb⟩ | hsame
  · -- the failed phase excludes a value, and says what kind of error it is
    left
    cases hr : (TxStore.exec fs (x.run.run buf) db).1.1 with
    | ok a =>
        rw [hr] at hQ
        exact absurd rfl hQ.1
    | error e =>
        rw [hr] at hQ
        exact ⟨e, hr, hQ.2.2 rfl, hdb⟩
  · right
    unfold StorageM.exec
    rw [hsame]

end Runs

/-- A call of an operation with faults, on opened tables: an error of redb and the tables as
they were, or what `StorageCall.spec` says. -/
theorem StorageCall.exec_tables_faults (z : ZExt) (self : RedbStorage) (c : StorageCall)
    (fs : List (Option String)) (buf : Bytes) (T : Tables) :
    (∃ e, ((c.prog z self).exec fs buf T.db).1 = .error e ∧ e.isRedb = true ∧
      ((c.prog z self).exec fs buf T.db).2.2 = T.db) ∨
    (((c.prog z self).exec fs buf T.db).1 = (c.spec z self.config.readOnly T).1 ∧
      ((c.prog z self).exec fs buf T.db).2.2 = (c.spec z self.config.readOnly T).2.db) := by
  rcases (StorageCall.obeys z self c).exec_faults fs buf T.db with hf | hsame
  · exact Or.inl hf
  · rw [hsame]
    exact Or.inr (StorageCall.exec_tables z self c buf T)

end ZenohRedb
