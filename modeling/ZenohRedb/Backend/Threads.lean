import ZenohRedb.Lib.Stages
import ZenohRedb.Backend.Frames
import ZenohRedb.Backend.System
import ZenohRedb.Storage.Faults

set_option autoImplicit false

/-! # Threads that make single calls to redb

The system of `Backend/System.lean`, in which a call of a storage is one step, and the same
system as it really runs (`Threads.step`): threads call the storages they hold, each call makes
its calls to redb one after the other, and any of these may fail; between them come those of the
other threads, on this file or another, and the steps of the backend's calls.

The second system refines the first one (`Threads.threads_refine`): each move stands for one step of
the other system or for none (`Threads.effect`), and after every run the two backends are the
same. An operation stands for its step in the call in which it takes effect
(`Lib/Stages.lean`), which lies between its invocation and its return. One whose commit fails
stands for none: such a commit is assumed to leave the old contents, also for a storage that is
created on the file later (`Lib/Store.lean`).
-/

namespace ZenohRedb

open TxStore

/-- A running call of a storage: the clone of the storage it uses, what is left of it, the
transaction it holds on the database, and whether one of its calls to redb has failed. -/
structure RunningCall where
  arc : StorageArc
  op : ClientOp
  rest : RedbProg (Except RedbBackendError Reply × Bytes)
  txn : Txn TableName Bytes Bytes
  failed : Bool

/-- The backend, for every file the thread that holds the write transaction of its database, and
the calls of storages that are running. -/
structure Threads (ι : Type) where
  backend : Backend
  writer : PathBuf → Option ι
  running : List (ι × RunningCall)

/-- What the threads do. -/
inductive ThreadMove (ι : Type)
  | backend (a : BackendAction)
  /-- Call an operation of the storage that is held under the number. -/
  | invoke (i : ι) (id : Nat) (c : StorageCall) (buf : Bytes)
  /-- The next call to redb. -/
  | call (i : ι)
  /-- The next call to redb fails. -/
  | fail (i : ι) (e : String)
  /-- The operation returns. -/
  | ret (i : ι)

/-- A move that is not somebody else's doing. -/
def ThreadMove.Ours {ι : Type} : ThreadMove ι → Prop
  | .backend a => a.Ours
  | _ => True

/-- What a move returns. -/
inductive ThreadResult (ι : Type)
  | backend (r : BackendResult)
  | returned (i : ι) (arc : StorageArc) (file : PathBuf) (c : StorageCall)
      (r : Except RedbBackendError Reply) (failed : Bool)
  | moved
  /-- The move is not possible: the thread has to wait, or has nothing to do. -/
  | nothing

/-- What thread `i` returns from an operation in which no call to redb has failed: the reply, or
`none` for an error. -/
def ThreadResult.replyTo {ι : Type} [DecidableEq ι] (i : ι) :
    ThreadResult ι → Option (Option Reply)
  | .returned j _ _ _ r false => if j = i then some r.toOption else none
  | _ => none

theorem ThreadResult.replyTo_eq_some {ι : Type} [DecidableEq ι] {i : ι} {x : ThreadResult ι}
    {reply : Option Reply} (h : x.replyTo i = some reply) :
    ∃ arc file c r, x = .returned i arc file c r false ∧ r.toOption = reply := by
  cases x with
  | returned j arc file c r failed =>
      cases failed with
      | true => cases h
      | false =>
          simp only [replyTo, Option.ite_none_right_eq_some, Option.some.injEq] at h
          obtain ⟨rfl, hr⟩ := h
          exact ⟨arc, file, c, r, rfl, hr⟩
  | _ => cases h

namespace Threads

variable {ι : Type} [DecidableEq ι]

/-- No thread runs a call. -/
def new (config : RedbBackendConfig) (disk : Disk) : Threads ι :=
  ⟨.new config disk, fun _ => none, []⟩

/-- The call a thread is running. -/
def find (s : Threads ι) (i : ι) : Option RunningCall := (s.running.find? (·.1 = i)).map (·.2)

/-- The calls that are running when thread `i` goes on with `t`. -/
def put (s : Threads ι) (i : ι) (t : Option RunningCall) : List (ι × RunningCall) :=
  t.toList.map (i, ·) ++ s.running.filter (·.1 ≠ i)

/-- A clone that a running call uses is borrowed, so a caller can drop it only if it holds
another clone of the storage. -/
def allows (s : Threads ι) : BackendAction → Bool
  | .dropStorage id =>
      s.running.all (·.2.arc.id ≠ id) || 1 < s.backend.held.countP (·.id = id)
  | _ => true

/-- The running call `i` makes the next call of its operation, on the database in the file of its
storage. `begin_write` waits until no write transaction of that database is live. -/
def callRedb (s : Threads ι) (i : ι) : ThreadResult ι × Threads ι :=
  match s.find i with
  | some ⟨arc, op, .call c k, txn, failed⟩ =>
      let file := s.backend.fileOf arc
      if c.waits (s.writer file) then (.nothing, s)
      else
        match s.backend.disk.read arc.storage.db with
        | some (.database db isOpen) =>
            let entry := FileEntry.database (perform (ε := String) c db txn).2.1 isOpen
            (.moved, {
              backend := { s.backend with disk := s.backend.disk.write arc.storage.db entry }
              writer := Function.update s.writer file (c.writerAfter i (s.writer file))
              running := s.put i (some
                ⟨arc, op, k (perform c db txn).1, (perform (ε := String) c db txn).2.2, failed⟩) })
        | _ => (.nothing, s)
  | _ => (.nothing, s)

/-- The next call of thread `i` fails. The files stay as they are, also when it is a commit. -/
def failRedb (s : Threads ι) (i : ι) (e : String) : ThreadResult ι × Threads ι :=
  match s.find i with
  | some ⟨arc, op, .call c k, txn, _⟩ =>
      let file := s.backend.fileOf arc
      (.moved, { s with
        writer := Function.update s.writer file (c.writerFault i (s.writer file))
        running := s.put i (some ⟨arc, op, k (.error (.fault e)), txn.afterFault c, true⟩) })
  | _ => (.nothing, s)

/-- The running call `i` returns from its operation, and drops its transaction. -/
def ret (s : Threads ι) (i : ι) : ThreadResult ι × Threads ι :=
  match s.find i with
  | some ⟨arc, op, .ret a, _, failed⟩ =>
      let file := s.backend.fileOf arc
      (.returned i arc file op.1 a.1 failed, { s with
        writer := Function.update s.writer file
          (if s.writer file = some i then none else s.writer file)
        running := s.put i none })
  | _ => (.nothing, s)

/-- One move of any thread. -/
def step (z : ZExt) (s : Threads ι) : ThreadMove ι → ThreadResult ι × Threads ι
  | .backend a =>
      if s.allows a then
        (.backend (s.backend.step a).1, { s with backend := (s.backend.step a).2 })
      else (.nothing, s)
  | .invoke i id c buf =>
      match s.find i, s.backend.held.find? (·.id = id) with
      | none, some arc =>
          let t : RunningCall := ⟨arc, (c, buf), clientBody z arc.storage (c, buf), .idle, false⟩
          (.moved, { s with running := s.put i (some t) })
      | _, _ => (.nothing, s)
  | .call i => s.callRedb i
  | .fail i e => s.failRedb i e
  | .ret i => s.ret i

/-- The step of the other system that a move stands for, if there is one: a step of a backend
call, and the call of a storage in which an operation takes effect. It does so at its
`begin_read` or its commit, or, if it makes no call to redb, when it returns. -/
def effect (s : Threads ι) : ThreadMove ι → List SystemAction
  | .backend a => if s.allows a then [.backend a] else []
  | .call i =>
      match s.find i with
      | some ⟨arc, op, .call c _, _, _⟩ =>
          if c.point?.isSome then [.call arc.id op.1 op.2 []] else []
      | _ => []
  | .ret i =>
      match s.find i with
      | some ⟨arc, op, .ret _, .idle, false⟩ => [.call arc.id op.1 op.2 []]
      | _ => []
  | _ => []

/-! ## The invariant -/

/-- What holds of a running call of thread `i`. The storage it uses is held; after a failure it
only has to return an error; otherwise `Stage` says how far it is on the database in its file,
and if it has taken effect its result satisfies `P`; and in a write transaction the thread is the
one that holds it. -/
structure Fits (z : ZExt) (P : ι → SystemResult → Prop) (s : Threads ι) (i : ι) (t : RunningCall) :
    Prop where
  held : t.arc ∈ s.backend.held
  failed : t.failed = true → ∃ a, t.rest = .ret a ∧ EndsWell a .failed
  stage : t.failed = false → ∃ db res,
    s.backend.disk.files (s.backend.fileOf t.arc) = some (.database db true) ∧
      Stage EndsWell (clientBody z t.arc.storage t.op) db t.rest t.txn res ∧
      ∀ r, res = some r → P i (.reply t.arc (s.backend.fileOf t.arc) t.op.1 r.1)
  writer : t.failed = false → ∀ w, t.txn = .write w →
    s.writer (s.backend.fileOf t.arc) = some i

/-- The invariant of the system. -/
structure Sound (z : ZExt) (P : ι → SystemResult → Prop) (s : Threads ι) : Prop where
  inv : s.backend.Inv
  ids : s.backend.Ids
  fits : ∀ i t, (i, t) ∈ s.running → s.Fits z P i t

variable {z : ZExt} {P P' : ι → SystemResult → Prop} {s s' : Threads ι} {i : ι} {t : RunningCall}

omit [DecidableEq ι] in
theorem sound_new (config : RedbBackendConfig) (disk : Disk) :
    (new config disk : Threads ι).Sound z P where
  inv := Backend.inv_new config disk
  ids := Backend.ids_new config disk
  fits _ _ h := absurd h List.not_mem_nil

theorem mem_of_find (h : s.find i = some t) : (i, t) ∈ s.running := by
  obtain ⟨p, hp, rfl⟩ := Option.map_eq_some_iff.mp h
  have hi : p.1 = i := by simpa using List.find?_some hp
  rw [← hi]
  exact List.mem_of_find?_eq_some hp

theorem mem_put {t' : Option RunningCall} {p : ι × RunningCall} :
    p ∈ s.put i t' ↔ (∃ t, t' = some t ∧ p = (i, t)) ∨ (p ∈ s.running ∧ p.1 ≠ i) := by
  unfold put
  rw [List.mem_append, List.mem_filter, decide_eq_true_iff]
  refine or_congr ?_ Iff.rfl
  cases t' with
  | none => simp
  | some t => simp

omit [DecidableEq ι] in
/-- The file of a storage that is held holds an open database. -/
theorem Sound.database (h : s.Sound z P) {arc : StorageArc} (harc : arc ∈ s.backend.held) :
    ∃ db, s.backend.disk.files (s.backend.fileOf arc) = some (.database db true) := by
  obtain ⟨e, he, hopen⟩ := h.inv.locked (Backend.mem_live.mpr (Or.inr (Or.inr harc)))
  cases e with
  | other => cases hopen
  | database db isOpen =>
      obtain rfl : isOpen = true := hopen
      exact ⟨db, he⟩

omit [DecidableEq ι] in
/-- What happens elsewhere leaves a running call as it is: its file still holds an open database,
with other contents only if it is not writing. -/
theorem Fits.frame (h : s.Fits z P i t) (hP : ∀ x, P i x → P' i x)
    (hheld : t.arc ∈ s'.backend.held)
    (hres : s'.backend.disk.resolve = s.backend.disk.resolve)
    (hfiles : ∀ db, s.backend.disk.files (s.backend.fileOf t.arc) = some (.database db true) →
      ∃ db', s'.backend.disk.files (s.backend.fileOf t.arc) = some (.database db' true) ∧
        (s.writer (s.backend.fileOf t.arc) = some i → db' = db))
    (hwriter : s.writer (s.backend.fileOf t.arc) = some i →
      s'.writer (s.backend.fileOf t.arc) = some i) : s'.Fits z P' i t := by
  have hfile : s'.backend.fileOf t.arc = s.backend.fileOf t.arc :=
    congrFun (Backend.fileOf_congr hres) t.arc
  constructor
  case held => exact hheld
  case failed => exact h.failed
  case stage =>
    intro hf
    obtain ⟨db, res, hread, hstage, hr⟩ := h.stage hf
    obtain ⟨db', hread', hsame⟩ := hfiles db hread
    rw [hfile]
    refine ⟨db', res, hread', ?_, fun r hres => hP _ (hr r hres)⟩
    by_cases hw : ∃ w, t.txn = .write w
    · obtain ⟨w, hw⟩ := hw
      rw [hsame (h.writer hf w hw)]
      exact hstage
    · exact hstage.frame (fun w htxn => hw ⟨w, htxn⟩) db'
  case writer =>
    intro hf w hw
    rw [hfile]
    exact hwriter (h.writer hf w hw)

/-! ## The moves -/

omit [DecidableEq ι] in
/-- A step of a call of the backend. -/
theorem Sound.backend (h : s.Sound z P) (hP : ∀ j x, P j x → P' j x) {a : BackendAction}
    (ha : a.Ours) (hallows : s.allows a = true) :
    ({ s with backend := (s.backend.step a).2 } : Threads ι).Sound z P' where
  inv := h.inv.step a
  ids := h.ids.step a
  fits i t ht := by
    have hfits := h.fits i t ht
    have hdrop : a = .dropStorage t.arc.id → 1 < s.backend.held.countP (·.id = t.arc.id) := by
      rintro rfl
      rw [allows, Bool.or_eq_true, List.all_eq_true] at hallows
      rcases hallows with hall | hmore
      · exact absurd rfl (of_decide_eq_true (hall (i, t) ht))
      · exact of_decide_eq_true hmore
    have hheld : t.arc ∈ (s.backend.step a).2.held :=
      Backend.held_step h.ids ha hfits.held hdrop
    refine hfits.frame (hP i) hheld (Backend.frame_step s.backend a).1 ?_ id
    intro db hread
    refine ⟨db, ?_, fun _ => rfl⟩
    rw [Backend.files_step h.inv ha (Backend.mem_live.mpr (Or.inr (Or.inr hfits.held)))
      (Backend.mem_live.mpr (Or.inr (Or.inr hheld)))]
    exact hread

/-- A call of a storage begins. -/
theorem Sound.invoke (h : s.Sound z P) (hP : ∀ j x, P j x → P' j x) {arc : StorageArc}
    (harc : arc ∈ s.backend.held) (i : ι) (op : ClientOp) :
    ({ s with running := s.put i (some
      ⟨arc, op, clientBody z arc.storage op, .idle, false⟩) } : Threads ι).Sound z P' where
  inv := h.inv
  ids := h.ids
  fits j t ht := by
    rcases mem_put.mp ht with ⟨t', heq, hp⟩ | ⟨hmem, -⟩
    · cases heq
      cases hp
      obtain ⟨db, hread⟩ := h.database harc
      exact ⟨harc, nofun, fun _ => ⟨db, none, hread, .fresh, nofun⟩, nofun⟩
    · exact (h.fits j t hmem).frame (hP j) (h.fits j t hmem).held rfl
        (fun db hread => ⟨db, hread, fun _ => rfl⟩) id

/-- In the other system, the call of a storage that is held is its operation, run alone. -/
theorem act_call {b : Backend} (hids : b.Ids) {arc : StorageArc} (hheld : arc ∈ b.held) {db : Db}
    (hread : b.disk.files (b.fileOf arc) = some (.database db true)) (op : ClientOp) :
    b.act z (.call arc.id op.1 op.2 [])
      = (.reply arc (b.fileOf arc) op.1 (exec [] (clientBody z arc.storage op) db).1.1,
          { b with
            disk := b.disk.write arc.storage.db
              (.database (exec [] (clientBody z arc.storage op) db).2 true) }) := by
  have hread' : b.disk.read arc.storage.db = some (.database db true) := hread
  unfold Backend.act Backend.callStorage
  simp only [hids.find hheld, RedbStorage.onDisk_eq arc.storage _ [] op.2 hread']
  rfl

/-- A call to redb, by a thread that can make it. -/
theorem Sound.call_cases (h : s.Sound z P) (i : ι) :
    (s.callRedb i = (.nothing, s) ∧ s.effect (.call i) = []) ∨
    ∃ arc op c k txn db res, s.find i = some ⟨arc, op, .call c k, txn, false⟩ ∧
      c.waits (s.writer (s.backend.fileOf arc)) = false ∧
      s.backend.disk.files (s.backend.fileOf arc) = some (.database db true) ∧
      Stage EndsWell (clientBody z arc.storage op) db (.call c k) txn res ∧
      (∀ r, res = some r → P i (.reply arc (s.backend.fileOf arc) op.1 r.1)) ∧
      s.effect (.call i) = (if c.point?.isSome then [.call arc.id op.1 op.2 []] else []) ∧
      s.callRedb i = (.moved, {
        backend := { s.backend with
          disk := s.backend.disk.write arc.storage.db
            (.database (perform (ε := String) c db txn).2.1 true) }
        writer := Function.update s.writer (s.backend.fileOf arc)
          (c.writerAfter i (s.writer (s.backend.fileOf arc)))
        running := s.put i (some ⟨arc, op, k (perform c db txn).1,
          (perform (ε := String) c db txn).2.2, false⟩) }) := by
  cases hfind : s.find i with
  | none =>
      left
      simp only [callRedb, effect, hfind, and_self]
  | some t =>
      obtain ⟨arc, op, rest, txn, failed⟩ := t
      cases rest with
      | ret a =>
          left
          simp only [callRedb, effect, hfind, and_self]
      | call c k =>
          have hfits := h.fits i _ (mem_of_find hfind)
          cases failed with
          | true =>
              obtain ⟨a, ha, -⟩ := hfits.failed rfl
              cases ha
          | false =>
              obtain ⟨db, res, hread, hstage, hr⟩ := hfits.stage rfl
              have hread' : s.backend.disk.read arc.storage.db = some (.database db true) := hread
              cases hwait : c.waits (s.writer (s.backend.fileOf arc)) with
              | true =>
                  left
                  simp only [callRedb, effect, hfind, hwait, if_true, true_and]
                  cases c with
                  | beginWrite => rfl
                  | _ => cases hwait
              | false =>
                  right
                  refine ⟨arc, op, c, k, txn, db, res, rfl, hwait, hread, hstage, hr, ?_, ?_⟩
                  · simp only [effect, hfind]
                  · simp only [callRedb, hfind, hwait, hread', Bool.false_eq_true, if_false]

omit [DecidableEq ι] in
theorem Sound.mono (h : s.Sound z P) (hP : ∀ j x, P j x → P' j x) : s.Sound z P' where
  inv := h.inv
  ids := h.ids
  fits i t ht := (h.fits i t ht).frame (hP i) (h.fits i t ht).held rfl
    (fun db hread => ⟨db, hread, fun _ => rfl⟩) id

/-- **A call to redb** stands for the step in which its operation takes effect, or for none. -/
theorem Sound.call (h : s.Sound z P) (hP : ∀ j x, P j x → P' j x) (i : ι)
    (hnew : ∀ x ∈ (Runs.run (Backend.act z) s.backend (s.effect (.call i))).1, ∀ j, P' j x) :
    (s.callRedb i).2.Sound z P' ∧
      (Runs.run (Backend.act z) s.backend (s.effect (.call i))).2 = (s.callRedb i).2.backend := by
  rcases h.call_cases i with ⟨hrun, heff⟩ |
    ⟨arc, op, c, k, txn, db, res, hfind, hwait, hread, hstage, hr, heff, hrun⟩
  · rw [hrun, heff]
    exact ⟨h.mono hP, rfl⟩
  · have hbody := clientBody_endsWell z arc.storage op
    have hfits := h.fits i _ (mem_of_find hfind)
    have hread' : s.backend.disk.read arc.storage.db = some (.database db true) := hread
    obtain ⟨res', hnext, heffect⟩ := hstage.call hbody
    rw [hrun]
    -- the other system does the whole operation, or nothing
    have hcoarse : (Runs.run (Backend.act z) s.backend (s.effect (.call i))).2
          = { s.backend with
              disk := s.backend.disk.write arc.storage.db
                (.database (perform (ε := String) c db txn).2.1 true) } ∧
        ∀ r, res' = some r → P' i (.reply arc (s.backend.fileOf arc) op.1 r.1) := by
      rcases heffect with ⟨hpoint, hdb, hres⟩ | ⟨hpoint, hres, hres', hdb⟩
      · rw [heff, hpoint, hdb, Disk.write_read hread']
        refine ⟨rfl, fun r hsome => hP i _ (hr r ?_)⟩
        rw [← hres, hsome]
      · rw [heff, if_pos hpoint] at hnew ⊢
        have hact := act_call (z := z) h.ids hfits.held hread op
        rw [Runs.run_cons, hact] at hnew
        rw [Runs.run_cons, hact, hdb]
        refine ⟨rfl, fun r hsome => ?_⟩
        rw [hres'] at hsome
        cases hsome
        exact hnew _ List.mem_cons_self i
    refine ⟨?_, hcoarse.1⟩
    constructor
    case inv => exact h.inv.of_disk rfl (Disk.locked_rewrite hread' rfl)
    case ids => exact ⟨h.ids.below, h.ids.unique⟩
    case fits =>
      intro j t ht
      rcases mem_put.mp ht with ⟨t', heq, hp⟩ | ⟨hmem, hne⟩
      · cases heq
        cases hp
        refine ⟨hfits.held, nofun, fun _ => ⟨_, res', ?_, hnext, hcoarse.2⟩, ?_⟩
        · exact s.backend.disk.read_write arc.storage.db _
        · intro _ w' hw'
          show Function.update s.writer (s.backend.fileOf arc) _ (s.backend.fileOf arc) = some i
          rw [Function.update_self]
          rcases perform_eq_write hw' with rfl | ⟨hc, w, hw⟩
          · rfl
          · exact Cmd.writerAfter_self (hfits.writer rfl w hw) hc
      · refine (h.fits j t hmem).frame (hP j) (h.fits j t hmem).held rfl ?_ ?_
        · intro db' hdb'
          by_cases hfile : s.backend.fileOf t.arc = s.backend.fileOf arc
          · rw [hfile] at hdb' ⊢
            cases hread.symm.trans hdb'
            refine ⟨_, s.backend.disk.read_write arc.storage.db _, fun hj => ?_⟩
            by_cases hc : c = .commit
            · -- two threads would hold the write transaction
              subst hc
              obtain ⟨w, hw⟩ := hstage.write_of_commit hbody
              have hi := hfits.writer rfl w hw
              exact absurd (Option.some.inj (hj.symm.trans hi)) hne
            · exact perform_db hc db txn
          · exact ⟨db', (Disk.files_write _ hfile).trans hdb', fun _ => rfl⟩
        · intro hj
          show Function.update s.writer (s.backend.fileOf arc) _ (s.backend.fileOf t.arc) = some j
          by_cases hfile : s.backend.fileOf t.arc = s.backend.fileOf arc
          · rw [hfile] at hj ⊢
            rw [Function.update_self]
            exact Cmd.writerAfter_of_ne hj hne hwait
          · rw [Function.update_of_ne hfile]
            exact hj

/-- A thread leaves its operation, or goes on with it, on the same files: the others keep the
write transactions they hold. -/
theorem Sound.update (h : s.Sound z P) (hP : ∀ j x, P j x → P' j x) {t' : Option RunningCall}
    {writer : PathBuf → Option ι}
    (hwriter : ∀ j ≠ i, ∀ file, s.writer file = some j → writer file = some j)
    (hfits : ∀ t, t' = some t → (⟨s.backend, writer, s.put i t'⟩ : Threads ι).Fits z P' i t) :
    (⟨s.backend, writer, s.put i t'⟩ : Threads ι).Sound z P' where
  inv := h.inv
  ids := h.ids
  fits j t ht := by
    rcases mem_put.mp ht with ⟨t₁, heq, hp⟩ | ⟨hmem, hne⟩
    · cases hp
      exact hfits t heq
    · exact (h.fits j t hmem).frame (hP j) (h.fits j t hmem).held rfl
        (fun db hread => ⟨db, hread, fun _ => rfl⟩) (hwriter j hne _)

/-- A call to redb fails. -/
theorem Sound.fail (h : s.Sound z P) (hP : ∀ j x, P j x → P' j x) (i : ι) (e : String) :
    (s.failRedb i e).2.Sound z P' ∧ (s.failRedb i e).2.backend = s.backend := by
  unfold failRedb
  split
  · next arc op c k txn failed hfind =>
      refine ⟨h.update hP ?_ ?_, rfl⟩
      · intro j hne file hj
        by_cases hfile : file = s.backend.fileOf arc
        · subst hfile
          rw [Function.update_self]
          exact Cmd.writerFault_of_ne hj hne
        · rw [Function.update_of_ne hfile]
          exact hj
      · intro t ht
        cases ht
        have hfits := h.fits i _ (mem_of_find hfind)
        refine ⟨hfits.held, fun _ => ?_, nofun, nofun⟩
        cases failed with
        | true =>
            obtain ⟨a, ha, -⟩ := hfits.failed rfl
            cases ha
        | false =>
            obtain ⟨db, res, -, hstage, -⟩ := hfits.stage rfl
            exact hstage.fail (clientBody_endsWell z arc.storage op) e
  · exact ⟨h.mono hP, rfl⟩

/-- The state after thread `i` has returned from an operation on `file`. -/
def afterRet (s : Threads ι) (i : ι) (file : PathBuf) : Threads ι :=
  { s with
    writer := Function.update s.writer file
      (if s.writer file = some i then none else s.writer file)
    running := s.put i none }

theorem ret_cases (s : Threads ι) (i : ι) :
    (s.ret i = (.nothing, s) ∧ s.effect (.ret i) = []) ∨
    ∃ arc op a txn failed, s.find i = some ⟨arc, op, .ret a, txn, failed⟩ ∧
      s.ret i = (.returned i arc (s.backend.fileOf arc) op.1 a.1 failed,
        s.afterRet i (s.backend.fileOf arc)) := by
  cases hfind : s.find i with
  | none =>
      left
      simp only [ret, effect, hfind, and_self]
  | some t =>
      obtain ⟨arc, op, rest, txn, failed⟩ := t
      cases rest with
      | call c k =>
          left
          simp only [ret, effect, hfind, and_self]
      | ret a =>
          right
          refine ⟨arc, op, a, txn, failed, rfl, ?_⟩
          simp only [ret, hfind, afterRet]

theorem Sound.afterRet (h : s.Sound z P) (hP : ∀ j x, P j x → P' j x) (i : ι) (file : PathBuf) :
    (s.afterRet i file).Sound z P' := by
  refine h.update hP ?_ fun t ht => by cases ht
  intro j hne file' hj
  by_cases hfile : file' = file
  · subst hfile
    rw [Function.update_self]
    exact (writer_release _ i j).mpr ⟨hj, hne⟩
  · rw [Function.update_of_ne hfile]
    exact hj

/-- What an operation returns that has not failed, it returned when it took effect; one that has
made no call to redb takes effect now. -/
theorem Sound.ret_result (h : s.Sound z P) (hP : ∀ j x, P j x → P' j x) {arc : StorageArc}
    {op : ClientOp} {a : Except RedbBackendError Reply × Bytes} {txn : Txn TableName Bytes Bytes}
    (hfind : s.find i = some ⟨arc, op, .ret a, txn, false⟩)
    (hnew : ∀ x ∈ (Runs.run (Backend.act z) s.backend (s.effect (.ret i))).1, ∀ j, P' j x) :
    (Runs.run (Backend.act z) s.backend (s.effect (.ret i))).2 = s.backend ∧
      P' i (.reply arc (s.backend.fileOf arc) op.1 a.1) := by
  have hfits := h.fits i _ (mem_of_find hfind)
  obtain ⟨db, res, hread, hstage, hr⟩ := hfits.stage rfl
  rcases hstage.ret (fun _ _ hends => hends.1) with ⟨htxn, hres⟩ | ⟨rfl, hres, hexec⟩
  · have heff : s.effect (.ret i) = [] := by
      cases txn with
      | idle => exact absurd rfl htxn
      | _ => simp only [effect, hfind]
    rw [heff]
    exact ⟨rfl, hP i _ (hr a hres)⟩
  · have heff : s.effect (.ret i) = [.call arc.id op.1 op.2 []] := by simp only [effect, hfind]
    have hact := act_call (z := z) h.ids hfits.held hread op
    rw [hexec, Disk.write_read hread] at hact
    rw [heff, Runs.run_cons, hact] at hnew
    rw [heff, Runs.run_cons, hact]
    exact ⟨rfl, hnew _ List.mem_cons_self i⟩

/-- What a result says: an operation in which a call to redb failed returns an error of redb;
any other, and every step of a backend call, returns what the other system returned. -/
def Agrees (Q : Option ι → SystemResult → Prop) : ThreadResult ι → Prop
  | .backend r => Q none (.backend r)
  | .returned i arc file c r failed =>
      (failed = true → ∃ e, r = .error e ∧ e.isRedb = true) ∧
        (failed = false → Q (some i) (.reply arc file c r))
  | _ => True

/-- **One move** stands for its step of the other system, if there is one. -/
theorem Sound.step {Q Q' : Option ι → SystemResult → Prop}
    (h : s.Sound z fun i => Q (some i)) (hQ : ∀ o x, Q o x → Q' o x) {m : ThreadMove ι}
    (hm : m.Ours)
    (hnew : ∀ x ∈ (Runs.run (Backend.act z) s.backend (s.effect m)).1, ∀ o, Q' o x) :
    (s.step z m).2.Sound z (fun i => Q' (some i)) ∧
      (Runs.run (Backend.act z) s.backend (s.effect m)).2 = (s.step z m).2.backend ∧
      Agrees Q' (s.step z m).1 := by
  have hP : ∀ j x, Q (some j) x → Q' (some j) x := fun j => hQ (some j)
  have hnew' : ∀ x ∈ (Runs.run (Backend.act z) s.backend (s.effect m)).1, ∀ j, Q' (some j) x :=
    fun x hx j => hnew x hx (some j)
  cases m with
  | backend a =>
      simp only [Threads.step, effect] at hnew ⊢
      cases hallows : s.allows a with
      | false => exact ⟨h.mono hP, rfl, trivial⟩
      | true =>
          rw [hallows] at hnew
          exact ⟨h.backend hP hm hallows, rfl, hnew _ List.mem_cons_self none⟩
  | invoke i id c buf =>
      simp only [Threads.step]
      split
      · next arc _ hheld =>
          exact ⟨h.invoke hP (List.mem_of_find?_eq_some hheld) i (c, buf), rfl, trivial⟩
      · exact ⟨h.mono hP, rfl, trivial⟩
  | call i =>
      obtain ⟨hsound, hrun⟩ := h.call hP i hnew'
      refine ⟨hsound, hrun, ?_⟩
      rcases h.call_cases i with ⟨hres, -⟩ | ⟨arc, op, c, k, txn, db, res, -, -, -, -, -, -, hres⟩
      · show Agrees Q' (s.callRedb i).1
        rw [hres]
        trivial
      · show Agrees Q' (s.callRedb i).1
        rw [hres]
        trivial
  | fail i e =>
      obtain ⟨hsound, hbackend⟩ := h.fail hP i e
      refine ⟨hsound, hbackend.symm, ?_⟩
      simp only [Threads.step, failRedb]
      split <;> trivial
  | ret i =>
      rcases s.ret_cases i with ⟨hres, heff⟩ | ⟨arc, op, a, txn, failed, hfind, hres⟩
      · simp only [Threads.step, hres, heff]
        exact ⟨h.mono hP, rfl, trivial⟩
      · simp only [Threads.step, hres]
        refine ⟨h.afterRet hP i _, ?_⟩
        cases failed with
        | false =>
            obtain ⟨hrun, hreply⟩ := h.ret_result hP hfind hnew'
            exact ⟨hrun, nofun, fun _ => hreply⟩
        | true =>
            have heff : s.effect (.ret i) = [] := by simp only [effect, hfind]
            obtain ⟨a', ha', hends⟩ := (h.fits i _ (mem_of_find hfind)).failed rfl
            cases ha'
            rw [heff]
            exact ⟨rfl, fun _ => hends.2 rfl, nofun⟩

/-! ## Whole runs -/

/-- The steps of the other system that some moves stand for. -/
abbrev effects (z : ZExt) (s : Threads ι) (moves : List (ThreadMove ι)) : List SystemAction :=
  Runs.effects (step z) effect s moves

/-- What the other system returns in them. -/
abbrev effectResults (z : ZExt) (s : Threads ι) (moves : List (ThreadMove ι)) :
    List SystemResult :=
  (Runs.run (Backend.act z) s.backend (s.effects z moves)).1

theorem find_isSome (h : (i, t) ∈ s.running) : s.find i ≠ none := by
  intro hnone
  have hall := List.find?_eq_none.mp (Option.map_eq_none_iff.mp hnone) (i, t) h
  exact hall (decide_eq_true rfl)

/-- `y` is among `rs`, if it is that of a backend call or of a thread that runs nothing in `s`. A
thread that runs an operation there may have got its result before. -/
def Since (s : Threads ι) (rs : List SystemResult) (o : Option ι) (y : SystemResult) : Prop :=
  (∀ i, o = some i → s.find i = none) → y ∈ rs

theorem Since.append {rs : List SystemResult} {o : Option ι} {y : SystemResult}
    (h : s.Since rs o y) (more : List SystemResult) : s.Since (rs ++ more) o y :=
  fun ho => List.mem_append_left more (h ho)

theorem Agrees.append {rs : List SystemResult} {x : ThreadResult ι} (h : Agrees (s.Since rs) x)
    (more : List SystemResult) : Agrees (s.Since (rs ++ more)) x := by
  cases x with
  | backend r => exact Since.append h more
  | returned i arc file c r failed => exact ⟨h.1, fun hf => (h.2 hf).append more⟩
  | moved => trivial
  | nothing => trivial

/-- Some moves from a state that satisfies the invariant. -/
theorem Sound.run (h : s.Sound z fun _ _ => True) {moves : List (ThreadMove ι)}
    (hm : ∀ m ∈ moves, m.Ours) :
    (Runs.run (Threads.step z) s moves).2.Sound z (fun _ _ => True) ∧
      (Runs.run (Backend.act z) s.backend (s.effects z moves)).2
        = (Runs.run (Threads.step z) s moves).2.backend ∧
      ∀ x ∈ (Runs.run (Threads.step z) s moves).1,
        Agrees (s.Since (s.effectResults z moves)) x := by
  have hstart : s.Sound z fun i => s.Since [] (some i) := by
    refine ⟨h.inv, h.ids, fun i t ht => ?_⟩
    refine (h.fits i t ht).frame ?_ (h.fits i t ht).held rfl
      (fun db hread => ⟨db, hread, fun _ => rfl⟩) id
    intro x _ hidle
    exact absurd (hidle i rfl) (find_isSome ht)
  have hstep : ∀ rs (s' : Threads ι) b, ∀ m ∈ moves,
      s'.Sound z (fun i => s.Since rs (some i)) ∧ b = s'.backend →
      ((s'.step z m).2.Sound z
            (fun i => s.Since (rs ++ (Runs.run (Backend.act z) b (s'.effect m)).1) (some i)) ∧
          (Runs.run (Backend.act z) b (s'.effect m)).2 = (s'.step z m).2.backend) ∧
        Agrees (s.Since (rs ++ (Runs.run (Backend.act z) b (s'.effect m)).1))
          (s'.step z m).1 := by
    rintro rs s' b m hmem ⟨hs', rfl⟩
    obtain ⟨hnext, hbackend, hagrees⟩ := hs'.step (fun o x hx => Since.append hx _) (hm m hmem)
      fun x hx o _ => List.mem_append_right _ hx
    exact ⟨⟨hnext, hbackend⟩, hagrees⟩
  obtain ⟨⟨hend, hsame⟩, hresults⟩ := Runs.run_effects (Threads.step z) (Backend.act z) effect
    (fun rs s' b => s'.Sound z (fun i => s.Since rs (some i)) ∧ b = s'.backend)
    (fun rs x => Agrees (s.Since rs) x) hstep (fun rs more x hx => hx.append more) ⟨hstart, rfl⟩
  rw [List.nil_append] at hresults
  exact ⟨hend.mono fun _ _ _ => trivial, hsame, hresults⟩

/-- **Refinement.** Let any threads take the steps of the backend's calls and call the storages
they hold, call to redb by call to redb and interleaved in any way, any of these failing. The
system in which a call of a storage is one step without faults, and whose steps are those that
the moves stand for, reaches the same backend and the same files. In any part of the run, what a
thread returns from an operation that it has begun there, and in which no call to redb has
failed, the other system returns in the steps of the same part; an operation in which a call has
failed returns an error of redb. The steps of the backend's calls return the same. -/
theorem threads_refine (z : ZExt) (config : RedbBackendConfig) (disk : Disk)
    {before during : List (ThreadMove ι)} (hm : ∀ m ∈ before ++ during, m.Ours) {s : Threads ι}
    (hs : s = (Runs.run (step z) (new config disk) before).2) :
    (Runs.run (Backend.act z) (.new config disk)
        ((new config disk).effects z (before ++ during))).2
      = (Runs.run (step z) s during).2.backend ∧
    ∀ x ∈ (Runs.run (step z) s during).1, Agrees (s.Since (s.effectResults z during)) x := by
  have hbefore : ∀ m ∈ before, m.Ours := fun m h => hm m (List.mem_append_left _ h)
  have hduring : ∀ m ∈ during, m.Ours := fun m h => hm m (List.mem_append_right _ h)
  obtain ⟨hsound, -, -⟩ := (sound_new (z := z) config disk).run hbefore
  obtain ⟨-, hsame, -⟩ := (sound_new (z := z) config disk).run hm
  rw [← hs] at hsound
  refine ⟨?_, (hsound.run hduring).2.2⟩
  rw [Runs.run_append, ← hs] at hsame
  exact hsame

/-- A `get` that overlaps with a `put` and with the removal of the storage. It begins before the
`put` commits, so it has its place before it, and it finds nothing. -/
theorem threads_refine_get :
    let before : List (ThreadMove Bool) :=
      [.backend (.openStorage "s" none []), .backend (.insertStorage 0)]
    let during : List (ThreadMove Bool) :=
      [.invoke true 0 (.put "k" ⟨[1], .first, ⟨0, none⟩⟩) [], .call true, .call true,
        .invoke false 0 (.get "k") [], .call false, .call true, .call true, .call true,
        .backend (.dropStorage 0), .call true, .ret true, .backend (.removeStorage "s"),
        .call false, .call false, .call false, .call false, .ret false]
    let s := (Runs.run (step .layout) (new {} .blank) before).2
    ∃ arc file c r, .returned false arc file c r false ∈ (Runs.run (step .layout) s during).1 ∧
      r.toOption = some (.value none) ∧ .reply arc file c r ∈ s.effectResults .layout during := by
  intro before during s
  have hreplies : (Runs.run (step .layout) s during).1.filterMap (ThreadResult.replyTo false)
      = [some (.value none)] := by decide +kernel
  obtain ⟨x, hmem, hx⟩ := List.mem_filterMap.mp
    (hreplies ▸ List.mem_singleton_self (some (Reply.value none)))
  obtain ⟨arc, file, c, r, rfl, hr⟩ := ThreadResult.replyTo_eq_some hx
  have hours : ∀ m ∈ before ++ during, m.Ours := by
    simp [before, during, ThreadMove.Ours, BackendAction.Ours]
  have hidle : s.find false = none := by rfl
  obtain ⟨-, hresults⟩ := threads_refine .layout {} .blank hours (s := s) rfl
  obtain ⟨-, hreply⟩ := hresults _ hmem
  refine ⟨arc, file, c, r, hmem, hr, hreply rfl fun i hi => ?_⟩
  cases hi
  exact hidle

/-! ## Files as maps -/

/-- A step of the system in which nothing fails but by itself. -/
def Plain : SystemAction → Prop
  | .backend a => a.Ours
  | .call _ _ _ faults => faults = []

theorem effect_plain {m : ThreadMove ι} (hm : m.Ours) {a : SystemAction} (ha : a ∈ s.effect m) :
    Plain a := by
  cases m with
  | backend a' =>
      simp only [effect] at ha
      split at ha
      · rw [List.mem_singleton.mp ha]
        exact hm
      · cases ha
  | invoke i id c buf => cases ha
  | call i =>
      simp only [effect] at ha
      split at ha
      · split at ha
        · rw [List.mem_singleton.mp ha]
          rfl
        · cases ha
      · cases ha
  | fail i e => cases ha
  | ret i =>
      simp only [effect] at ha
      split at ha
      · rw [List.mem_singleton.mp ha]
        rfl
      · cases ha

theorem effects_plain {moves : List (ThreadMove ι)} (hm : ∀ m ∈ moves, m.Ours)
    {a : SystemAction} (ha : a ∈ s.effects z moves) : Plain a := by
  induction moves generalizing s with
  | nil => cases ha
  | cons m moves ih =>
      rcases List.mem_append.mp ha with ha | ha
      · exact effect_plain (hm m List.mem_cons_self) ha
      · exact ih (fun m' hm' => hm m' (List.mem_cons_of_mem m hm')) ha

theorem Plain.ours {a : SystemAction} (h : Plain a) : a.Ours := by
  cases a with
  | backend a => exact h
  | call id c buf faults => trivial

/-- What a call returns that has no faults is what the map of its file says. -/
theorem reply_of_act {b : Backend} {maps : FileMaps} (h : b.Sound z maps) {a : SystemAction}
    (ha : Plain a) {arc : StorageArc} {file : PathBuf} {c : StorageCall}
    {r : Except RedbBackendError Reply} (hr : (b.act z a).1 = .reply arc file c r) :
    r.map Reply.canon
      = ((maps file).answer arc.storage.config.readOnly c).1.map Reply.canon := by
  cases a with
  | backend a => cases hr
  | call id c' buf faults =>
      obtain rfl : faults = [] := ha
      cases hheld : b.held.find? (·.id = id) with
      | none =>
          simp only [Backend.act, Backend.callStorage, hheld] at hr
          cases hr
      | some arc' =>
          obtain ⟨r', disk, hcall, -, -, -, hanswer⟩ := h.callStorage hheld c' buf []
          simp only [Backend.act, hcall] at hr
          cases hr
          refine (hanswer.resolve_left ?_).1
          rintro ⟨hne, -⟩
          exact hne rfl

/-- **Every file is a map, whatever the interleaving.** Start on a disk whose files stand for some
maps, and let the threads run as in `threads_refine`. The results of the other system change the
maps one after the other, and at the end the files stand for the maps after all of them. An
operation that has returned, and in which no call to redb has failed, has a place among these
results, and has returned what the map of its file said there. -/
theorem threads_maps (z : ZExt) (config : RedbBackendConfig) {disk : Disk} {maps : FileMaps}
    (hdisk : disk.Keeps z maps) {moves : List (ThreadMove ι)} (hm : ∀ m ∈ moves, m.Ours) :
    (Runs.run (step z) (new config disk) moves).2.backend.disk.Keeps z
      (maps.replay ((new config disk : Threads ι).effectResults z moves)) ∧
    ∀ i arc file c r, .returned i arc file c r false
        ∈ (Runs.run (step z) (new config disk) moves).1 →
      ∃ rs rs', (new config disk : Threads ι).effectResults z moves
          = rs ++ .reply arc file c r :: rs' ∧
        r.map Reply.canon
          = ((maps.replay rs file).answer arc.storage.config.readOnly c).1.map Reply.canon := by
  obtain ⟨-, hsame, hresults⟩ := (sound_new (z := z) config disk).run hm
  have hplain : ∀ a ∈ (new config disk : Threads ι).effects z moves, Plain a :=
    fun a ha => effects_plain hm ha
  refine ⟨?_, ?_⟩
  · rw [← hsame]
    exact (Backend.run_sound z config hdisk (fun a ha => (hplain a ha).ours)
      (Prod.eta _).symm).keeps
  · intro i arc file c r hret
    obtain ⟨-, hreply⟩ := hresults _ hret
    have hmem := hreply rfl fun j hj => rfl
    obtain ⟨rs, rs', hsplit⟩ := List.append_of_mem hmem
    refine ⟨rs, rs', hsplit, ?_⟩
    obtain ⟨as, a, as', hactions, rfl, hact⟩ := Runs.run_split _ _ hsplit
    rw [hactions] at hplain
    refine reply_of_act (a := a) ?_ (hplain a (by simp)) hact.symm
    exact Backend.run_sound z config hdisk
      (fun a' ha' => (hplain a' (List.mem_append_left _ ha')).ours) (Prod.eta _).symm

/-- Two storages, and on one of them two clients: of two puts the one that fails to commit is
left out, and the map has the other one. -/
theorem threads_maps_put :
    let value : StoredValue := ⟨[1], .first, ⟨0, none⟩⟩
    let moves : List (ThreadMove Bool) :=
      [.backend (.openStorage "s" none []), .backend (.openStorage "t" none []),
        .backend (.insertStorage 1), .backend (.insertStorage 0),
        .invoke true 0 (.put "k" value) [], .call true, .call true, .call true, .call true,
        .call true, .fail true "disk full", .invoke false 0 (.put "k" value) [], .ret true,
        .invoke true 1 (.get "k") [], .call false, .call true, .call false, .call false,
        .call true, .call false, .call true, .call false, .call false, .call true, .call true,
        .ret true, .ret false]
    (Runs.run (step .layout) (new {} .blank) moves).2.backend.disk.Keeps .layout
        (FileMaps.replay (fun _ => ∅)
          ((new {} .blank : Threads Bool).effectResults .layout moves)) ∧
      ∃ arc file c r rs rs', .returned false arc file c r false
          ∈ (Runs.run (step .layout) (new {} .blank) moves).1 ∧ r.toOption = some .done ∧
        (new {} .blank : Threads Bool).effectResults .layout moves
          = rs ++ .reply arc file c r :: rs' := by
  intro value moves
  have hours : ∀ m ∈ moves, m.Ours := by simp [moves, ThreadMove.Ours, BackendAction.Ours]
  obtain ⟨hkeeps, hplaces⟩ := threads_maps .layout {} Disk.keeps_blank hours
  refine ⟨hkeeps, ?_⟩
  have hreplies : (Runs.run (step .layout) (new {} .blank) moves).1.filterMap
      (ThreadResult.replyTo false) = [some .done] := by decide +kernel
  obtain ⟨x, hmem, hx⟩ := List.mem_filterMap.mp
    (hreplies ▸ List.mem_singleton_self (some Reply.done))
  obtain ⟨arc, file, c, r, rfl, hr⟩ := ThreadResult.replyTo_eq_some hx
  obtain ⟨rs, rs', hsplit, -⟩ := hplaces false arc file c r hmem
  exact ⟨arc, file, c, r, rs, rs', hmem, hr, hsplit⟩

end Threads

end ZenohRedb
