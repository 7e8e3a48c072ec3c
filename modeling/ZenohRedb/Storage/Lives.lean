import ZenohRedb.Storage.Faults

set_option autoImplicit false

/-! # Crashes

A database outlives the processes that use it. A process opens it, which creates the tables
that do not exist, and its clients call the operations of the storage. Any call to redb may
fail, and at any point, in the middle of whatever goes on, the process may be gone. What redb
has committed is on disk then, and nothing else: as everywhere, a commit that fails is assumed to
leave the old contents on the disk as well (`Lib/Store.lean`). The next process goes on from
there, maybe with another configuration (`Lives`).

The calls that took effect in all these lives are in one order (`Durable`). It explains what is
on disk and everything that was returned in any life, and a value that was stored stays until a
call in the order changes it (`lives_durable`).
-/

namespace ZenohRedb

open TxStore

/-- The transaction of `RedbStorage::new`, as what a client runs. -/
def openBody (_ : Unit) : RedbProg (Except RedbBackendError Unit × Bytes) := initTables.run.run []

/-- A process that opens a database. -/
abbrev Opener := FSys Unit Unit TableName Bytes Bytes String (Except RedbBackendError Unit × Bytes)

/-- What has happened in the life of a process that got a storage. -/
structure Life (ι : Type) where
  storage : RedbStorage
  moves : List (FMove ι ClientOp String)
  final : Clients ι

/-- The calls that took effect, each with whether its storage was read-only. -/
abbrev Applied := List (Bool × StorageCall)

/-- The tables after some calls on storages of their own. -/
def Tables.afterAll (z : ZExt) (T : Tables) (applied : Applied) : Tables :=
  applied.foldl (fun T c => (c.2.spec z c.1 T).2) T

/-- The call changes what is stored under the key. -/
def StorageCall.Changes (key : String) : StorageCall → Prop
  | .put key' _ | .delete key' => key' = key
  | .clear => True
  | _ => False

section Lives

variable {ι : Type} [DecidableEq ι] {z : ZExt}

/-- The database after some processes, the last of which may just have come to its end. Each of
them began with what its predecessor had committed. -/
inductive Lives (z : ZExt) : List (Life ι) → Db → Prop
  | start : Lives z [] Db.empty
  /-- A process has opened the database, and not got a storage, or not yet. -/
  | opening {lives : List (Life ι)} {db : Db} {ms : List (FMove Unit Unit String)} {o : Opener}
      (h : Lives z lives db) (ho : FSys.Reaches openBody db ms o) : Lives z lives o.db
  /-- A process has opened the database, and its clients have called the storage. -/
  | serving {lives : List (Life ι)} {db : Db} {ms : List (FMove Unit Unit String)} {o : Opener}
      (life : Life ι) (h : Lives z lives db) (ho : FSys.Reaches openBody db ms o)
      (hok : ∃ d ∈ o.returned, d.result.1 = .ok ())
      (hlife : FSys.Reaches (clientBody z life.storage) o.db life.moves life.final) :
      Lives z (lives ++ [life]) life.final.db

/-- The calls of all lives in one order: those of a life are the log of a run without faults
that explains what has happened in it. -/
inductive Durable (z : ZExt) : List (Life ι) → Applied → Prop
  | nil : Durable z [] []
  | snoc {lives : List (Life ι)} {applied : Applied} (life : Life ι)
      (t : Sys ι ClientOp TableName Bytes Bytes String (Except RedbBackendError Reply × Bytes))
      (h : Durable z lives applied)
      (ht : Explains z life.storage (Tables.empty.afterAll z applied) life.moves life.final t) :
      Durable z (lives ++ [life])
        (applied ++ (calls t.log).map (life.storage.config.readOnly, ·))

/-! ## Opening -/

theorem openBody_endsWell (o : Unit) : (openBody o).Obeys
    (fun r φ => φ ≠ .writing ∧ (φ = .failed → ∃ e, r.1 = .error e)) .idle := by
  refine (initTables_obeys []).mono ?_
  rintro ⟨r, buf⟩ φ hr
  cases r with
  | error e => exact ⟨hr.1, fun _ => ⟨e, rfl⟩⟩
  | ok a =>
      obtain ⟨hne, rfl⟩ := hr
      exact ⟨nofun, fun hφ => absurd hφ hne⟩

/-- Creating the tables again and again changes nothing. -/
theorem replay_openBody (T : Tables) (log : List (Entry Unit Unit)) :
    replay openBody T.db log = T.db := by
  have hexec : ∀ o, (exec [] (openBody o) T.db).2 = T.db := fun o =>
    congrArg (·.2.2) (initTables_exec [] T)
  induction log with
  | nil => rfl
  | cons e log ih =>
      show replay openBody (exec [] (openBody e.ticket.op) T.db).2 log = _
      rw [hexec, ih]

/-- A process that opens a database leaves its tables as they are. If there are none, it leaves
none or both of them, empty; and both if it succeeds. -/
theorem opening_db {db : Db} {ms : List (FMove Unit Unit String)} {o : Opener}
    (h : FSys.Reaches openBody db ms o) :
    (∀ T : Tables, db = T.db → o.db = T.db) ∧
    (db = Db.empty → (o.db = Db.empty ∧ ∀ d ∈ o.returned, ∃ e, d.result.1 = .error e) ∨
      o.db = Tables.empty.db) := by
  obtain ⟨⟨t, ht⟩, hfail⟩ := h.explained openBody_endsWell fun _ _ _ hφ => hφ.1
  have hdb : o.db = replay openBody db t.log := ht.contents
  constructor
  · rintro T rfl
    rw [hdb, replay_openBody]
  · rintro rfl
    cases hlog : t.log with
    | nil =>
        -- nothing has taken effect, so nothing has succeeded
        left
        rw [hdb, hlog]
        refine ⟨rfl, fun d hd => ?_⟩
        cases hf : d.failed with
        | true => exact (hfail d hd hf).2 rfl
        | false =>
            obtain ⟨before, e, after, heq, -⟩ := ht.results hd hf
            rw [hlog] at heq
            cases before <;> cases heq
    | cons e log =>
        right
        have hexec : (exec [] (openBody e.ticket.op) Db.empty).2 = Tables.empty.db :=
          congrArg (·.2.2) (initTables_exec_empty [])
        rw [hdb, hlog]
        show replay openBody (exec [] (openBody e.ticket.op) Db.empty).2 log = _
        rw [hexec, replay_openBody]

/-! ## The order of the calls -/

theorem Tables.afterAll_append (T : Tables) (l l' : Applied) :
    T.afterAll z (l ++ l') = (T.afterAll z l).afterAll z l' := by
  unfold Tables.afterAll
  rw [List.foldl_append]

theorem Tables.afterAll_map (T : Tables) (ro : Bool) (cs : List StorageCall) :
    T.afterAll z (cs.map (ro, ·)) = T.after z ro cs := by
  unfold Tables.afterAll Tables.after
  rw [List.foldl_map]

theorem Tables.Consistent.afterAll {T : Tables} (hT : T.Consistent z) (applied : Applied) :
    (T.afterAll z applied).Consistent z := by
  induction applied generalizing T with
  | nil => exact hT
  | cons c applied ih => exact ih (hT.spec c.2 c.1)

/-- A call that does not change a key leaves what `get` returns for it. -/
theorem Tables.get_spec_of_not_changes (T : Tables) {c : StorageCall} {key : String}
    (h : ¬ c.Changes key) (ro : Bool) : (c.spec z ro T).2.get z key = T.get z key := by
  rcases c.spec_cases z ro T with hT | ⟨key', value, rfl, hT⟩ | ⟨key', rfl, hT⟩ | ⟨rfl, -⟩
  · rw [hT]
  · rw [hT, get_eq_pair, pair_put, if_neg (mt Str.asBytes_inj.mp h)]
    rfl
  · rw [hT, get_eq_pair, pair_delete, if_neg (mt Str.asBytes_inj.mp h)]
    rfl
  · exact absurd trivial h

theorem Tables.get_afterAll_of_not_changes (T : Tables) {applied : Applied} {key : String}
    (h : ∀ c ∈ applied, ¬ c.2.Changes key) : (T.afterAll z applied).get z key = T.get z key := by
  induction applied generalizing T with
  | nil => rfl
  | cons c applied ih =>
      refine (ih (c.2.spec z c.1 T).2 fun c' hc' => h c' (List.mem_cons_of_mem _ hc')).trans ?_
      exact T.get_spec_of_not_changes (h c List.mem_cons_self) c.1

/-- A `put` that has succeeded is seen until the key is changed. -/
theorem Tables.get_afterAll_put {T : Tables} {ro : Bool} {key : String} {value : StoredValue}
    (hok : (StorageCall.spec z ro T (.put key value)).1 = .ok .done) {after : Applied}
    (h : ∀ c ∈ after, ¬ c.2.Changes key) :
    (T.afterAll z ((ro, .put key value) :: after)).get z key = .ok (some value.canon) := by
  cases ro with
  | true => cases hok
  | false =>
      show ((T.put z key value).afterAll z after).get z key = _
      rw [get_afterAll_of_not_changes _ h, get_put]

theorem Durable.eq_nil {lives : List (Life ι)} {applied : Applied} (h : Durable z lives applied)
    (hlives : lives = []) : applied = [] := by
  cases h with
  | nil => rfl
  | snoc life t h ht => exact absurd hlives (by simp)

/-- What was returned in any life has its place in the order. -/
theorem Durable.placed {lives : List (Life ι)} {applied : Applied} (h : Durable z lives applied)
    {life : Life ι} (hlife : life ∈ lives) {d : Outcome ι ClientOp _}
    (hd : d ∈ life.final.returned) (hf : d.failed = false) :
    ∃ before after, applied = before ++ (life.storage.config.readOnly, d.op.1) :: after ∧
      d.result.1 = (d.op.1.spec z life.storage.config.readOnly
        (Tables.empty.afterAll z before)).1 := by
  induction h with
  | nil => cases hlife
  | @snoc lives applied last t h ht ih =>
      rcases List.mem_append.mp hlife with hold | hlast
      · obtain ⟨before, after, heq, hr⟩ := ih hold
        refine ⟨before, after ++ (calls t.log).map (last.storage.config.readOnly, ·), ?_, hr⟩
        rw [heq, List.append_assoc, List.cons_append]
      · obtain rfl := List.mem_singleton.mp hlast
        obtain ⟨before, e, after, hlog, -, hop, hr⟩ := ht.results d hd hf
        refine ⟨applied ++ (calls before).map (life.storage.config.readOnly, ·),
          (calls after).map (life.storage.config.readOnly, ·), ?_, ?_⟩
        · rw [hlog, ← hop, List.append_assoc]
          simp [calls]
        · rw [Tables.afterAll_append, Tables.afterAll_map]
          exact hr

/-- An operation in which a call failed has returned an error. -/
theorem Durable.failures {lives : List (Life ι)} {applied : Applied} (h : Durable z lives applied)
    {life : Life ι} (hlife : life ∈ lives) {d : Outcome ι ClientOp _}
    (hd : d ∈ life.final.returned) (hf : d.failed = true) :
    ∃ e, d.result.1 = .error e ∧ e.isRedb = true := by
  induction h with
  | nil => cases hlife
  | snoc last t h ht ih =>
      rcases List.mem_append.mp hlife with hold | hlast
      · exact ih hold
      · obtain rfl := List.mem_singleton.mp hlast
        exact ht.failures d hd hf

/-- **Crashes.** Let a failing commit leave the old contents, also on the disk. After any lives of
a database there is one order of the calls that took effect in them, and no others, which explains
each life. The database has consistent tables, those after these calls, or still none. Every
operation that returned, in any life, returned an error of redb and had no effect, or what it
returns in its place in this order; and a `put` that succeeded is seen until a later call in the
order changes its key. -/
theorem lives_durable (z : ZExt) {lives : List (Life ι)} {db : Db} (h : Lives z lives db) :
    ∃ applied, Durable z lives applied ∧ (Tables.empty.afterAll z applied).Consistent z ∧
      (db = (Tables.empty.afterAll z applied).db ∨ (lives = [] ∧ db = Db.empty)) ∧
      ∀ life ∈ lives, ∀ d ∈ life.final.returned,
        (d.failed = true → ∃ e, d.result.1 = .error e ∧ e.isRedb = true) ∧
        (d.failed = false → ∃ before after,
          applied = before ++ (life.storage.config.readOnly, d.op.1) :: after ∧
          d.result.1 = (d.op.1.spec z life.storage.config.readOnly
            (Tables.empty.afterAll z before)).1 ∧
          ∀ key value, d.op.1 = .put key value → d.result.1 = .ok .done →
            (∀ c ∈ after, ¬ c.2.Changes key) →
            (Tables.empty.afterAll z applied).get z key = .ok (some value.canon)) := by
  have hexists : ∃ applied, Durable z lives applied ∧
      (db = (Tables.empty.afterAll z applied).db ∨ (lives = [] ∧ db = Db.empty)) := by
    induction h with
    | start => exact ⟨[], .nil, Or.inr ⟨rfl, rfl⟩⟩
    | opening h ho ih =>
        obtain ⟨applied, hdur, hdb | ⟨rfl, hdb⟩⟩ := ih
        · exact ⟨applied, hdur, Or.inl ((opening_db ho).1 _ hdb)⟩
        · rcases (opening_db ho).2 hdb with ⟨hempty, -⟩ | hempty
          · exact ⟨applied, hdur, Or.inr ⟨rfl, hempty⟩⟩
          · obtain rfl := hdur.eq_nil rfl
            exact ⟨[], .nil, Or.inl hempty⟩
    | @serving lives db ms o life h ho hok hlife ih =>
        obtain ⟨applied, hdur, hdb⟩ := ih
        -- the process has succeeded in opening the database, so there are tables
        have ho' : o.db = (Tables.empty.afterAll z applied).db := by
          rcases hdb with hdb | ⟨rfl, hdb⟩
          · exact (opening_db ho).1 _ hdb
          · obtain rfl := hdur.eq_nil rfl
            refine ((opening_db ho).2 hdb).resolve_left ?_
            rintro ⟨-, hall⟩
            obtain ⟨d, hd, hdok⟩ := hok
            obtain ⟨e, he⟩ := hall d hd
            rw [hdok] at he
            cases he
        rw [ho'] at hlife
        obtain ⟨⟨t, hexp⟩, hfail⟩ := hlife.explained (clientBody_endsWell z life.storage)
          fun _ _ _ hφ => hφ.1
        have ht := explains_of_explained hexp hfail
        refine ⟨_, hdur.snoc life t ht, Or.inl ?_⟩
        rw [ht.contents, Tables.afterAll_append, Tables.afterAll_map]
  obtain ⟨applied, hdur, hdb⟩ := hexists
  refine ⟨applied, hdur, Tables.consistent_empty.afterAll applied, hdb,
    fun life hlife d hd => ⟨?_, ?_⟩⟩
  · exact hdur.failures hlife hd
  · intro hf
    obtain ⟨before, after, heq, hr⟩ := hdur.placed hlife hd hf
    refine ⟨before, after, heq, hr, fun key value hop hok hafter => ?_⟩
    rw [hop] at heq hr
    rw [heq, Tables.afterAll_append]
    exact Tables.get_afterAll_put (hr.symm.trans hok) hafter


/-- A process that is gone after the commit of one `put`, which has not returned, and in the
middle of another; and a read-only one that finds the first. -/
theorem lives_durable_crash :
    let value : StoredValue := ⟨[1], .first, ⟨0, none⟩⟩
    let writing : List (FMove Bool ClientOp String) :=
      .move (.invoke true (.put "k" value, [])) :: .move (.invoke false (.put "l" value, [])) ::
        List.replicate 6 (.move (.call true)) ++ List.replicate 3 (.move (.call false))
    let reading : List (FMove Bool ClientOp String) :=
      .move (.invoke true (.get "k", [])) :: List.replicate 5 (.move (.call true)) ++
        [.move (.ret true)]
    ∃ first second : Life Bool, first.moves = writing ∧ first.final.returned = [] ∧
      second.moves = reading ∧
      second.final.returned.map (·.result.1) = [.ok (.value (some value))] ∧
      Lives .layout [first, second] second.final.db ∧
      ∃ applied, Durable .layout [first, second] applied := by
  intro value writing reading
  let opening : List (FMove Unit Unit String) := [.move (.invoke () ()), .move (.call ()),
    .move (.call ()), .move (.call ()), .move (.call ()), .move (.ret ())]
  let writer : RedbStorage := ⟨.ofString "s.redb", .new, "s"⟩
  let reader : RedbStorage := ⟨.ofString "s.redb", { readOnly := true }, "s"⟩
  let T : Tables := Tables.empty.put .layout "k" value
  obtain ⟨o, ho, hdb, hok⟩ : ∃ o : Opener, (FSys.init Db.empty).run openBody opening = some o ∧
      o.db = Tables.empty.db ∧ ∃ d ∈ o.returned, d.result.1 = .ok () :=
    ⟨_, by rfl, by funext t; cases t <;> rfl, _, List.mem_singleton_self _, by rfl⟩
  obtain ⟨s, hs, hsdb, hreturned⟩ : ∃ s : Clients Bool,
      (FSys.init Tables.empty.db).run (clientBody .layout writer) writing = some s ∧
        s.db = T.db ∧ s.returned = [] :=
    ⟨_, by rfl, by funext t; cases t <;> rfl, by rfl⟩
  obtain ⟨o', ho', hdb', hok'⟩ : ∃ o : Opener, (FSys.init T.db).run openBody opening = some o ∧
      o.db = T.db ∧ ∃ d ∈ o.returned, d.result.1 = .ok () :=
    ⟨_, by rfl, by funext t; cases t <;> rfl, _, List.mem_singleton_self _, by rfl⟩
  have hread : ((FSys.init T.db).run (clientBody .layout reader) reading).map
      (fun s => s.returned.map (·.result.1)) = some [.ok (.value (some value))] := by
    simp only [T, reader, reading, value]
    rfl
  obtain ⟨s', hs', hreturned'⟩ := Option.map_eq_some_iff.mp hread
  rw [← hdb] at hs
  rw [← hsdb] at ho' hdb'
  rw [← hsdb, ← hdb'] at hs'
  have hfirst := Lives.serving (z := .layout) ⟨writer, writing, s⟩ .start
    (FSys.Reaches.init.run ho) hok (FSys.Reaches.init.run hs)
  have hsecond := hfirst.serving ⟨reader, reading, s'⟩
    (FSys.Reaches.init.run ho') hok' (FSys.Reaches.init.run hs')
  obtain ⟨applied, hdur, -⟩ := lives_durable .layout hsecond
  exact ⟨_, _, rfl, hreturned, rfl, hreturned', hsecond, applied, hdur⟩

end Lives

end ZenohRedb
