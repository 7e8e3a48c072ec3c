import ZenohRedb.Lib.Schedule
import ZenohRedb.Storage.Concurrent

set_option autoImplicit false

/-! # Independent updates commute

A `put` or a `delete` sets what both tables hold under its key and nothing else, so the
updates of a storage are keyed updates in the sense of `Lib/Schedule.lean` (`updates`). If
clients have disjoint keys, the tables after all their updates do not depend on how these
are scheduled. `updates_commute` states it for the operations one at a time and for clients
whose calls to redb interleave.
-/

namespace ZenohRedb

open TxStore Schedule

/-- A `put` or a `delete`. -/
inductive Update
  | put (key : String) (value : StoredValue)
  | delete (key : String)

namespace Update

def key : Update → String
  | .put key _ => key
  | .delete key => key

/-- The call of an update. -/
def call : Update → StorageCall
  | .put key value => .put key value
  | .delete key => .delete key

/-- What both tables hold under the key of an update after it. -/
def pair (z : ZExt) : Update → Option Bytes × Option Bytes
  | .put _ value => (some value.payload,
      some (z.zSerialize (DataInfo.asTuple ⟨value.timestamp, false, value.encoding⟩)))
  | .delete _ => (none, none)

/-- The update of a call. -/
def ofCall : StorageCall → Option Update
  | .put key value => some (.put key value)
  | .delete key => some (.delete key)
  | _ => none

theorem ofCall_call (u : Update) : ofCall u.call = some u := by
  cases u <;> rfl

end Update

theorem Tables.ext_pair {T T' : Tables} (h : ∀ k, T.pair k = T'.pair k) : T = T' := by
  have hp : T.payloads = T'.payloads :=
    Std.ExtTreeMap.ext_getElem? fun k => congrArg Prod.fst (h k)
  have hi : T.dataInfo = T'.dataInfo :=
    Std.ExtTreeMap.ext_getElem? fun k => congrArg Prod.snd (h k)
  cases T
  cases T'
  simp only at hp hi
  rw [hp, hi]

/-- The updates of a writable storage, as keyed updates of the two tables. -/
def updates (z : ZExt) : Updates Tables Update Bytes (Option Bytes × Option Bytes) where
  step T u := (u.call.spec z false T).2
  key u := Str.asBytes u.key
  view := Tables.pair
  effect := Update.pair z
  ext _ _ := Tables.ext_pair
  view_step T u k := by
    cases u with
    | put key value => exact Tables.pair_put T key value k
    | delete key => exact Tables.pair_delete T key k

/-- Run the programs of some updates one after the other. -/
def runUpdates (z : ZExt) (self : RedbStorage) (db : Db) (us : List Update) : Db :=
  us.foldl (fun db u => ((u.call.prog z self).exec [] [] db).2.2) db

section Runs

variable {z : ZExt} {self : RedbStorage}

theorem runUpdates_eq (hro : self.config.readOnly = false) (T : Tables) (us : List Update) :
    runUpdates z self T.db us = ((updates z).run T us).db := by
  induction us generalizing T with
  | nil => rfl
  | cons u us ih =>
      show runUpdates z self ((u.call.prog z self).exec [] [] T.db).2.2 us = _
      rw [(StorageCall.exec_tables z self u.call [] T).2, hro, ih]
      rfl

theorem after_eq_run (T : Tables) (us : List Update) :
    T.after z false (us.map Update.call) = (updates z).run T us := by
  unfold Tables.after Updates.run
  rw [List.foldl_map]
  rfl

/-- Updates keep tables consistent. -/
theorem consistent_run {T : Tables} (hT : T.Consistent z) (us : List Update) :
    ((updates z).run T us).Consistent z := by
  induction us generalizing T with
  | nil => exact hT
  | cons u us ih => exact ih (hT.spec u.call false)

/-- On consistent tables `count` is the number of live keys. -/
theorem count_live {T : Tables} (hT : T.Consistent z) :
    ∃ keys : List String, keys.Nodup ∧ (∀ key, key ∈ keys ↔ ∃ v, T.get z key = .ok (some v)) ∧
      T.count z = .ok keys.length := by
  refine ⟨(T.entries z).map (·.1), ?_, ?_, ?_⟩
  · exact nodup_of_pairwise_keyLt (Tables.pairwise_entries T)
  · intro key
    rw [List.mem_map]
    constructor
    · rintro ⟨⟨key', v⟩, hmem, rfl⟩
      refine ⟨v, ?_⟩
      rw [hT.get, (Tables.mem_entries key' v).mp hmem]
    · rintro ⟨v, hv⟩
      rw [hT.get] at hv
      exact ⟨(key, v), (Tables.mem_entries key v).mpr (Except.ok.inj hv), rfl⟩
  · rw [hT.count, List.length_map, hT.length_entries]

end Runs

/-! ## Clients whose calls interleave -/

section Clients

variable {ι : Type} [DecidableEq ι] {z : ZExt} {self : RedbStorage}

/-- All clients are done, and each has run its sequence of updates. -/
def Completes (seqs : ι → List Update)
    (s : Sys ι ClientOp TableName Bytes Bytes String (Except RedbBackendError Reply × Bytes)) :
    Prop :=
  ∀ i, s.procs i = none ∧
    ((s.returned.map Returned.ticket).filter (·.client = i)).map (·.op.1)
      = (seqs i).map Update.call

/-- The updates of some tickets, with their clients. -/
def schedule (ts : List (Ticket ι ClientOp)) : List (ι × Update) :=
  ts.filterMap fun t => (Update.ofCall t.op.1).map (t.client, ·)

theorem schedule_filter (ts : List (Ticket ι ClientOp)) (i : ι) :
    ((schedule ts).filter (·.1 = i)).map (·.2)
      = ((ts.filter (·.client = i)).map (·.op.1)).filterMap Update.ofCall := by
  induction ts with
  | nil => rfl
  | cons t ts ih =>
      unfold schedule at ih ⊢
      rw [List.filterMap_cons, List.filter_cons]
      cases hu : Update.ofCall t.op.1 with
      | none =>
          by_cases hi : t.client = i
          · simp [hi, hu, ih]
          · simp [hi, ih]
      | some u =>
          by_cases hi : t.client = i
          · simp [hi, hu, ih]
          · simp [hi, ih]

theorem filterMap_ofCall (us : List Update) :
    (us.map Update.call).filterMap Update.ofCall = us := by
  rw [List.filterMap_map]
  exact (List.filterMap_congr fun u _ => Update.ofCall_call u).trans List.filterMap_some

omit [DecidableEq ι] in
/-- When all operations are updates, their schedule has all of them. -/
theorem map_call_schedule {ts : List (Ticket ι ClientOp)}
    (h : ∀ t ∈ ts, ∃ u, t.op.1 = Update.call u) :
    ((schedule ts).map (·.2)).map Update.call = ts.map (·.op.1) := by
  induction ts with
  | nil => rfl
  | cons t ts ih =>
      obtain ⟨u, hu⟩ := h t (by simp)
      have hrest := ih fun t' ht' => h t' (by simp [ht'])
      unfold schedule at hrest ⊢
      rw [List.map_cons, ← hrest, List.filterMap_cons, hu, Update.ofCall_call]
      rfl

/-- When all clients are done, the log is a schedule of their sequences. -/
theorem Completes.interleaves {seqs : ι → List Update} {db : Db}
    {s : Sys ι ClientOp TableName Bytes Bytes String (Except RedbBackendError Reply × Bytes)}
    (h : Completes seqs s) (hlin : Linearized (clientBody z self) db s) :
    Interleaves seqs (schedule (s.log.map Entry.ticket)) ∧
      calls s.log = ((schedule (s.log.map Entry.ticket)).map (·.2)).map Update.call := by
  have hprogram : ∀ i, ((s.log.map Entry.ticket).filter (·.client = i)).map (·.op.1)
      = (seqs i).map Update.call := by
    intro i
    rw [hlin.program i, (h i).1, ← (h i).2]
    simp only [pending, List.append_nil]
  constructor
  · intro i
    rw [schedule_filter, hprogram i, filterMap_ofCall]
  · -- every operation in the log is an update of its client
    have hupdate : ∀ t ∈ s.log.map Entry.ticket, ∃ u, t.op.1 = Update.call u := by
      intro t ht
      have hmem : t.op.1 ∈ ((s.log.map Entry.ticket).filter (·.client = t.client)).map (·.op.1) :=
        List.mem_map.mpr ⟨t, List.mem_filter.mpr ⟨ht, decide_eq_true rfl⟩, rfl⟩
      rw [hprogram t.client] at hmem
      obtain ⟨u, -, hu⟩ := List.mem_map.mp hmem
      exact ⟨u, hu.symm⟩
    have hcalls : calls s.log = (s.log.map Entry.ticket).map (·.op.1) := by
      unfold calls
      rw [List.map_map]
      rfl
    rw [hcalls, map_call_schedule hupdate]

end Clients

/-- **Independent updates commute.** Let clients with disjoint keys have sequences of puts and
deletes on a writable storage with the tables `T`.

* Run one at a time, the updates end in the same database in every schedule.
* If the calls of the clients interleave, the database at the end is that of a schedule.
* At the end every key holds what its owner's last update put there, a key no client touched
  holds what it held, and if `T` is consistent, `count` is the number of live keys. -/
theorem updates_commute {ι : Type} [DecidableEq ι] (z : ZExt) {self : RedbStorage}
    (hro : self.config.readOnly = false) (T : Tables) {seqs : ι → List Update}
    (hd : ∀ i j, i ≠ j → ∀ u ∈ seqs i, ∀ u' ∈ seqs j, u.key ≠ u'.key) :
    (∀ l l', Interleaves seqs l → Interleaves seqs l' →
      runUpdates z self T.db (l.map (·.2)) = runUpdates z self T.db (l'.map (·.2))) ∧
    (∀ s, Sys.Reachable (clientBody z self) T.db s → Completes seqs s →
      ∃ l, Interleaves seqs l ∧ s.db = runUpdates z self T.db (l.map (·.2))) ∧
    ∀ l, Interleaves seqs l → ∃ T' : Tables, runUpdates z self T.db (l.map (·.2)) = T'.db ∧
      (∀ i before u after, seqs i = before ++ u :: after → (∀ u' ∈ after, u'.key ≠ u.key) →
        T'.pair (Str.asBytes u.key) = u.pair z) ∧
      (∀ k, (∀ i, ∀ u ∈ seqs i, Str.asBytes u.key ≠ k) → T'.pair k = T.pair k) ∧
      (T.Consistent z → ∃ keys : List String, keys.Nodup ∧
        (∀ key, key ∈ keys ↔ ∃ v, T'.get z key = .ok (some v)) ∧
        T'.count z = .ok keys.length) := by
  have hdisjoint : (updates z).Disjoint seqs := by
    intro i j hij u hu u' hu' hk
    exact hd i j hij u hu u' hu' (Str.asBytes_inj.mp hk)
  refine ⟨?_, ?_, ?_⟩
  · intro l l' hl hl'
    rw [runUpdates_eq hro, runUpdates_eq hro, hdisjoint.run_eq hl hl' T]
  · -- the log of the clients is a schedule, and explains the database
    intro s hs hc
    have hlin := reachable_linearized (clientBody_obeys z self) hs
    obtain ⟨hl, hcalls⟩ := hc.interleaves hlin
    refine ⟨_, hl, ?_⟩
    rw [hlin.contents, replay_eq, hro, hcalls, after_eq_run, runUpdates_eq hro]
  · intro l hl
    refine ⟨(updates z).run T (l.map (·.2)), runUpdates_eq hro T _, ?_, ?_, ?_⟩
    · intro i before u after hi hlast
      exact hdisjoint.view_run hl T hi fun u' hu' hk => hlast u' hu' (Str.asBytes_inj.mp hk)
    · intro k hk
      exact Updates.view_run_untouched (U := updates z) hl T hk
    · intro hT
      exact count_live (consistent_run hT _)

/-- Two clients, one of which puts and deletes its key while the other puts its own. -/
theorem updates_commute_two_clients :
    let self : RedbStorage := ⟨.ofString "s.redb", .new, "s"⟩
    let value : StoredValue := ⟨[1], .first, ⟨0, none⟩⟩
    runUpdates .layout self Tables.empty.db [.put "a" value, .put "b" value, .delete "a"]
      = runUpdates .layout self Tables.empty.db [.put "b" value, .put "a" value, .delete "a"] := by
  intro self value
  let seqs : Bool → List Update := fun i =>
    if i then [.put "a" value, .delete "a"] else [.put "b" value]
  have hd : ∀ i j, i ≠ j → ∀ u ∈ seqs i, ∀ u' ∈ seqs j, u.key ≠ u'.key := by
    simp [seqs, Update.key]
  have hl : Interleaves seqs
      [(true, .put "a" value), (false, .put "b" value), (true, .delete "a")] := by
    simp [Interleaves, seqs]
  have hl' : Interleaves seqs
      [(false, .put "b" value), (true, .put "a" value), (true, .delete "a")] := by
    simp [Interleaves, seqs]
  exact (updates_commute .layout (show self.config.readOnly = false from rfl) .empty hd).1 _ _ hl hl'

end ZenohRedb
