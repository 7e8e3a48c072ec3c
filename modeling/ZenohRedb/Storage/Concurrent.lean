import ZenohRedb.Lib.Linearize
import ZenohRedb.Storage.Atomicity
import ZenohRedb.Storage.EntryMap

set_option autoImplicit false

/-! # Concurrent clients of one storage

The operations of a storage as the clients of `Lib/Linearize.lean` run them, call by call and
interleaved. They keep the discipline, so every history is linearizable, with a write placed
at its commit and a read at its `begin_read` (`clients_linearizable`). In terms of the two
tables: the results are those of `StorageCall.spec`, applied in that order.

A key is never torn: at any place in the order its payload and its metadata come from one
`put`, or both were there from the beginning (`Tables.after_pair`).
-/

namespace ZenohRedb

open TxStore

/-- What a client runs: a call, and what the key buffer of its thread holds by then. -/
abbrev ClientOp := StorageCall × Bytes

/-- The program of a client. -/
def clientBody (z : ZExt) (self : RedbStorage) (o : ClientOp) :
    RedbProg (Except RedbBackendError Reply × Bytes) :=
  (o.1.prog z self).run.run o.2

/-- Where a call takes effect: a write at its commit, a read at its `begin_read`, and a write
that a read-only storage refuses when it returns. -/
def StorageCall.point (readOnly : Bool) (c : StorageCall) : Point :=
  if c.isWrite then if readOnly then .ret else .commit else .beginRead

section Clients

variable (z : ZExt) (self : RedbStorage)

theorem clientBody_obeys (o : ClientOp) :
    (clientBody z self o).Obeys (fun _ ψ => ψ ≠ .writing) .idle := by
  refine (StorageCall.obeys z self o.1 o.2).mono ?_
  rintro ⟨r, buf⟩ ψ hr
  cases r with
  | error e => exact hr.1
  | ok a =>
      obtain ⟨-, rfl⟩ := hr
      split
      · exact nofun
      · exact nofun

theorem clientBody_point (o : ClientOp) :
    (clientBody z self o).point = o.1.point self.config.readOnly := by
  obtain ⟨c, buf⟩ := o
  cases c with
  | put key value =>
      unfold clientBody StorageCall.prog RedbStorage.put
      cases self.config.readOnly <;> rfl
  | delete key =>
      unfold clientBody StorageCall.prog RedbStorage.delete
      cases self.config.readOnly <;> rfl
  | clear =>
      unfold clientBody StorageCall.prog RedbStorage.clear
      cases self.config.readOnly <;> rfl
  | _ => rfl

/-- Alone on opened tables, a client computes `StorageCall.spec`. -/
theorem exec_clientBody (o : ClientOp) (T : Tables) :
    (exec [] (clientBody z self o) T.db).1.1 = (o.1.spec z self.config.readOnly T).1 ∧
      (exec [] (clientBody z self o) T.db).2 = (o.1.spec z self.config.readOnly T).2.db :=
  StorageCall.exec_tables z self o.1 o.2 T

end Clients

namespace Tables

variable {z : ZExt}

/-- The tables after some calls, one at a time. -/
def after (z : ZExt) (readOnly : Bool) (T : Tables) (calls : List StorageCall) : Tables :=
  calls.foldl (fun T c => (c.spec z readOnly T).2) T

/-- What both tables hold under a key. -/
def pair (T : Tables) (k : Bytes) : Option Bytes × Option Bytes :=
  (T.payloads[k]?, T.dataInfo[k]?)

theorem pair_put (T : Tables) (key : String) (value : StoredValue) (k : Bytes) :
    (T.put z key value).pair k = if Str.asBytes key = k then (some value.payload,
        some (z.zSerialize (DataInfo.asTuple ⟨value.timestamp, false, value.encoding⟩)))
      else T.pair k := by
  simp only [pair, put_payloads, put_dataInfo]
  split <;> rfl

theorem pair_delete (T : Tables) (key : String) (k : Bytes) :
    (T.delete key).pair k = if Str.asBytes key = k then (none, none) else T.pair k := by
  simp only [pair, delete_payloads, delete_dataInfo]
  split <;> rfl

theorem get_eq_pair (T : Tables) (key : String) :
    T.get z key = RedbStorage.getMatch z (T.pair (Str.asBytes key)).1
      (T.pair (Str.asBytes key)).2 := rfl

/-- Where what the tables hold under `k` comes from: it was there in `T`, or it is nothing, or
it was written by one of the puts of `calls`. -/
def Origin (z : ZExt) (T : Tables) (calls : List StorageCall) (k : Bytes)
    (p : Option Bytes × Option Bytes) : Prop :=
  p = T.pair k ∨ p = (none, none) ∨ ∃ key value, .put key value ∈ calls ∧ Str.asBytes key = k ∧
    p = (some value.payload,
      some (z.zSerialize (DataInfo.asTuple ⟨value.timestamp, false, value.encoding⟩)))

theorem Origin.append {T : Tables} {calls : List StorageCall} {k : Bytes}
    {p : Option Bytes × Option Bytes} (h : Origin z T calls k p) (more : List StorageCall) :
    Origin z T (calls ++ more) k p := by
  rcases h with h | h | ⟨key, value, hmem, hk, hp⟩
  · exact Or.inl h
  · exact Or.inr (Or.inl h)
  · exact Or.inr (Or.inr ⟨key, value, List.mem_append_left _ hmem, hk, hp⟩)

/-- One call: under every key it leaves both tables as they are, or empty, or as it put them. -/
theorem spec_pair (ro : Bool) (T : Tables) (c : StorageCall) (k : Bytes) :
    Origin z T [c] k ((c.spec z ro T).2.pair k) := by
  rcases c.spec_cases z ro T with h | ⟨key, value, rfl, h⟩ | ⟨key, -, h⟩ | ⟨-, h⟩
  · rw [h]
    exact Or.inl rfl
  · rw [h, pair_put]
    by_cases hk : Str.asBytes key = k
    · rw [if_pos hk]
      exact Or.inr (Or.inr ⟨key, value, by simp, hk, rfl⟩)
    · rw [if_neg hk]
      exact Or.inl rfl
  · rw [h, pair_delete]
    by_cases hk : Str.asBytes key = k
    · rw [if_pos hk]
      exact Or.inr (Or.inl rfl)
    · rw [if_neg hk]
      exact Or.inl rfl
  · rw [h]
    exact Or.inr (Or.inl rfl)

/-- **No torn entry.** After any calls, what the two tables hold under a key was there from
the beginning, or was written by one put. -/
theorem after_pair (ro : Bool) (T : Tables) (calls : List StorageCall) (k : Bytes) :
    Origin z T calls k ((T.after z ro calls).pair k) := by
  induction calls using List.reverseRecOn with
  | nil => exact Or.inl rfl
  | append_singleton calls c ih =>
      have hafter : T.after z ro (calls ++ [c]) = (c.spec z ro (T.after z ro calls)).2 := by
        unfold after
        rw [List.foldl_append]
        rfl
      rw [hafter]
      -- what the last call left alone has the origin it had before
      rcases spec_pair ro (T.after z ro calls) c k with h | h | ⟨key, value, hmem, hk, hp⟩
      · rw [h]
        exact ih.append [c]
      · exact Or.inr (Or.inl h)
      · exact Or.inr (Or.inr ⟨key, value, List.mem_append_right _ hmem, hk, hp⟩)

/-- What `get` returns after some calls was there from the beginning, or is the value of one
put. -/
theorem get_after {ro : Bool} {T : Tables} {calls : List StorageCall} {key : String}
    {v : StoredValue} (h : (T.after z ro calls).get z key = .ok (some v)) :
    T.get z key = .ok (some v) ∨ ∃ value, .put key value ∈ calls ∧ v = value.canon := by
  rw [get_eq_pair] at h
  rcases after_pair (z := z) ro T calls (Str.asBytes key) with hp | hp | ⟨key', value, hmem, hk, hp⟩
  · rw [hp] at h
    exact Or.inl h
  · rw [hp] at h
    cases h
  · obtain rfl := Str.asBytes_inj.mp hk
    rw [hp] at h
    simp only [RedbStorage.getMatch, decodeDataInfo_zSerialize] at h
    cases h
    exact Or.inr ⟨value, hmem, rfl⟩

end Tables

/-- The reply `r` to the call shows the value `v` under `key`. -/
def StorageCall.Shows (c : StorageCall) (r : Reply) (key : String) (v : StoredValue) : Prop :=
  (c = .get key ∧ r = .value (some v)) ∨ ∃ l, r = .entries l ∧ (key, v) ∈ l

/-- Whatever a call shows is what `get` returns from the same tables. -/
theorem StorageCall.get_of_shows {z : ZExt} {ro : Bool} {T : Tables} {c : StorageCall} {r : Reply}
    {key : String} {v : StoredValue} (hr : (c.spec z ro T).1 = .ok r) (h : c.Shows r key v) :
    T.get z key = .ok (some v) := by
  have hscan : ∀ sel l, (T.scan z sel).map Reply.entries = .ok (.entries l) → (key, v) ∈ l →
      T.get z key = .ok (some v) := by
    intro sel l hl hmem
    obtain ⟨l', hs, he⟩ := map_eq_ok.mp hl
    cases he
    exact Tables.get_of_scan hs hmem
  rcases h with ⟨rfl, rfl⟩ | ⟨l, rfl, hmem⟩
  · obtain ⟨o, hg, he⟩ := map_eq_ok.mp hr
    cases he
    exact hg
  · -- of the calls that list entries each is a scan; the others return something else
    cases c with
    | getAll => exact hscan _ l hr hmem
    | getByPrefix keyPrefix => exact hscan _ l hr hmem
    | getByWildcard pattern => exact hscan _ l hr hmem
    | put key' value => cases ro <;> cases hr
    | delete key' => cases ro <;> cases hr
    | clear => cases ro <;> cases hr
    | get key' =>
        obtain ⟨o, -, he⟩ := map_eq_ok.mp hr
        cases he
    | count =>
        obtain ⟨n, -, he⟩ := map_eq_ok.mp hr
        cases he

/-! ## Linearizability -/

section Linearizability

variable {ι : Type} {z : ZExt} {self : RedbStorage}

/-- The calls of a log. -/
def calls (log : List (Entry ι ClientOp)) : List StorageCall := log.map (·.ticket.op.1)

/-- Replaying a log on opened tables applies `StorageCall.spec` call by call. -/
theorem replay_eq (T : Tables) (log : List (Entry ι ClientOp)) :
    replay (clientBody z self) T.db log = (T.after z self.config.readOnly (calls log)).db := by
  induction log generalizing T with
  | nil => rfl
  | cons e log ih =>
      show replay (clientBody z self) (exec [] (clientBody z self e.ticket.op) T.db).2 log = _
      rw [(exec_clientBody z self e.ticket.op T).2, ih]
      rfl

variable [DecidableEq ι]

/-- **Concurrent clients.** Let any number of clients call the operations of one storage on
opened tables `T`, their calls to redb interleaved in any way. In every state that can be
reached there is an order of the operations (the log) that explains all results and the
committed tables and agrees with real time (`Linearized`); a write has its place in it at its
commit and a read at its `begin_read`. An operation returns what it returns on the tables its
predecessors in this order leave behind, and each value it shows was in `T` or was put by one
of them. -/
theorem clients_linearizable (z : ZExt) (self : RedbStorage) (T : Tables)
    {s : Sys ι ClientOp TableName Bytes Bytes String (Except RedbBackendError Reply × Bytes)}
    (h : Sys.Reachable (clientBody z self) T.db s) :
    Linearized (clientBody z self) T.db s ∧
    (∀ e ∈ s.log, e.point = e.ticket.op.1.point self.config.readOnly) ∧
    s.db = (T.after z self.config.readOnly (calls s.log)).db ∧
    ∀ d ∈ s.returned, ∃ before e after, s.log = before ++ e :: after ∧ e.ticket = d.ticket ∧
      d.result.1 = (d.ticket.op.1.spec z self.config.readOnly
        (T.after z self.config.readOnly (calls before))).1 ∧
      ∀ r key v, d.result.1 = .ok r → d.ticket.op.1.Shows r key v →
        T.get z key = .ok (some v) ∨
          ∃ value, .put key value ∈ calls before ∧ v = value.canon := by
  have hlin := reachable_linearized (clientBody_obeys z self) h
  refine ⟨hlin, ?_, ?_, ?_⟩
  · intro e he
    rw [hlin.points e he, clientBody_point]
  · rw [hlin.contents, replay_eq]
  · intro d hd
    obtain ⟨before, e, after, hlog, het, -, hr⟩ := hlin.results d hd
    have hspec : d.result.1 = (d.ticket.op.1.spec z self.config.readOnly
        (T.after z self.config.readOnly (calls before))).1 := by
      rw [hr, replay_eq]
      exact (exec_clientBody z self d.ticket.op _).1
    refine ⟨before, e, after, hlog, het, hspec, ?_⟩
    intro r key v hok hshows
    rw [hspec] at hok
    exact Tables.get_after (StorageCall.get_of_shows hok hshows)

/-- A `get` that begins before a `put` commits and ends after it does not see it. -/
theorem clients_linearizable_overlap :
    let self : RedbStorage := ⟨.ofString "s.redb", .new, "s"⟩
    let value : StoredValue := ⟨[1], .first, ⟨0, none⟩⟩
    let moves : List (Move Bool ClientOp) :=
      [.invoke true (.put "k" value, []), .call true, .call true, .call true,
        .invoke false (.get "k", []), .call false, .call false, .call true, .call true,
        .call true, .ret true, .call false, .call false, .call false, .ret false]
    ∃ s, (Sys.init Tables.empty.db).run (clientBody .layout self) moves = some s ∧
      s.returned.map (·.result.1) = [.ok .done, .ok (.value none)] ∧
      s.log.map (·.point) = [.beginRead, .commit] ∧
      Linearized (clientBody .layout self) Tables.empty.db s := by
  intro self value moves
  exact ⟨_, rfl, rfl, rfl,
    (clients_linearizable .layout self .empty (Sys.Reachable.init.run moves rfl)).1⟩

end Linearizability

end ZenohRedb
