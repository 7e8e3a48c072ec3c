import ZenohRedb.Storage.Faults
import ZenohRedb.Storage.Files
import ZenohRedb.Plugin.NoneKey

set_option autoImplicit false

/-! # Concurrent calls of the methods

What a method does to the map of the interface, on any tables that hold it and whatever fails
(`Tables.HoldsMap.exec_faults`), and what that says about clients that call the methods
concurrently (`methods_linearizable`).

A method of the plugin locks a mutex before its first call to redb and keeps it until it
returns. The clients here do without: their calls to redb are interleaved in any way, and what
holds of them holds of those that take turns.
-/

namespace ZenohRedb

open TxStore

namespace PluginMap

variable {K : ZKeyExpr}

/-- What a method does to the map of a storage: a read-only one refuses the methods that
write. -/
def act (m : PluginMap K) (readOnly : Bool) (c : PluginCall K) : PluginMap K :=
  if c.isWrite && readOnly then m else m.call c

/-- What the interface promises of the result of a method. -/
def Returns (m : PluginMap K) (readOnly : Bool) (c : PluginCall K)
    (r : Except ZError (PluginReply K)) : Prop :=
  if c.isWrite && readOnly then r = .error (.text "Received update for read-only DB")
  else ∃ a, r = .ok a ∧ m.Answers c a

/-- The map after some methods. -/
def afterAll (m : PluginMap K) (readOnly : Bool) (cs : List (PluginCall K)) : PluginMap K :=
  cs.foldl (fun m c => m.act readOnly c) m

end PluginMap

/-! ## One method -/

/-- The tables hold a map of keys. -/
def Tables.HoldsMap {K : ZKeyExpr} (z : ZExt) (T : Tables) (m : PluginMap K) : Prop :=
  ∃ M : EntryMap, T.Represents z M ∧ Encodes M m

section HoldsMap

variable {z : ZExt} {K : ZKeyExpr} {T : Tables} {m : PluginMap K}

theorem Tables.holdsMap_empty : Tables.empty.HoldsMap (K := K) z fun _ => none :=
  ⟨∅, represents_empty, .empty⟩

/-- What the storage answers for a method is what the map says, with the key expression
`NONE_KEY` taken for the missing key. -/
theorem Tables.HoldsMap.spec (h : T.HoldsMap z m) (ro : Bool) {c : PluginCall K}
    (hc : (c.isWrite && ro) = false) :
    (∃ a, c.result (c.storageCall.spec z ro T).1 = .ok a ∧ m.Answers c.collapse a) ∧
      (c.storageCall.spec z ro T).2.HoldsMap z (m.call c.collapse) := by
  obtain ⟨M, hM, henc⟩ := h
  obtain ⟨hr, hM'⟩ := hM.answer ro c.storageCall
  rw [EntryMap.answer, c.isWrite_storageCall, hc, if_neg Bool.false_ne_true] at hr hM'
  refine ⟨?_, _, hM', henc.call c⟩
  cases hspec : (c.storageCall.spec z ro T).1 with
  | error e =>
      rw [hspec] at hr
      cases hr
  | ok r =>
      rw [hspec] at hr
      exact ⟨c.reply r, rfl, henc.answers c (Except.ok.inj hr)⟩

variable {self : RedbStoragePlugin}

/-- **A method on tables that hold a map**: it ends in an error of redb and has no effect, or it
does what the interface says. -/
theorem Tables.HoldsMap.exec_faults (h : T.HoldsMap z m)
    (hself : self.storageConfig = self.storage.config) (c : PluginCall K)
    (fs : List (Option String)) (buf : Bytes) :
    (fs ≠ [] ∧ ∃ e, ((c.prog z self).exec fs buf T.db).1 = .error (c.error e) ∧
      e.isRedb = true ∧ ((c.prog z self).exec fs buf T.db).2.2 = T.db) ∨
    (m.Returns self.storageConfig.readOnly c.collapse ((c.prog z self).exec fs buf T.db).1 ∧
      ∃ T' : Tables, ((c.prog z self).exec fs buf T.db).2.2 = T'.db ∧
        T'.HoldsMap z (m.act self.storageConfig.readOnly c.collapse)) := by
  unfold PluginMap.Returns PluginMap.act
  rw [PluginCall.exec, c.isWrite_collapse]
  by_cases hrefused : (c.isWrite && self.storageConfig.readOnly) = true
  · right
    simp only [hrefused, if_true]
    exact ⟨trivial, T, rfl, h⟩
  · simp only [hrefused, Bool.false_eq_true, if_false]
    obtain ⟨hanswer, hholds⟩ := h.spec self.storageConfig.readOnly (Bool.eq_false_iff.mpr hrefused)
    rw [hself] at hanswer hholds
    rcases StorageCall.exec_tables_cases z self.storage c.storageCall fs buf T with
      ⟨hfs, e, he, hredb, hdb⟩ | ⟨hr, hdb⟩
    · left
      rw [he, hdb]
      exact ⟨hfs, e, rfl, hredb, rfl⟩
    · right
      rw [hr, hdb]
      exact ⟨hanswer, _, rfl, hholds⟩

end HoldsMap

/-! ## Clients -/

/-- What a client runs: a method with its arguments, on a thread with this key buffer. -/
abbrev MethodOp (K : ZKeyExpr) := PluginCall K × Bytes

/-- The program of a client. -/
def methodBody {K : ZKeyExpr} (z : ZExt) (self : RedbStoragePlugin) (o : MethodOp K) :
    RedbProg (Except ZError (PluginReply K) × Bytes) :=
  (o.1.prog z self).run.run o.2

/-- Ending a method: no write transaction is given up, and after a failing call there is an error
of redb, in the words of the method. -/
def PluginCall.EndsWell {K : ZKeyExpr} (c : PluginCall K)
    (r : Except ZError (PluginReply K) × Bytes) (φ : Phase) : Prop :=
  φ ≠ .writing ∧ (φ = .failed → ∃ e, r.1 = .error (c.error e) ∧ e.isRedb = true)

section Discipline

variable {α β : Type} {φ : Phase} (buf : Bytes)

theorem obeys_mapErr {Q : Except ZError α × Bytes → Phase → Prop} (f : RedbBackendError → ZError)
    (x : StorageM α) : ((mapErr f x).run.run buf).Obeys Q φ ↔
      (x.run.run buf).Obeys (fun r ψ => Q (r.1.mapError f, r.2) ψ) φ := by
  have hprog : (mapErr f x).run.run buf
      = x.run.run buf >>= fun r => .ret (r.1.mapError f, r.2) := by
    refine congrArg (x.run.run buf >>= ·) (funext ?_)
    rintro ⟨r, buf'⟩
    cases r <;> rfl
  rw [hprog, Prog.obeys_bind]
  exact Iff.rfl

theorem obeys_bind_pure {Q : Except ZError β × Bytes → Phase → Prop} (x : PluginM α) (g : α → β) :
    ((x >>= fun a => pure (g a) : PluginM β).run.run buf).Obeys Q φ ↔
      (x.run.run buf).Obeys (fun r ψ => Q (r.1.map g, r.2) ψ) φ := by
  have hprog : (x >>= fun a => pure (g a) : PluginM β).run.run buf
      = x.run.run buf >>= fun r => .ret (r.1.map g, r.2) := by
    refine congrArg (x.run.run buf >>= ·) (funext ?_)
    rintro ⟨r, buf'⟩
    cases r <;> rfl
  rw [hprog, Prog.obeys_bind]
  exact Iff.rfl

/-- What a method makes of an operation of the storage ends as the operation does. -/
theorem endsWell_of_obeys {K : ZKeyExpr} {Q : α → Phase → Prop} {x : StorageM α}
    (hx : x.Obeys Q φ) (hQ : ∀ a ψ, Q a ψ → ψ ≠ .writing) {c : PluginCall K}
    {conv : Except RedbBackendError α × Bytes → Except ZError (PluginReply K) × Bytes}
    (hconv : ∀ e buf', (conv (.error e, buf')).1 = .error (c.error e)) :
    (x.run.run buf).Obeys (fun r ψ => c.EndsWell (conv r) ψ) φ := by
  refine (hx buf).mono ?_
  rintro ⟨r, buf'⟩ ψ hr
  cases r with
  | ok a => exact ⟨hQ a ψ hr.2, fun hφ => absurd hφ hr.1⟩
  | error e => exact ⟨hr.1, fun hφ => ⟨e, hconv e buf', hr.2.2 hφ⟩⟩

theorem methodBody_endsWell {K : ZKeyExpr} (z : ZExt) (self : RedbStoragePlugin) (o : MethodOp K) :
    (methodBody z self o).Obeys o.1.EndsWell .idle := by
  obtain ⟨c, buf⟩ := o
  have hrefused : ∀ e, c.EndsWell (.error e, buf) .idle := fun e => ⟨nofun, nofun⟩
  have hcommitted : ∀ {γ : Type} (a : γ) (ψ : Phase), ψ = .committed → ψ ≠ .writing := by
    rintro γ a _ rfl
    exact nofun
  have hreading : ∀ {γ : Type} (a : γ) (ψ : Phase), ψ = .reading → ψ ≠ .writing := by
    rintro γ a _ rfl
    exact nofun
  unfold methodBody
  cases c with
  | put key payload encoding timestamp =>
      simp only [PluginCall.prog, RedbStoragePlugin.put]
      rw [obeys_bind_pure]
      split
      · exact hrefused _
      · rw [obeys_bind_pure, obeys_mapErr]
        exact endsWell_of_obeys buf (put_obeys z self.storage _ _) hcommitted fun _ _ => rfl
  | delete key timestamp =>
      simp only [PluginCall.prog, RedbStoragePlugin.delete]
      rw [obeys_bind_pure]
      split
      · exact hrefused _
      · rw [obeys_bind_pure, obeys_mapErr]
        exact endsWell_of_obeys buf (delete_obeys self.storage _) hcommitted fun _ _ => rfl
  | get key parameters =>
      simp only [PluginCall.prog, RedbStoragePlugin.get]
      rw [obeys_bind_pure, obeys_bind_pure, obeys_mapErr]
      exact endsWell_of_obeys buf (get_obeys z _) hreading fun _ _ => rfl
  | getAllEntries =>
      simp only [PluginCall.prog, RedbStoragePlugin.getAllEntries]
      rw [obeys_bind_pure, obeys_bind_pure, obeys_mapErr]
      exact endsWell_of_obeys buf (scan_obeys z _) hreading fun _ _ => rfl

end Discipline

section Clients

variable {ι : Type} {z : ZExt} {K : ZKeyExpr} {self : RedbStoragePlugin} {T : Tables}
  {m : PluginMap K}

/-- The methods of a log, with their keys as the storage tells them apart. -/
def methods (log : List (Entry ι (MethodOp K))) : List (PluginCall K) :=
  log.map (·.ticket.op.1.collapse)

/-- Alone, a client does what the interface says. -/
theorem Tables.HoldsMap.exec_methodBody (h : T.HoldsMap z m)
    (hself : self.storageConfig = self.storage.config) (o : MethodOp K) :
    m.Returns self.storageConfig.readOnly o.1.collapse (exec [] (methodBody z self o) T.db).1.1 ∧
      ∃ T' : Tables, (exec [] (methodBody z self o) T.db).2 = T'.db ∧
        T'.HoldsMap z (m.act self.storageConfig.readOnly o.1.collapse) := by
  rcases h.exec_faults hself o.1 [] o.2 with ⟨hne, -⟩ | hdone
  · exact absurd rfl hne
  · exact hdone

/-- Replaying a log does its methods to the map. -/
theorem Tables.HoldsMap.replay (h : T.HoldsMap z m)
    (hself : self.storageConfig = self.storage.config) (log : List (Entry ι (MethodOp K))) :
    ∃ T' : Tables, TxStore.replay (methodBody z self) T.db log = T'.db ∧
      T'.HoldsMap z (m.afterAll self.storageConfig.readOnly (methods log)) := by
  induction log generalizing T m with
  | nil => exact ⟨T, rfl, h⟩
  | cons e log ih =>
      obtain ⟨-, T', hdb, hT'⟩ := h.exec_methodBody hself e.ticket.op
      obtain ⟨T'', hreplay, hT''⟩ := ih hT'
      refine ⟨T'', ?_, hT''⟩
      rw [← hreplay, ← hdb]
      rfl

variable [DecidableEq ι]

/-- **Concurrent methods.** Let any number of clients call the methods of the plugin on tables
that hold a map, their calls to redb interleaved in any way and any of them failing. In every
state that can be reached, the methods in which a call failed have had no effect and returned an
error of redb. Leaving them out gives a linearizable history: the tables hold the map that its
methods make, in their order, and each of the others has returned what the interface says in its
place. -/
theorem methods_linearizable (z : ZExt) (hT : T.HoldsMap z m)
    (hself : self.storageConfig = self.storage.config) {ms : List (FMove ι (MethodOp K) String)}
    {s : FSys ι (MethodOp K) TableName Bytes Bytes String (Except ZError (PluginReply K) × Bytes)}
    (h : FSys.Reaches (methodBody z self) T.db ms s) :
    ∃ t, FSys.Explained (methodBody z self) T.db ms s t ∧
      (∃ T' : Tables, s.db = T'.db ∧
        T'.HoldsMap z (m.afterAll self.storageConfig.readOnly (methods t.log))) ∧
      ∀ d ∈ s.returned,
        (d.failed = true → ∃ e, d.result.1 = .error (d.op.1.error e) ∧
          e.isRedb = true) ∧
        (d.failed = false → ∃ before e after, t.log = before ++ e :: after ∧
          e.ticket.client = d.client ∧ e.ticket.op = d.op ∧
          (m.afterAll self.storageConfig.readOnly (methods before)).Returns
            self.storageConfig.readOnly d.op.1.collapse d.result.1) := by
  obtain ⟨⟨t, ht⟩, hfail⟩ := h.explained (methodBody_endsWell z self) fun _ _ _ hφ => hφ.1
  refine ⟨t, ht, ?_, fun d hd => ⟨fun hf => (hfail d hd hf).2 rfl, fun hf => ?_⟩⟩
  · rw [ht.contents]
    exact hT.replay hself t.log
  · obtain ⟨before, e, after, hlog, hclient, hop, hr⟩ := ht.results hd hf
    refine ⟨before, e, after, hlog, hclient, hop, ?_⟩
    -- the methods before it leave tables that hold the map after them
    obtain ⟨T', hreplay, hT'⟩ := hT.replay hself before
    rw [hr, hreplay]
    exact (hT'.exec_methodBody hself d.op).1

/-- Without a key and with the key expression `NONE_KEY`: the methods of two clients meet, and a
`delete` whose commit fails leaves what they put. -/
theorem methods_linearizable_noneKey :
    let self : RedbStoragePlugin := ⟨⟨.ofString "s.redb", .new, "s"⟩, .new⟩
    let put : PluginCall .plain := .put none [1] ⟨0, none⟩ .first
    let get : PluginCall .plain := .get (some (.noneKey .plain)) ""
    let calls : Bool → Nat → List (FMove Bool (MethodOp .plain) String) := fun i n =>
      List.replicate n (.move (.call i))
    let ms : List (FMove Bool (MethodOp .plain) String) :=
      .move (.invoke true (put, [])) :: calls true 6 ++ [.move (.ret true)] ++
        .move (.invoke true (.delete none .first, [])) :: calls true 5 ++
        .fail true "disk full" :: .move (.invoke false (get, [])) :: calls false 5 ++
        [.move (.ret false), .move (.ret true)]
    ∃ s t, (FSys.init Tables.empty.db).run (methodBody .layout self) ms = some s ∧
      s.returned.map (·.result.1) = [.ok (.insertion .inserted),
        .ok (.data [⟨[1], ⟨0, none⟩, .first⟩]),
        .error ((PluginCall.delete none .first : PluginCall .plain).error
          (.commitError (.storage "disk full")))] ∧
      FSys.Explained (methodBody .layout self) Tables.empty.db ms s t ∧
      ∃ T' : Tables, s.db = T'.db ∧ T'.HoldsMap .layout (PluginMap.afterAll (fun _ => none) false
        (methods t.log)) := by
  intro self put get calls ms
  obtain ⟨s, hs, hreturned⟩ : ∃ s : FSys Bool (MethodOp .plain) TableName Bytes Bytes String
        (Except ZError (PluginReply .plain) × Bytes),
      (FSys.init Tables.empty.db).run (methodBody .layout self) ms = some s ∧
        s.returned.map (·.result.1) = [.ok (.insertion .inserted),
          .ok (.data [⟨[1], ⟨0, none⟩, .first⟩]),
          .error ((PluginCall.delete none .first : PluginCall .plain).error
            (.commitError (.storage "disk full")))] :=
    ⟨_, by rfl, by rfl⟩
  obtain ⟨t, ht, hmap, -⟩ :=
    methods_linearizable .layout Tables.holdsMap_empty rfl (FSys.Reaches.init.run hs)
  exact ⟨s, t, hs, hreturned, ht, hmap⟩

end Clients

end ZenohRedb
