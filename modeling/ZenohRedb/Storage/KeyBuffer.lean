import ZenohRedb.Lib.Runs
import ZenohRedb.Disk

set_option autoImplicit false

/-! # The key buffer of a thread

All storages of a thread encode their keys into one buffer (`KEY_BUFFER`), and an operation
that fails leaves its key there. This file shows that nobody notices. An operation neither
returns nor writes anything that depends on what it finds in the buffer
(`StorageCall.blind`), and the keys it gives to redb are the bytes of its own argument
(`StorageCall.names`), which it gives to both tables if it succeeds (`StorageCall.makes`). For a
thread that uses several storages it follows that the calls on one of them are not disturbed by
those on others (`Thread.own_calls`).
-/

namespace ZenohRedb

open TxStore

/-! ## Operations that do not depend on the buffer -/

/-- The result of `x` and what it does to the database do not depend on the key buffer. -/
def StorageM.Blind {α : Type} (x : StorageM α) : Prop :=
  ∀ buf buf' m, (x.eval buf m).1.1 = (x.eval buf' m).1.1 ∧ (x.eval buf m).2 = (x.eval buf' m).2

section Blind

variable {α β : Type}

theorem blind_pure (a : α) : (pure a : StorageM α).Blind := fun _ _ _ => ⟨rfl, rfl⟩

theorem blind_throw (e : RedbBackendError) : (throw e : StorageM α).Blind :=
  fun _ _ _ => ⟨rfl, rfl⟩

theorem blind_orThrow (x : Except RedbBackendError α) : (orThrow x).Blind :=
  fun _ _ _ => ⟨rfl, rfl⟩

theorem eval_redb (c : RedbCmd) (buf : Bytes) (m : Mach TableName Bytes Bytes String) :
    (redb c).eval buf m = (((m.step c).1.mapError (.ofRedb c), buf), (m.step c).2) := by
  show Prog.run (Prog.call c _) m = _
  rw [Prog.run_call]
  cases (m.step c).1 with
  | ok r => rfl
  | error e => rfl

theorem blind_redb (c : RedbCmd) : (redb c).Blind := by
  intro buf buf' m
  simp only [eval_redb, and_self]

theorem blind_bind {x : StorageM α} {f : α → StorageM β} (hx : x.Blind) (hf : ∀ a, (f a).Blind) :
    (x >>= f).Blind := by
  intro buf buf' m
  obtain ⟨hr, hm⟩ := hx buf buf' m
  simp only [eval_bind]
  -- the two runs of `x` end alike but for the buffer, and `f` goes on from there
  generalize x.eval buf m = o at hr hm ⊢
  generalize x.eval buf' m = o' at hr hm ⊢
  obtain ⟨⟨r, b⟩, m₁⟩ := o
  obtain ⟨⟨r', b'⟩, m₁'⟩ := o'
  obtain rfl : r = r' := hr
  obtain rfl : m₁ = m₁' := hm
  cases r with
  | ok a => exact hf a b b' m₁
  | error e => exact ⟨rfl, rfl⟩

/-- An operation that begins by clearing the buffer does not see what was in it. -/
theorem blind_keyBufClear (f : Unit → StorageM α) : (keyBufClear >>= f).Blind := by
  intro buf buf' m
  simp only [eval_bind, eval_keyBufClear, and_self]

theorem blind_forItems {σ : Type} (t : TableName) {body : σ → Bytes → Bytes → StorageM σ}
    (hbody : ∀ acc k v, (body acc k v).Blind) (n i : Nat) (acc : σ) :
    (forItems t body n i acc).Blind := by
  induction n generalizing i acc with
  | zero => exact blind_pure acc
  | succ n ih =>
      refine blind_bind (blind_redb _) fun item => ?_
      cases item with
      | none => exact blind_pure acc
      | some kv => exact blind_bind (hbody acc kv.1 kv.2) fun acc' => ih (i + 1) acc'

end Blind

section Operations

variable (z : ZExt) (self : RedbStorage)

theorem scan_blind (sel : String → Bool) : (RedbStorage.scan z sel).Blind := by
  have hbody : ∀ acc k v, (RedbStorage.scanBody z sel acc k v).Blind := by
    intro acc k v
    refine blind_bind (blind_orThrow _) fun key => ?_
    split
    · refine blind_bind (blind_orThrow _) fun info => ?_
      obtain ⟨encoding, timestamp, deleted⟩ := info
      cases deleted with
      | true => exact blind_pure acc
      | false =>
          refine blind_bind (blind_redb _) fun payload => ?_
          cases payload with
          | none => exact blind_pure acc
          | some bytes => exact blind_pure _
    · exact blind_pure acc
  refine blind_bind (blind_redb _) fun _ => ?_
  refine blind_bind (blind_redb _) fun _ => ?_
  refine blind_bind (blind_redb _) fun _ => ?_
  refine blind_bind (blind_redb _) fun n => ?_
  exact blind_forItems DATA_INFO_TABLE hbody (n + 1) 0 []

theorem count_blind : (RedbStorage.count z).Blind := by
  have hbody : ∀ acc k v, (RedbStorage.countBody z acc k v).Blind := by
    intro acc k v
    refine blind_bind (blind_orThrow _) fun info => ?_
    obtain ⟨encoding, timestamp, deleted⟩ := info
    cases deleted with
    | true => exact blind_pure acc
    | false => exact blind_pure (acc + 1)
  refine blind_bind (blind_redb _) fun _ => ?_
  refine blind_bind (blind_redb _) fun _ => ?_
  refine blind_bind (blind_redb _) fun n => ?_
  exact blind_forItems DATA_INFO_TABLE hbody (n + 1) 0 0

theorem clear_blind : self.clear.Blind := by
  unfold RedbStorage.clear
  split
  · exact blind_throw _
  · refine blind_bind (blind_redb _) fun _ => ?_
    refine blind_bind (blind_redb _) fun _ => ?_
    refine blind_bind (blind_redb _) fun _ => ?_
    refine blind_bind (blind_redb _) fun _ => ?_
    refine blind_bind (blind_redb _) fun _ => ?_
    exact blind_redb _

/-- **No operation depends on the key buffer.** Those with a key clear it first, the others
do not touch it. -/
theorem StorageCall.blind (c : StorageCall) : (c.prog z self).Blind := by
  cases c with
  | put key value =>
      refine blind_bind ?_ fun _ => blind_pure _
      unfold RedbStorage.put
      split
      · exact blind_throw _
      · exact blind_keyBufClear _
  | delete key =>
      refine blind_bind ?_ fun _ => blind_pure _
      unfold RedbStorage.delete
      split
      · exact blind_throw _
      · exact blind_keyBufClear _
  | clear => exact blind_bind (clear_blind self) fun _ => blind_pure _
  | get key => exact blind_bind (blind_keyBufClear _) fun v => blind_pure (Reply.value v)
  | getAll => exact blind_bind (scan_blind z _) fun l => blind_pure (Reply.entries l)
  | getByPrefix keyPrefix => exact blind_bind (scan_blind z _) fun l => blind_pure (Reply.entries l)
  | getByWildcard pattern => exact blind_bind (scan_blind z _) fun l => blind_pure (Reply.entries l)
  | count => exact blind_bind (count_blind z) fun n => blind_pure (Reply.number n)

end Operations

/-! ## The keys an operation gives to redb

Two conditions on the calls of an operation that finds `buf` in the key buffer: that every key
it gives to redb is `k` (`Names`), and that it does not succeed without a certain call (`Makes`).
Both are decided along its paths (`Along`), so the rules are shared. -/

/-- A condition along the paths of `x`. A path that ends in an error satisfies it; of one that
ends in a value, the value and the buffer are to satisfy `Q`. -/
def StorageM.Along {α : Type} (S : RedbCmd → Prop → Prop) (Q : α → Bytes → Prop)
    (x : StorageM α) (buf : Bytes) : Prop :=
  (x.run.run buf).Along S fun r => ∀ a, r.1 = .ok a → Q a r.2

/-- From the buffer `buf` on, every call to redb that names a key names `k`, whatever redb
answers, and the value and the buffer at the end satisfy `Q`. -/
def StorageM.Names {α : Type} (k : Bytes) (Q : α → Bytes → Prop) (x : StorageM α)
    (buf : Bytes) : Prop :=
  (x.run.run buf).Calls (fun c => ∀ k', c.key? = some k' → k' = k)
    fun r => ∀ a, r.1 = .ok a → Q a r.2

/-- From the buffer `buf` on, `x` ends in an error or has made a call to redb that satisfies `P`,
whatever redb answers. -/
def StorageM.Makes {α : Type} (P : RedbCmd → Prop) (x : StorageM α) (buf : Bytes) : Prop :=
  (x.run.run buf).Makes P fun r => ∃ e, r.1 = .error e

section Along

variable {α β : Type} {S : RedbCmd → Prop → Prop} {buf : Bytes}

theorem along_bind {Q : β → Bytes → Prop} {x : StorageM α} {f : α → StorageM β}
    (h : x.Along S (fun a buf' => (f a).Along S Q buf') buf) : (x >>= f).Along S Q buf := by
  show ((x.run.run buf) >>= _).Along _ _
  rw [Prog.along_bind]
  -- of the paths of `x`, those that end in an error end there
  refine (iff_of_eq (congrArg (fun R => (x.run.run buf).Along S R) (funext ?_))).mp h
  rintro ⟨r, buf'⟩
  cases r with
  | ok a => exact propext ⟨fun hr => hr a rfl, fun hr a' ha => Except.ok.inj ha ▸ hr⟩
  | error e => exact propext ⟨fun _ => nofun, fun _ => nofun⟩

theorem along_throw {Q : α → Bytes → Prop} (e : RedbBackendError) :
    (throw e : StorageM α).Along S Q buf := nofun

theorem along_orThrow {Q : α → Bytes → Prop} {x : Except RedbBackendError α}
    (h : ∀ a, Q a buf) : (orThrow x).Along S Q buf := fun a _ => h a

theorem along_keyBuf {Q : Bytes → Bytes → Prop} (h : Q buf buf) : keyBuf.Along S Q buf := by
  intro a ha
  cases ha
  exact h

theorem along_keyBufClear {Q : Unit → Bytes → Prop} (h : Q () []) :
    keyBufClear.Along S Q buf := fun _ _ => h

theorem along_keyBufExtend {Q : Unit → Bytes → Prop} {bs : Bytes} (h : Q () (buf ++ bs)) :
    (keyBufExtend bs).Along S Q buf := fun _ _ => h

/-- A call to redb, and what comes after it when it does not fail. -/
theorem along_redb {c : RedbCmd} {Q : c.Ret → Bytes → Prop} (h : S c (∀ a, Q a buf)) :
    (redb c).Along S Q buf := by
  refine (iff_of_eq (congrArg (S c) (propext ⟨fun hQ r => ?_, fun hr a => ?_⟩))).mp h
  · cases r with
    | ok a => exact fun _ ha => Except.ok.inj ha ▸ hQ a
    | error e => exact nofun
  · exact hr (.ok a) a rfl

theorem names_of_along {k : Bytes} {Q : α → Bytes → Prop} {x : StorageM α}
    (h : x.Along (fun c rest => (∀ k', c.key? = some k' → k' = k) ∧ rest) Q buf) :
    x.Names k Q buf := h

theorem makes_of_along {P : RedbCmd → Prop} {x : StorageM α}
    (h : x.Along (fun c rest => P c ∨ rest) (fun _ _ => False) buf) : x.Makes P buf := by
  refine (iff_of_eq (congrArg (fun R => (x.run.run buf).Along _ R) (funext ?_))).mp h
  rintro ⟨r, buf'⟩
  cases r with
  | ok a => exact propext ⟨fun hr => (hr a rfl).elim, nofun⟩
  | error e => exact propext ⟨fun _ => ⟨e, rfl⟩, fun _ => nofun⟩

end Along

/-- `put`, `get` and `delete` give redb the bytes of their key and no others, whatever they
find in the buffer. -/
theorem StorageCall.names (z : ZExt) (self : RedbStorage) (key : String) (buf : Bytes) :
    (∀ value, (self.put z key value).Names (Str.asBytes key) (fun _ _ => True) buf) ∧
    (RedbStorage.get z key).Names (Str.asBytes key) (fun _ _ => True) buf ∧
    (self.delete key).Names (Str.asBytes key) (fun _ _ => True) buf := by
  have hkey : ∀ k', some (Str.asBytes key) = some k' → k' = Str.asBytes key :=
    fun k' h => (Option.some.inj h).symm
  refine ⟨fun value => names_of_along ?_, names_of_along ?_, names_of_along ?_⟩
  · unfold RedbStorage.put
    split
    · exact along_throw _
    · -- from here on the buffer holds the bytes of the key
      refine along_bind (along_keyBufClear (along_bind (along_keyBufExtend ?_)))
      refine along_bind (along_orThrow fun bytes => ?_)
      refine along_bind (along_redb ⟨nofun, fun _ => ?_⟩)
      refine along_bind (along_redb ⟨nofun, fun _ => ?_⟩)
      refine along_bind (along_keyBuf (along_bind (along_redb ⟨hkey, fun _ => ?_⟩)))
      refine along_bind (along_redb ⟨nofun, fun _ => ?_⟩)
      refine along_bind (along_keyBuf (along_bind (along_redb ⟨hkey, fun _ => ?_⟩)))
      exact along_redb (c := .commit) ⟨nofun, fun _ => trivial⟩
  · refine along_bind (along_keyBufClear (along_bind (along_keyBufExtend ?_)))
    refine along_bind (along_redb ⟨nofun, fun _ => ?_⟩)
    refine along_bind (along_redb ⟨nofun, fun _ => ?_⟩)
    refine along_bind (along_redb ⟨nofun, fun _ => ?_⟩)
    refine along_bind (along_keyBuf (along_bind (along_redb ⟨hkey, fun _ => ?_⟩)))
    refine along_bind (along_keyBuf (along_bind (along_redb ⟨hkey, fun _ => ?_⟩)))
    exact along_orThrow fun _ => trivial
  · unfold RedbStorage.delete
    split
    · exact along_throw _
    · refine along_bind (along_keyBufClear (along_bind (along_keyBufExtend ?_)))
      refine along_bind (along_redb ⟨nofun, fun _ => ?_⟩)
      refine along_bind (along_redb ⟨nofun, fun _ => ?_⟩)
      refine along_bind (along_redb ⟨nofun, fun _ => ?_⟩)
      refine along_bind (along_keyBuf (along_bind (along_redb ⟨hkey, fun _ => ?_⟩)))
      refine along_bind (along_keyBuf (along_bind (along_redb ⟨hkey, fun _ => ?_⟩)))
      exact along_redb (c := .commit) ⟨nofun, fun _ => trivial⟩

/-- They do not succeed unless they have accessed their key in both tables. -/
theorem StorageCall.makes (z : ZExt) (self : RedbStorage) (key : String) (buf : Bytes)
    (t : TableName) :
    (∀ value, (self.put z key value).Makes (fun c => ∃ v, c = .insert t (Str.asBytes key) v) buf) ∧
    (RedbStorage.get z key).Makes (· = .get t (Str.asBytes key)) buf ∧
    (self.delete key).Makes (· = .remove t (Str.asBytes key)) buf := by
  refine ⟨fun value => makes_of_along ?_, makes_of_along ?_, makes_of_along ?_⟩
  · unfold RedbStorage.put
    split
    · exact along_throw _
    · refine along_bind (along_keyBufClear (along_bind (along_keyBufExtend ?_)))
      refine along_bind (along_orThrow fun bytes => ?_)
      refine along_bind (along_redb (Or.inr fun _ => ?_))
      refine along_bind (along_redb (Or.inr fun _ => ?_))
      cases t with
      | payloads =>
          exact along_bind (along_keyBuf (along_bind (along_redb (Or.inl ⟨_, rfl⟩))))
      | dataInfo =>
          refine along_bind (along_keyBuf (along_bind (along_redb (Or.inr fun _ => ?_))))
          refine along_bind (along_redb (Or.inr fun _ => ?_))
          exact along_bind (along_keyBuf (along_bind (along_redb (Or.inl ⟨_, rfl⟩))))
  · refine along_bind (along_keyBufClear (along_bind (along_keyBufExtend ?_)))
    refine along_bind (along_redb (Or.inr fun _ => ?_))
    refine along_bind (along_redb (Or.inr fun _ => ?_))
    refine along_bind (along_redb (Or.inr fun _ => ?_))
    cases t with
    | payloads => exact along_bind (along_keyBuf (along_bind (along_redb (Or.inl rfl))))
    | dataInfo =>
        refine along_bind (along_keyBuf (along_bind (along_redb (Or.inr fun _ => ?_))))
        exact along_bind (along_keyBuf (along_bind (along_redb (Or.inl rfl))))
  · unfold RedbStorage.delete
    split
    · exact along_throw _
    · refine along_bind (along_keyBufClear (along_bind (along_keyBufExtend ?_)))
      refine along_bind (along_redb (Or.inr fun _ => ?_))
      refine along_bind (along_redb (Or.inr fun _ => ?_))
      refine along_bind (along_redb (Or.inr fun _ => ?_))
      cases t with
      | payloads => exact along_bind (along_keyBuf (along_bind (along_redb (Or.inl rfl))))
      | dataInfo =>
          refine along_bind (along_keyBuf (along_bind (along_redb (Or.inr fun _ => ?_))))
          exact along_bind (along_keyBuf (along_bind (along_redb (Or.inl rfl))))

/-! ## A thread with several storages -/

/-- What the storages of a thread share: the key buffer, and the disk with the databases. -/
structure Thread where
  buf : Bytes
  disk : Disk

namespace Thread

/-- A call of an operation of a storage, with the faults that happen in it. -/
abbrev Call := RedbStorage × StorageCall × List (Option String)

def step (z : ZExt) (s : Thread) : Call → Except RedbBackendError Reply × Thread
  | (storage, c, faults) =>
      match storage.onDisk (c.prog z storage) faults s.buf s.disk with
      | (r, buf, disk) => (r, ⟨buf, disk⟩)

variable {z : ZExt} {A B : RedbStorage} {d d' : Disk}

/-- Two threads that agree on the database of a storage give its calls the same result, and
agree on the database afterwards. Their buffers need not agree. -/
theorem step_own (s s' : Thread) (c : StorageCall) (fs : List (Option String))
    (h : s.disk.read A.db = s'.disk.read A.db) :
    (s.step z (A, c, fs)).1 = (s'.step z (A, c, fs)).1 ∧
      (s.step z (A, c, fs)).2.disk.read A.db = (s'.step z (A, c, fs)).2.disk.read A.db := by
  simp only [step]
  rcases A.onDisk_cases (c.prog z A) fs s.buf s.disk with ⟨db, isOpen, hread, hrun⟩ | ⟨hnone, hrun⟩
  · have hrun' := A.onDisk_eq (c.prog z A) fs s'.buf (h.symm.trans hread)
    obtain ⟨hr, hm⟩ := StorageCall.blind z A c s.buf s'.buf ⟨db, .idle, fs⟩
    rw [hrun, hrun']
    refine ⟨hr, ?_⟩
    simp only [StorageM.exec_eq, hm, Disk.read_write]
  · rcases A.onDisk_cases (c.prog z A) fs s'.buf s'.disk with ⟨db, isOpen, hread, -⟩ | ⟨-, hrun'⟩
    · exact absurd (h.trans hread) (hnone db isOpen)
    · rw [hrun, hrun']
      exact ⟨rfl, h⟩

/-- A call leaves the databases in other files alone. -/
theorem step_other (s : Thread) (c : StorageCall) (fs : List (Option String)) {path : PathBuf}
    (h : s.disk.resolve B.db ≠ s.disk.resolve path) :
    (s.step z (B, c, fs)).2.disk.read path = s.disk.read path := by
  simp only [step]
  rcases B.onDisk_cases (c.prog z B) fs s.buf s.disk with ⟨db, isOpen, -, hrun⟩ | ⟨-, hrun⟩
  · rw [hrun]
    exact Disk.read_write_of_ne h
  · rw [hrun]

/-- No call changes what paths resolve to. -/
theorem step_resolve (s : Thread) (a : Call) : (s.step z a).2.disk.resolve = s.disk.resolve := by
  obtain ⟨storage, c, fs⟩ := a
  simp only [step]
  rcases storage.onDisk_cases (c.prog z storage) fs s.buf s.disk with
    ⟨db, isOpen, -, hrun⟩ | ⟨-, hrun⟩
  · rw [hrun]
    rfl
  · rw [hrun]

/-- Two threads that agree on what paths resolve to and on the database of `A`. -/
def SameDb (disk : Disk) (A : RedbStorage) (s s' : Thread) : Prop :=
  s.disk.resolve = disk.resolve ∧ s.disk.read A.db = s'.disk.read A.db

/-- **Storages of one thread do not interfere.** Let a thread call the storage `A` and
storages on other files, in any order, with any faults and any content of the key buffer.
The results of the calls on `A` and the database of `A` at the end are those of a thread that
makes only the calls on `A` and starts with an empty buffer; and the operations with a key
give redb the bytes of that key only, and do not succeed without giving them to both tables. -/
theorem own_calls (z : ZExt) (A : RedbStorage) (disk : Disk) (buf : Bytes) {calls : List Call}
    (h : ∀ a ∈ calls, a.1 = A ∨ disk.resolve a.1.db ≠ disk.resolve A.db) :
    let whole := Runs.run (step z) ⟨buf, disk⟩ calls
    let own := Runs.run (step z) ⟨[], disk⟩ (calls.filter (·.1 = A))
    Runs.resultsOf (·.1 = A) calls whole.1 = own.1 ∧
      whole.2.disk.read A.db = own.2.disk.read A.db ∧
      ∀ (self : RedbStorage) (key : String) (buf : Bytes),
        ((∀ value, (self.put z key value).Names (Str.asBytes key) (fun _ _ => True) buf) ∧
          (RedbStorage.get z key).Names (Str.asBytes key) (fun _ _ => True) buf ∧
          (self.delete key).Names (Str.asBytes key) (fun _ _ => True) buf) ∧
        ∀ t : TableName,
          (∀ value, (self.put z key value).Makes
            (fun c => ∃ v, c = .insert t (Str.asBytes key) v) buf) ∧
          (RedbStorage.get z key).Makes (· = .get t (Str.asBytes key)) buf ∧
          (self.delete key).Makes (· = .remove t (Str.asBytes key)) buf := by
  intro whole own
  have hown : ∀ s s' : Thread, ∀ a ∈ calls, decide (a.1 = A) = true → SameDb disk A s s' →
      (s.step z a).1 = (s'.step z a).1 ∧ SameDb disk A (s.step z a).2 (s'.step z a).2 := by
    rintro s s' ⟨storage, c, fs⟩ - hA ⟨hres, hread⟩
    obtain rfl : storage = A := of_decide_eq_true hA
    obtain ⟨hr, hread'⟩ := step_own (z := z) s s' c fs hread
    exact ⟨hr, (step_resolve s _).trans hres, hread'⟩
  -- a call on another storage is made by the left thread only
  have hother : ∀ s s' : Thread, ∀ a ∈ calls, decide (a.1 = A) = false → SameDb disk A s s' →
      SameDb disk A (s.step z a).2 s' := by
    rintro s s' ⟨storage, c, fs⟩ hmem hA ⟨hres, hread⟩
    have hne : disk.resolve storage.db ≠ disk.resolve A.db :=
      (h _ hmem).resolve_left (of_decide_eq_false hA)
    rw [← hres] at hne
    exact ⟨(step_resolve s _).trans hres, (step_other s c fs hne).trans hread⟩
  have hstart : SameDb disk A ⟨buf, disk⟩ ⟨[], disk⟩ := ⟨rfl, rfl⟩
  obtain ⟨hresults, -, hread⟩ := Runs.run_filter (step z) (step z) _ _ hown hother hstart
  exact ⟨hresults, hread, fun self key buf =>
    ⟨StorageCall.names z self key buf, StorageCall.makes z self key buf⟩⟩

/-- A put that fails on one storage, its key left in the buffer, is not seen by the next
`get` on another. -/
theorem own_calls_after_failure :
    let A : RedbStorage := ⟨.ofString "a.redb", .new, "a"⟩
    let B : RedbStorage := ⟨.ofString "b.redb", .new, "b"⟩
    let disk := (Disk.blank.write A.db (.database Tables.empty.db true)).write B.db
      (.database Tables.empty.db true)
    let calls : List Call :=
      [(A, .put "k" ⟨[1], .first, ⟨0, none⟩⟩, []),
        (B, .put "other" ⟨[2], .first, ⟨0, none⟩⟩, [some "disk full"]), (A, .get "k", [])]
    Runs.resultsOf (·.1 = A) calls (Runs.run (step .layout) ⟨[7], disk⟩ calls).1
      = [.ok .done, .ok (.value (some ⟨[1], .first, ⟨0, none⟩⟩))] :=
  (own_calls .layout _ _ [7] (by decide)).1

end Thread

end ZenohRedb
