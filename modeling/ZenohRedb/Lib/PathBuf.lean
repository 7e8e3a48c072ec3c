import ZenohRedb.Lib.Text

set_option autoImplicit false

/-! # File system paths

Paths as the byte strings Unix has, with the operations of the standard library's `PathBuf`
that act on their text: `push`, `join`, `fileName`, `extension` and `setExtension`. A path
ends in the file name its last component is, not counting trailing slashes and trailing `.`
components; `.` at the start, `..` and the empty path have none.
-/

/-- A path, as its bytes. -/
structure PathBuf where
  bytes : Bytes
  deriving DecidableEq, Repr

namespace PathBuf

/-- The byte `/`. -/
def sep : UInt8 := 47

/-- The byte `.`. -/
def dot : UInt8 := 46

/-- The path a string spells. -/
def ofString (s : String) : PathBuf := ⟨Str.asBytes s⟩

/-- `PathBuf::push`: an absolute path replaces the whole, any other is appended, with a
separator in between unless one is there or nothing is. -/
def push (p q : PathBuf) : PathBuf :=
  if q.bytes.head? = some sep then q
  else if p.bytes = [] ∨ p.bytes.getLast? = some sep then ⟨p.bytes ++ q.bytes⟩
  else ⟨p.bytes ++ sep :: q.bytes⟩

/-- `Path::join`: a copy with `q` pushed. -/
def join (p q : PathBuf) : PathBuf := p.push q

/-- Drop trailing separators and trailing `.` components from a reversed path. -/
def trimRev : Bytes → Bytes
  | [] => []
  | [b] => if b = sep then [] else [b]
  | b :: c :: rest =>
      if b = sep then trimRev (c :: rest)
      -- `/.` at the end: the component is dropped, the separator comes next
      else if b = dot ∧ c = sep then trimRev (c :: rest)
      else b :: c :: rest

/-- The last component of a path and what stands before it, when that component is a file
name. -/
def splitFileName (p : PathBuf) : Option (Bytes × Bytes) :=
  let r := trimRev p.bytes.reverse
  let name := (r.takeWhile (· ≠ sep)).reverse
  if name = [] ∨ name = [dot] ∨ name = [dot, dot] then none
  else some ((r.dropWhile (· ≠ sep)).reverse, name)

/-- `Path::file_name`. -/
def fileName (p : PathBuf) : Option Bytes := p.splitFileName.map (·.2)

/-- Cut a file name at its last dot into stem and extension. There is no extension without a
dot, or when the only dot is the first byte. -/
def rsplitAtDot (name : Bytes) : Bytes × Option Bytes :=
  let after := (name.reverse.takeWhile (· ≠ dot)).reverse
  let before := (name.reverse.dropWhile (· ≠ dot)).reverse.dropLast
  if dot ∈ name ∧ before ≠ [] then (before, some after) else (name, none)

/-- `Path::extension`. -/
def extension (p : PathBuf) : Option Bytes := p.fileName.bind fun name => (rsplitAtDot name).2

/-- `PathBuf::set_extension` with a non-empty extension: cut the path after the stem of its
file name and append `.` and the extension. A path without a file name stays as it is. -/
def setExtension (p : PathBuf) (ext : String) : PathBuf :=
  match p.splitFileName with
  | none => p
  | some (before, name) => ⟨before ++ (rsplitAtDot name).1 ++ dot :: Str.asBytes ext⟩

/-! ## File names under a directory -/

/-- The bytes of a single file name: not empty, without a separator, and no component with a
meaning of its own. -/
structure FileName (name : Bytes) : Prop where
  ne_nil : name ≠ []
  ne_dot : name ≠ [dot]
  ne_dotdot : name ≠ [dot, dot]
  notMem : sep ∉ name

/-- What stands in front of a file name that is pushed to a path. -/
def dirBytes (p : PathBuf) : Bytes :=
  if p.bytes = [] ∨ p.bytes.getLast? = some sep then p.bytes else p.bytes ++ [sep]

section FileName

variable {p : PathBuf} {name name' before ext : Bytes}

theorem push_of_notMem (h : sep ∉ name) : p.push ⟨name⟩ = ⟨p.dirBytes ++ name⟩ := by
  have habs : name.head? ≠ some sep := fun hhead => h (List.mem_of_head? hhead)
  unfold push dirBytes
  rw [if_neg habs]
  by_cases hend : p.bytes = [] ∨ p.bytes.getLast? = some sep
  · rw [if_pos hend, if_pos hend]
  · rw [if_neg hend, if_neg hend, List.append_assoc, List.singleton_append]

/-- Different names are different files. -/
theorem push_inj (h : sep ∉ name) (h' : sep ∉ name') :
    p.push ⟨name⟩ = p.push ⟨name'⟩ ↔ name = name' := by
  rw [push_of_notMem h, push_of_notMem h', PathBuf.mk.injEq, List.append_cancel_left_eq]

/-- The bytes in front of a file name end with a separator, if there are any. -/
theorem dirBytes_reverse (p : PathBuf) :
    p.dirBytes.reverse = [] ∨ ∃ rest, p.dirBytes.reverse = sep :: rest := by
  unfold dirBytes
  by_cases hend : p.bytes = [] ∨ p.bytes.getLast? = some sep
  · rw [if_pos hend]
    rcases hend with hnil | hlast
    · exact Or.inl (by rw [hnil, List.reverse_nil])
    · rw [← List.head?_reverse] at hlast
      exact Or.inr (List.head?_eq_some_iff.mp hlast)
  · rw [if_neg hend, List.reverse_append]
    exact Or.inr ⟨p.bytes.reverse, rfl⟩

/-- There is nothing to trim behind a file name. -/
theorem FileName.trimRev_eq (h : FileName name) {w : Bytes} (hw : w = [] ∨ ∃ rest, w = sep :: rest) :
    trimRev (name.reverse ++ w) = name.reverse ++ w := by
  have hmem : ∀ b ∈ name.reverse, b ≠ sep := by
    rintro b hb rfl
    exact h.notMem (List.mem_reverse.mp hb)
  cases hr : name.reverse with
  | nil => exact absurd (List.reverse_eq_nil_iff.mp hr) h.ne_nil
  | cons b r =>
      rw [hr] at hmem
      have hb : b ≠ sep := hmem b (by simp)
      cases r with
      | nil =>
          -- the only byte of the name, which is not a dot
          have hdot : b ≠ dot := by
            rintro rfl
            exact h.ne_dot (List.reverse_eq_cons_iff.mp hr)
          rcases hw with rfl | ⟨rest, rfl⟩
          · show (if b = sep then [] else [b]) = [b]
            rw [if_neg hb]
          · show (if b = sep then _ else if b = dot ∧ sep = sep then _ else _) = _
            rw [if_neg hb, if_neg fun hd => hdot hd.1]
            rfl
      | cons c r =>
          have hc : c ≠ sep := hmem c (by simp)
          show (if b = sep then _ else if b = dot ∧ c = sep then _ else _) = _
          rw [if_neg hb, if_neg fun hd => hc hd.2]
          rfl

/-- Reading from behind up to a byte `b`, or to the end. -/
theorem span_reverse {b : UInt8} {l w : Bytes} (h : b ∉ l) (hw : w = [] ∨ ∃ rest, w = b :: rest) :
    (l.reverse ++ w).takeWhile (· ≠ b) = l.reverse ∧
      (l.reverse ++ w).dropWhile (· ≠ b) = w := by
  have hin : ∀ c ∈ l.reverse, decide (c ≠ b) = true := by
    intro c hc
    rw [decide_eq_true_eq]
    rintro rfl
    exact h (List.mem_reverse.mp hc)
  rw [List.takeWhile_append_of_pos hin, List.dropWhile_append_of_pos hin]
  rcases hw with rfl | ⟨rest, rfl⟩
  · simp
  · simp

theorem splitFileName_push (h : FileName name) :
    (p.push ⟨name⟩).splitFileName = some (p.dirBytes, name) := by
  obtain ⟨htake, hdrop⟩ := span_reverse h.notMem (dirBytes_reverse p)
  unfold splitFileName
  rw [push_of_notMem h.notMem]
  simp only [List.reverse_append, h.trimRev_eq (dirBytes_reverse p), htake, hdrop,
    List.reverse_reverse]
  rw [if_neg (by simp [h.ne_nil, h.ne_dot, h.ne_dotdot])]

theorem extension_push (h : FileName name) :
    (p.push ⟨name⟩).extension = (rsplitAtDot name).2 := by
  unfold extension fileName
  rw [splitFileName_push h]
  rfl

theorem setExtension_push (h : FileName name) (ext : String) :
    (p.push ⟨name⟩).setExtension ext
      = ⟨p.dirBytes ++ (rsplitAtDot name).1 ++ dot :: Str.asBytes ext⟩ := by
  unfold setExtension
  rw [splitFileName_push h]

/-- The name is cut at its last dot. -/
theorem rsplitAtDot_append (hbefore : before ≠ []) (hext : dot ∉ ext) :
    rsplitAtDot (before ++ dot :: ext) = (before, some ext) := by
  have hrev : (before ++ dot :: ext).reverse = ext.reverse ++ dot :: before.reverse := by simp
  obtain ⟨htake, hdrop⟩ := span_reverse hext (Or.inr ⟨before.reverse, rfl⟩)
  unfold rsplitAtDot
  rw [hrev, htake, hdrop]
  simp [hbefore]

/-- A dot that is the first byte, and the only one, does not count. -/
theorem rsplitAtDot_of_notMem (h : dot ∉ name.tail) : rsplitAtDot name = (name, none) := by
  cases name with
  | nil => rfl
  | cons b rest =>
      rw [List.tail_cons] at h
      by_cases hb : b = dot
      · have hdrop := (span_reverse h (Or.inr ⟨[], rfl⟩)).2
        rw [hb]
        unfold rsplitAtDot
        rw [List.reverse_cons, hdrop]
        simp
      · unfold rsplitAtDot
        rw [if_neg]
        rintro ⟨hmem, -⟩
        rcases List.mem_cons.mp hmem with heq | hmem
        · exact hb heq.symm
        · exact h hmem

end FileName

end PathBuf
