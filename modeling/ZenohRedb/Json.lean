import ZenohRedb.Lib.Derive
import ZenohRedb.Lib.PathBuf

set_option autoImplicit false

/-! # JSON values

What `serde_json` makes of a text, and how values of the types that the configurations use are
read from it.
-/

namespace ZenohRedb

/-- `serde_json::Number`: a number without sign, a negative one, or a float, by its bits. -/
inductive Json.Number
  | posInt (n : UInt64)
  | negInt (n : Int64)
  | float (bits : UInt64)
  deriving DecidableEq

/-- `serde_json::Value`. An object is the list of its members. -/
inductive Json
  | null
  | bool (b : Bool)
  | number (n : Json.Number)
  | string (s : String)
  | array (items : List Json)
  | object (members : List (String × Json))

namespace Json

/-- The members of an object. -/
abbrev Object := List (String × Json)

/-- `Number::as_u64`. -/
def Number.asU64 : Number → Option UInt64
  | .posInt n => some n
  | _ => none

/-- The names of the members. -/
abbrev Object.keys (o : Object) : List String := o.map Prod.fst

/-- `Value::as_object`. -/
def asObject : Json → Option Object
  | .object members => some members
  | _ => none

/-- `Map::get`. -/
def Object.get (o : Object) (key : String) : Option Json := o.lookup key

/-! ## Reading values -/

def readBool : Json → Except Derive.Error Bool
  | .bool b => .ok b
  | _ => .error .invalidType

def readString : Json → Except Derive.Error String
  | .string s => .ok s
  | _ => .error .invalidType

theorem readBool_eq_ok_iff {v : Json} {b : Bool} : readBool v = .ok b ↔ v = .bool b := by
  cases v <;> simp [readBool]

theorem readString_eq_ok_iff {v : Json} {s : String} : readString v = .ok s ↔ v = .string s := by
  cases v <;> simp [readString]

def readPathBuf (v : Json) : Except Derive.Error PathBuf := (readString v).map PathBuf.ofString

/-- A `usize`, which has 64 bits. -/
def readUsize : Json → Except Derive.Error Nat
  | .number (.posInt n) => .ok n.toNat
  | .number (.negInt _) => .error .invalidValue
  | _ => .error .invalidType

theorem readPathBuf_eq_ok_iff {v : Json} {p : PathBuf} :
    readPathBuf v = .ok p ↔ ∃ s, v = .string s ∧ p = .ofString s := by
  cases v <;> simp [readPathBuf, readString, Except.map, eq_comm]

theorem readUsize_eq_ok_iff {v : Json} {k : Nat} :
    readUsize v = .ok k ↔ ∃ n : UInt64, v = .number (.posInt n) ∧ k = n.toNat := by
  cases v with
  | number n => cases n <;> simp [readUsize, eq_comm]
  | _ => simp [readUsize]

/-- An `Option`, for which `null` stands for `None`. -/
def readOption {α : Type} (read : Json → Except Derive.Error α) : Json →
    Except Derive.Error (Option α)
  | .null => .ok none
  | v => (read v).map some

theorem exists_of_readOption {α : Type} {read : Json → Except Derive.Error α} {v : Json}
    {o : Option α} (hnull : v ≠ .null) (h : readOption read v = .ok o) : ∃ a, read v = .ok a := by
  have hread : (read v).map some = .ok o := by
    cases v with
    | null => exact absurd rfl hnull
    | _ => exact h
  cases hv : read v with
  | ok a => exact ⟨a, rfl⟩
  | error e =>
      rw [hv] at hread
      cases hread

/-- A structure, from an object with its fields or from an array of their values. -/
def readStruct {ρ : Type} (fields : List (Derive.Field Json ρ)) (missing : ρ) :
    Json → Except Derive.Error ρ
  | .object members => Derive.visitMap fields missing members
  | .array items => Derive.visitSeq fields missing items
  | _ => .error .invalidType

end Json

end ZenohRedb
