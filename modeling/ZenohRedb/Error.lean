import ZenohRedb.Lib.Store

set_option autoImplicit false

/-! # Errors (`error.rs`)

`RedbBackendError` with the variants of the source. The errors of redb that a variant boxes
are `RedbError`: the two that redb raises of itself in this model, and every other one with
its text.
-/

namespace ZenohRedb

/-- An error redb reports. -/
inductive RedbError
  | databaseAlreadyOpen
  | tableDoesNotExist (name : String)
  | storage (msg : String)
  deriving DecidableEq, Repr

inductive RedbBackendError
  | databaseError (e : RedbError)
  | tableError (e : RedbError)
  | storageError (e : RedbError)
  | commitError (e : RedbError)
  | transactionError (e : RedbError)
  | configError (msg : String)
  | serializationError (msg : String)
  | keyEncodingError (msg : String)
  | valueEncodingError (msg : String)
  | invalidKeyExpression (msg : String)
  | storageNotFound (name : String)
  | ioError (msg : String)
  | zenohError (msg : String)
  | other (msg : String)
  deriving DecidableEq, Repr

/-- Whether an error is a serialization error. -/
def RedbBackendError.isSerialization : RedbBackendError → Bool
  | .serializationError _ => true
  | _ => false

/-- Whether an error is one that a failing call to redb gives inside a transaction. -/
def RedbBackendError.isRedb : RedbBackendError → Bool
  | .tableError _ | .storageError _ | .commitError _ | .transactionError _ => true
  | _ => false

theorem RedbBackendError.not_serialization_of_isRedb {e : RedbBackendError}
    (h : e.isRedb = true) : e.isSerialization = false := by
  cases e with
  | serializationError _ => cases h
  | _ => rfl

end ZenohRedb
