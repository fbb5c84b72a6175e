import CostCatalog.Log.Basic

/-!
# Failures of the store

What a statement can fail with. The kind of a failure is told to callers in general words; what the
driver says goes to the log and into the fault's context, never into its message. An integer that
the store cannot take is not the store's failure: it is found before the statement runs.
-/

namespace CostCatalog

/-- A failed statement: its kind, and the driver's own words. -/
inductive StoreFailure where
  | integrity (detail : String)
  | operational (detail : String)
  | driver (detail : String)
  | other (detail : String)
  | integerTooLarge
deriving DecidableEq, Repr

namespace StoreFailure

/-- The failure that the driver reports under the name of one of its classes of errors. -/
def ofClass (name detail : String) : StoreFailure :=
  match name with
  | "IntegrityError" => .integrity detail
  | "OperationalError" => .operational detail
  | "DBAPIError" | "InterfaceError" | "DatabaseError" | "ProgrammingError" | "DataError"
  | "InternalError" | "NotSupportedError" => .driver detail
  | _ => .other detail

/-- The general words for a failure. -/
def summary : StoreFailure → String
  | .integrity _ => "Integrity constraint violated"
  | .operational _ => "Connection or operational error"
  | .driver _ => "Database driver error"
  | .other _ => "Database operation failed"
  | .integerTooLarge => ""

/-- The driver's own words. -/
def detail : StoreFailure → String
  | .integrity d | .operational d | .driver d | .other d => d
  | .integerTooLarge => ""

/-- Whether the failure is a broken constraint. -/
def isIntegrity : StoreFailure → Bool
  | .integrity _ => true
  | _ => false

/-- The fault of a failure of an operation. -/
def toFault (operation : String) (f : StoreFailure) : Fault :=
  match f with
  | .integerTooLarge => .unexpected .integerTooLarge
  | _ => .ofCause (.database operation f.summary)
      { debug := .obj [("driver_error", .str f.detail)] }

/-- What is logged of a failure of an operation. -/
def record (operation : String) (f : StoreFailure) : Option LogRecord :=
  match f with
  | .integerTooLarge => none
  | _ => some
    { level := .error, speaker := .database
      message := "DB " ++ operation ++ " error: " ++ f.detail
      extras := [("error_code", .str "DATABASE_ERROR")] }

end StoreFailure

end CostCatalog
