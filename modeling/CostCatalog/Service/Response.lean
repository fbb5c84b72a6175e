import CostCatalog.Fault.Outcome
import CostCatalog.Log.Basic
import CostCatalog.Page
import CostCatalog.Wire.Envelope

/-!
# Statuses of responses

The status that a response carries, from what came of the operation. A fault is turned into the
outcome of the table, with nothing else of it; what the fault says goes to the log.
-/

namespace CostCatalog.Service

open Wire (Base ErrorDetail Pagination)

/-- The status of a success. -/
def succeeded (message : String) : Base := ⟨"200", true, message, []⟩

/-- The status of a success that made something. -/
def created (message : String) : Base := ⟨"201", true, message, []⟩

/-- The status of a fault. -/
def failed (f : Fault) : Base := ⟨f.outcome.status, false, f.outcome.message, []⟩

/-- What is logged of the fault of an operation: an internal error with all that it says, any other
fault with what the caller is told. -/
def failureRecord (operation : String) (f : Fault) : LogRecord :=
  let outcome := f.outcome
  let extras := [("error_code", Json.str f.code), ("status_code", Json.str outcome.status)]
  if outcome.status = "500" then
    { level := .error, speaker := .responses, message := operation ++ " failed: " ++ f.message
      extras, fault := some f }
  else
    { level := .warning, speaker := .responses
      message := operation ++ " rejected: " ++ outcome.message, extras }

/-- The status of a request whose message is not of the right form. -/
def malformed (details : List ErrorDetail) : Base := ⟨"400", false, "Validation failed", details⟩

/-- The status of a request that was turned away. -/
def turnedAway (message : String := "Rate limit exceeded") : Base := ⟨"429", false, message, []⟩

/-- The status of an error that no handler foresaw. -/
def internalError (message : String := internalErrorMessage) : Base := ⟨"500", false, message, []⟩

/-- The position of a page of a list of `total` things, or the fault of a total too large to
count pages of. -/
def pagination (p : Page) (total : Int) : Except Fault Pagination :=
  match p.totalPages? total with
  | some pages => .ok ⟨p.effective, p.limit, total, pages⟩
  | none => .error (.unexpected .quotientTooLarge)

end CostCatalog.Service
