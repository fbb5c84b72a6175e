import CostCatalog.Fault.Basic

/-!
# Outcomes

What a caller is told of a fault: a status, a label for it and a message. A table of rules is read
from the top; the first entry that matches the fault gives status and label and lets the fault's
own wording through. A fault that matches none is an internal error, whose message is the same for
all.
-/

namespace CostCatalog

/-- A status, its label and a message. -/
structure Outcome where
  status : String
  label : String
  message : String
deriving DecidableEq, Repr

/-- The message of every internal error. -/
def internalErrorMessage : String := "Internal server error"

/-- The outcome of every fault that no entry of the table matches. -/
def Outcome.internal : Outcome := ⟨"500", "internal error", internalErrorMessage⟩

/-- An entry of the table: which causes it matches, and what they come to. -/
structure OutcomeRule where
  applies : Cause → Bool
  status : String
  label : String

/-- The table of outcomes. -/
def outcomeRules : List OutcomeRule :=
  [{ applies := fun | .rule (.notFound _) => true | _ => false
     status := "404", label := "not found" },
   { applies := fun | .rule (.alreadyExists _) => true | _ => false
     status := "409", label := "conflict" },
   { applies := fun
       | .rule (.malformedCode _) | .rule (.unknownCategory _) | .rule .unknownDataType
       | .rule (.emptyName _) | .rule (.emptyActor _)
       | .rule .boundsCrossed | .rule .noOptions => true
       | _ => false
     status := "400", label := "bad request" },
   { applies := fun | .throttled _ => true | _ => false
     status := "429", label := "rate limited" }]

/-- The outcome of a fault. -/
def Fault.outcome : Fault → Outcome
  | .unexpected _ => .internal
  | .known c _ =>
    match outcomeRules.find? (·.applies c) with
    | some r => ⟨r.status, r.label, c.message⟩
    | none => .internal

end CostCatalog
