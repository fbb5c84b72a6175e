import CostCatalog.Audit
import CostCatalog.Category
import CostCatalog.Code

/-!
# Units of measure

A unit has a code, a name, the physical dimension it belongs to, and may be the base unit of that
dimension. Nothing makes the base unit unique.
-/

namespace CostCatalog

/-- A unit of measure. -/
structure Uom where
  code : Code .uom
  name : String
  category : UomCategory
  isBase : Bool
  audit : Audit
deriving DecidableEq

namespace Uom

/-- A new unit, or the rule that its name or its maker breaks. -/
def create (code : Code .uom) (name : String) (category : UomCategory) (actor : String)
    (now : Timestamp) : Except Fault Uom :=
  if name = "" then .error (.ofRule (.emptyName .uom))
  else if actor = "" then .error (.ofRule (.emptyActor .uom))
  else .ok { code, name, category, isBase := false, audit := .start actor now }

/-- The unit marked as the base unit of its dimension. -/
def markBase (u : Uom) : Uom := { u with isBase := true }

/-- A change to a unit. -/
inductive Edit where
  | update (name : String) (category : UomCategory) (isBase : Bool) (actor : String)
  | markBase
deriving DecidableEq

/-- The outcome of a change made when the clock reads `now`, and the unit after it. The fields of
an update are in place before its time is worked out, so they stay when there is none. -/
def edit (now : Timestamp) (u : Uom) : Edit → Except Fault Unit × Uom
  | .markBase => (.ok (), u.markBase)
  | .update name category isBase actor =>
    if name = "" then (.error (.ofRule (.emptyName .uom)), u)
    else if actor = "" then (.error (.ofRule (.emptyActor .uom)), u)
    else
      let changed := { u with name, category, isBase }
      match changed.audit.stamp actor now with
      | .ok audit => (.ok (), { changed with audit })
      | .error f => (.error f, changed)

/-- The unit in short. -/
def summary (u : Uom) : String :=
  "UnitOfMeasure(code=" ++ Text.quote u.code.text ++ ", category=" ++ u.category.text ++ ")"

end Uom

end CostCatalog
