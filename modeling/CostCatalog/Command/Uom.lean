import CostCatalog.Repository.Basic

/-!
# Commands and queries on units

What can be done with units, from raw texts to stored entries. Code and category are read before
anything is asked of the repository; then comes the look-up, then the entry, then the change.
-/

namespace CostCatalog.Command

/-- The record of a command that was carried out. -/
def doneRecord (k : Kind) (c : Code k) (what : String) : LogRecord :=
  { level := .info
    speaker := match k with
      | .uom => .uomCommands
      | .parameter => .parameterCommands
    message := (match k with
      | .uom => "UOM "
      | .parameter => "Parameter ") ++ c.text ++ " " ++ what
    extras := [("entity", .str k.text), ("code", .str c.text)] }

/-- Makes a new unit. -/
structure CreateUom where
  code : String
  name : String
  category : String
  isBase : Bool
  createdBy : String
deriving DecidableEq, Repr

/-- Changes a unit. -/
structure UpdateUom where
  code : String
  name : String
  category : String
  isBase : Bool
  updatedBy : String
deriving DecidableEq, Repr

/-- Asks for a page of units. -/
structure ListUoms where
  page : Int := 1
  pageSize : Int := 10
  category : Option String := none
deriving DecidableEq, Repr

variable (repo : Repository .uom)

/-- Makes a new unit. A code that is known to be taken is refused before the unit is made; the
repository has the last word. -/
def createUom (cmd : CreateUom) : Action Uom := do
  let code ← Action.ofExcept (Code.parse .uom (.str cmd.code))
  let category ← Action.ofExcept (Category.parse .uom (.str cmd.category))
  if ← repo.contains code then Action.fail (.ofRule (.alreadyExists .uom))
  else
    let now ← Action.now
    let u ← Action.ofExcept (Uom.create code cmd.name category cmd.createdBy now)
    let u := if cmd.isBase then u.markBase else u
    repo.create u
    Action.log (doneRecord .uom code "created")
    pure u

/-- Changes a unit. -/
def updateUom (cmd : UpdateUom) : Action Uom := do
  let code ← Action.ofExcept (Code.parse .uom (.str cmd.code))
  let category ← Action.ofExcept (Category.parse .uom (.str cmd.category))
  let u ← repo.find code
  let now ← Action.now
  match Uom.edit now u (.update cmd.name category cmd.isBase cmd.updatedBy) with
  | (.error f, _) => Action.fail f
  | (.ok (), u) => do
    repo.update u
    Action.log (doneRecord .uom code "updated")
    pure u

/-- Ends a unit. -/
def deleteUom (rawCode : String) : Action Unit := do
  let code ← Action.ofExcept (Code.parse .uom (.str rawCode))
  repo.delete code
  Action.log (doneRecord .uom code "deleted")

/-- The unit with a code. -/
def getUom (rawCode : String) : Action Uom := do
  let code ← Action.ofExcept (Code.parse .uom (.str rawCode))
  repo.find code

/-- The filter that a query asks for. -/
def ListUoms.filter (q : ListUoms) : Except Fault (Filter .uom) := do
  let category ← match q.category with
    | none => .ok none
    | some c => (Category.parse .uom (.str c)).map some
  .ok { page := ⟨q.page, q.pageSize⟩, category, activity := () }

/-- A page of units, how many there are on all pages, and the filter they passed. -/
def listUoms (q : ListUoms) : Action (List Uom × Int × Filter .uom) := do
  let filter ← Action.ofExcept q.filter
  let (uoms, total) ← repo.list filter
  pure (uoms, total, filter)

end CostCatalog.Command
