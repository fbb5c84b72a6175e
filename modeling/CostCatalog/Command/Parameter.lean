import CostCatalog.Command.Uom

/-!
# Commands and queries on parameters

As for units, with more that can be given. The optional fields are set in a fixed order, unit,
description, mandatory, bounds, options, so that of two that are wrong the earlier one is reported;
and nothing is stored when one is refused.
-/

namespace CostCatalog.Command

/-- The optional fields of a command. -/
structure ParameterFields where
  uom : Option String := none
  minValue : Option Float := none
  maxValue : Option Float := none
  allowedValues : List String := []
  isMandatory : Bool := false
  description : Option String := none
deriving DecidableEq

/-- The changes that set the optional fields, in their order. -/
def ParameterFields.edits (f : ParameterFields) : List Parameter.Edit :=
  [.setUom f.uom, .setDescription f.description, .setMandatory f.isMandatory,
    .setBounds f.minValue f.maxValue, .setOptions f.allowedValues]

/-- Makes a new parameter. -/
structure CreateParameter where
  code : String
  name : String
  category : String
  dataType : String
  createdBy : String
  fields : ParameterFields := {}
deriving DecidableEq

/-- Changes a parameter. -/
structure UpdateParameter where
  code : String
  name : String
  category : String
  dataType : String
  updatedBy : String
  fields : ParameterFields := {}
  isActive : Bool := true
deriving DecidableEq

/-- Asks for a page of parameters. -/
structure ListParameters where
  page : Int := 1
  pageSize : Int := 10
  category : Option String := none
  isActive : Option Bool := none
deriving DecidableEq, Repr

variable (repo : Repository .parameter)

/-- Makes a new parameter. -/
def createParameter (cmd : CreateParameter) : Action Parameter := do
  let code ← Action.ofExcept (Code.parse .parameter (.str cmd.code))
  let category ← Action.ofExcept (Category.parse .parameter (.str cmd.category))
  let dataType ← Action.ofExcept (DataType.parse (.str cmd.dataType))
  if ← repo.contains code then Action.fail (.ofRule (.alreadyExists .parameter))
  else
    let now ← Action.now
    let p ← Action.ofExcept (Parameter.create code cmd.name category dataType cmd.createdBy now)
    let p ← Action.ofExcept (p.editAll now cmd.fields.edits)
    repo.create p
    Action.log (doneRecord .parameter code "created")
    pure p

/-- Changes a parameter. -/
def updateParameter (cmd : UpdateParameter) : Action Parameter := do
  let code ← Action.ofExcept (Code.parse .parameter (.str cmd.code))
  let category ← Action.ofExcept (Category.parse .parameter (.str cmd.category))
  let dataType ← Action.ofExcept (DataType.parse (.str cmd.dataType))
  let p ← repo.find code
  let now ← Action.now
  let p ← Action.ofExcept (p.editAll now
    (.update cmd.name category dataType cmd.updatedBy :: cmd.fields.edits ++
      [if cmd.isActive then .activate else .deactivate]))
  repo.update p
  Action.log (doneRecord .parameter code "updated")
  pure p

/-- Ends a parameter. -/
def deleteParameter (rawCode : String) : Action Unit := do
  let code ← Action.ofExcept (Code.parse .parameter (.str rawCode))
  repo.delete code
  Action.log (doneRecord .parameter code "deleted")

/-- The parameter with a code. -/
def getParameter (rawCode : String) : Action Parameter := do
  let code ← Action.ofExcept (Code.parse .parameter (.str rawCode))
  repo.find code

/-- The filter that a query asks for. -/
def ListParameters.filter (q : ListParameters) : Except Fault (Filter .parameter) := do
  let category ← match q.category with
    | none => .ok none
    | some c => (Category.parse .parameter (.str c)).map some
  .ok { page := ⟨q.page, q.pageSize⟩, category, activity := q.isActive }

/-- A page of parameters, how many there are on all pages, and the filter they passed. -/
def listParameters (q : ListParameters) : Action (List Parameter × Int × Filter .parameter) := do
  let filter ← Action.ofExcept q.filter
  let (parameters, total) ← repo.list filter
  pure (parameters, total, filter)

end CostCatalog.Command
