import CostCatalog.Command.Parameter
import CostCatalog.Deadline
import CostCatalog.Service.Data
import CostCatalog.Service.Response

/-!
# The ten operations

Each operation takes a request message and answers with an envelope, whatever comes of it: a fault
of the command is logged and told by the envelope's status. Only the cancellation of the request is
not answered; it goes on to whoever cancelled it. Every command runs under the limit that the service
sets.
-/

namespace CostCatalog.Service

open Wire (Base EmptyResponse ItemResponse ListResponse ParameterData UomData)

/-- What an operation is served with: the repositories, the name under which changes are made and
the limit of a command. -/
structure Setting where
  uoms : Repository .uom
  parameters : Repository .parameter
  actor : String := "system"
  limit : Option Duration := none

/-- The outcome of a command under a limit. A limit that is spent from the start lets nothing of the
command happen; a fault that is a passing of time is reported as that of the limit. -/
def underDeadline {α : Type} (operation : String) (limit : Option Duration) (a : Action α) :
    Action (Except Fault α) :=
  if (limit.map Duration.isSpent).getD false then
    pure (.error (.pastDeadline operation limit))
  else do
    let result ← a.attempt
    pure (underLimit operation limit result)

/-- The outcome of a command, or the status of its fault, which is logged. A cancellation is no
outcome. -/
def outcomeOf {α : Type} (operation : String) (limit : Option Duration) (a : Action α) :
    Action (Except Base α) := do
  match ← underDeadline operation limit a with
  | .ok x => pure (.ok x)
  | .error f =>
    if f.isCancellation then Action.fail f
    else
      Action.log (failureRecord operation f)
      pure (.error (failed f))

/-- The envelope of a command whose result is shown. -/
def itemOf {α β : Type} (operation : String) (limit : Option Duration) (a : Action α)
    (base : Base) (toData : α → Except Fault β) : Action (ItemResponse β) := do
  match ← outcomeOf operation limit a with
  | .ok x => pure { base, data := some (← Action.ofExcept (toData x)) }
  | .error base => pure { base }

/-- The envelope of a query whose results are shown. -/
def listOf {k : Kind} {β : Type} (operation : String) (limit : Option Duration)
    (a : Action (List (Entry k) × Int × Filter k)) (base : Base)
    (toData : Entry k → Except Fault β) : Action (ListResponse β) := do
  match ← outcomeOf operation limit a with
  | .ok (entries, total, filter) =>
    let data ← Action.ofExcept (entries.mapM toData)
    let pagination ← Action.ofExcept (pagination filter.page total)
    pure { base, data, pagination := some pagination }
  | .error base => pure { base }

/-- The envelope of a command with nothing to show. -/
def emptyOf (operation : String) (limit : Option Duration) (a : Action Unit) (base : Base) :
    Action EmptyResponse := do
  match ← outcomeOf operation limit a with
  | .ok () => pure { base }
  | .error base => pure { base }

/-- A text, nothing for the empty one. -/
def stated (s : String) : Option String := if s = "" then none else some s

variable (s : Setting)

/-! ## Units -/

/-- Makes a unit. -/
def createUom (r : Wire.CreateUom) : Action (ItemResponse UomData) :=
  itemOf "CreateUOM" s.limit
    (Command.createUom s.uoms
      { code := r.code, name := r.name, category := Wire.uomCategories.toDomain r.category
        isBase := r.isBase, createdBy := s.actor })
    (created "UOM created successfully") uomData

/-- Shows a unit. -/
def getUom (r : Wire.GetUom) : Action (ItemResponse UomData) :=
  itemOf "GetUOM" s.limit (Command.getUom s.uoms r.code) (succeeded "UOM retrieved successfully")
    uomData

/-- Shows a page of units. No category, or one that is not stated, means all of them. -/
def listUoms (r : Wire.ListUoms) : Action (ListResponse UomData) :=
  listOf (k := .uom) "ListUOMs" s.limit
    (Command.listUoms s.uoms
      { page := r.page, pageSize := r.pageSize
        category := r.category.bind fun c => stated (Wire.uomCategories.toDomain c) })
    (succeeded "UOMs retrieved successfully") uomData

/-- Changes a unit. -/
def updateUom (r : Wire.UpdateUom) : Action (ItemResponse UomData) :=
  itemOf "UpdateUOM" s.limit
    (Command.updateUom s.uoms
      { code := r.code, name := r.name, category := Wire.uomCategories.toDomain r.category
        isBase := r.isBase, updatedBy := s.actor })
    (succeeded "UOM updated successfully") uomData

/-- Ends a unit. -/
def deleteUom (r : Wire.DeleteUom) : Action EmptyResponse :=
  emptyOf "DeleteUOM" s.limit (Command.deleteUom s.uoms r.code)
    (succeeded "UOM deleted successfully")

/-! ## Parameters -/

/-- The optional fields of a command, from those of a request: an empty unit is none. -/
def fieldsOf (o : Wire.ParameterOptions) : Command.ParameterFields :=
  { uom := o.uom.bind stated, minValue := o.minValue, maxValue := o.maxValue
    allowedValues := o.allowedValues, isMandatory := o.isMandatory, description := o.description }

/-- Makes a parameter. -/
def createParameter (r : Wire.CreateParameter) : Action (ItemResponse ParameterData) :=
  itemOf "CreateParameter" s.limit
    (Command.createParameter s.parameters
      { code := r.code, name := r.name
        category := Wire.parameterCategories.toDomain r.options.category
        dataType := Wire.dataTypes.toDomain r.options.dataType
        createdBy := s.actor, fields := fieldsOf r.options })
    (created "Parameter created successfully") parameterData

/-- Shows a parameter. -/
def getParameter (r : Wire.GetParameter) : Action (ItemResponse ParameterData) :=
  itemOf "GetParameter" s.limit (Command.getParameter s.parameters r.code)
    (succeeded "Parameter retrieved successfully") parameterData

/-- Shows a page of parameters. No category, or one that is not stated, means all of them. -/
def listParameters (r : Wire.ListParameters) : Action (ListResponse ParameterData) :=
  listOf (k := .parameter) "ListParameters" s.limit
    (Command.listParameters s.parameters
      { page := r.page, pageSize := r.pageSize
        category := r.category.bind fun c => stated (Wire.parameterCategories.toDomain c)
        isActive := r.isActive })
    (succeeded "Parameters retrieved successfully") parameterData

/-- Changes a parameter. -/
def updateParameter (r : Wire.UpdateParameter) : Action (ItemResponse ParameterData) :=
  itemOf "UpdateParameter" s.limit
    (Command.updateParameter s.parameters
      { code := r.code, name := r.name
        category := Wire.parameterCategories.toDomain r.options.category
        dataType := Wire.dataTypes.toDomain r.options.dataType
        updatedBy := s.actor, fields := fieldsOf r.options, isActive := r.isActive })
    (succeeded "Parameter updated successfully") parameterData

/-- Ends a parameter. -/
def deleteParameter (r : Wire.DeleteParameter) : Action EmptyResponse :=
  emptyOf "DeleteParameter" s.limit (Command.deleteParameter s.parameters r.code)
    (succeeded "Parameter deleted successfully")

end CostCatalog.Service
