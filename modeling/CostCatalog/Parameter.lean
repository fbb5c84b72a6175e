import CostCatalog.Audit
import CostCatalog.Category
import CostCatalog.Code

/-!
# Costing parameters

A parameter has a code, a name, a costing area and the kind of value it holds. It may have a unit,
bounds on its value and a list of options, may be mandatory, and may be switched off. The unit is a
bare text: whether such a unit exists is the store's concern.
-/

namespace CostCatalog

/-- A costing parameter. -/
structure Parameter where
  code : Code .parameter
  name : String
  category : ParameterCategory
  dataType : DataType
  uom : Option String := none
  minValue : Option Float := none
  maxValue : Option Float := none
  allowedValues : List String := []
  isMandatory : Bool := false
  description : Option String := none
  isActive : Bool := true
  audit : Audit
deriving DecidableEq

namespace Parameter

/-- A new parameter, active and with nothing optional, or the rule that its name or its maker
breaks. -/
def create (code : Code .parameter) (name : String) (category : ParameterCategory)
    (dataType : DataType) (actor : String) (now : Timestamp) : Except Fault Parameter :=
  if name = "" then .error (.ofRule (.emptyName .parameter))
  else if actor = "" then .error (.ofRule (.emptyActor .parameter))
  else .ok { code, name, category, dataType, audit := .start actor now }

/-- Whether two bounds cross: both are there and the lower one is above the upper one. -/
def boundsCross (lo hi : Option Float) : Bool :=
  match lo, hi with
  | some lo, some hi => hi < lo
  | _, _ => false

/-- A change to a parameter. -/
inductive Edit where
  | update (name : String) (category : ParameterCategory) (dataType : DataType) (actor : String)
  | setBounds (lo hi : Option Float)
  | setOptions (options : List String)
  | setUom (uom : Option String)
  | setDescription (description : Option String)
  | setMandatory (mandatory : Bool)
  | activate
  | deactivate
deriving DecidableEq

/-- The outcome of a change made when the clock reads `now`, and the parameter after it. The fields
of an update are in place before its time is worked out, so they stay when there is none; every
other refused change leaves the parameter as it was. -/
def edit (now : Timestamp) (p : Parameter) : Edit → Except Fault Unit × Parameter
  | .update name category dataType actor =>
    if name = "" then (.error (.ofRule (.emptyName .parameter)), p)
    else if actor = "" then (.error (.ofRule (.emptyActor .parameter)), p)
    else
      let changed := { p with name, category, dataType }
      match changed.audit.stamp actor now with
      | .ok audit => (.ok (), { changed with audit })
      | .error f => (.error f, changed)
  | .setBounds lo hi =>
    if boundsCross lo hi then (.error (.ofRule .boundsCrossed), p)
    else (.ok (), { p with minValue := lo, maxValue := hi })
  | .setOptions options =>
    if p.dataType = .dropdown ∧ options = [] then (.error (.ofRule .noOptions), p)
    else (.ok (), { p with allowedValues := options })
  | .setUom uom => (.ok (), { p with uom })
  | .setDescription description => (.ok (), { p with description })
  | .setMandatory mandatory => (.ok (), { p with isMandatory := mandatory })
  | .activate => (.ok (), { p with isActive := true })
  | .deactivate => (.ok (), { p with isActive := false })

/-- Changes one after the other, up to the first that is refused. -/
def editAll (now : Timestamp) (p : Parameter) : List Edit → Except Fault Parameter
  | [] => .ok p
  | e :: es =>
    match p.edit now e with
    | (.ok (), q) => editAll now q es
    | (.error f, _) => .error f

/-- The parameter in short. -/
def summary (p : Parameter) : String :=
  "Parameter(code=" ++ Text.quote p.code.text ++ ", category=" ++ p.category.text ++
    ", data_type=" ++ p.dataType.name ++ ")"

end Parameter

end CostCatalog
