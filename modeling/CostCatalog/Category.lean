import CostCatalog.Fault.Basic

/-!
# Categories and data types

What an entry is filed under: the physical dimension of a unit, the costing area of a parameter;
and the kind of value a parameter holds.
-/

namespace CostCatalog

/-- The physical dimension a unit of measure belongs to. -/
inductive UomCategory where
  | weight
  | volume
  | quantity
  | length
deriving DecidableEq, Repr

/-- The text of a unit category. -/
def UomCategory.text : UomCategory → String
  | .weight => "WEIGHT"
  | .volume => "VOLUME"
  | .quantity => "QUANTITY"
  | .length => "LENGTH"

instance : Enumeration UomCategory where
  title := "UOMCategory"
  members := [.weight, .volume, .quantity, .length]
  text := UomCategory.text
  mem_members a := by cases a <;> decide
  text_injective a b := by cases a <;> cases b <;> decide

/-- The costing area a parameter is configured for. -/
inductive ParameterCategory where
  | machine
  | material
  | quality
  | output
  | process
deriving DecidableEq, Repr

/-- The text of a parameter category. -/
def ParameterCategory.text : ParameterCategory → String
  | .machine => "MACHINE"
  | .material => "MATERIAL"
  | .quality => "QUALITY"
  | .output => "OUTPUT"
  | .process => "PROCESS"

instance : Enumeration ParameterCategory where
  title := "ParameterCategory"
  members := [.machine, .material, .quality, .output, .process]
  text := ParameterCategory.text
  mem_members a := by cases a <;> decide
  text_injective a b := by cases a <;> cases b <;> decide

/-- The kind of value a parameter holds. -/
inductive DataType where
  | numeric
  | text
  | boolean
  | dropdown
deriving DecidableEq, Repr

/-- The name of a data type. -/
def DataType.name : DataType → String
  | .numeric => "NUMERIC"
  | .text => "TEXT"
  | .boolean => "BOOLEAN"
  | .dropdown => "DROPDOWN"

instance : Enumeration DataType where
  title := "DataType"
  members := [.numeric, .text, .boolean, .dropdown]
  text := DataType.name
  mem_members a := by cases a <;> decide
  text_injective a b := by cases a <;> cases b <;> decide

/-- The categories of a kind. -/
abbrev Category : Kind → Type
  | .uom => UomCategory
  | .parameter => ParameterCategory

instance (k : Kind) : Enumeration (Category k) :=
  match k with
  | .uom => inferInstanceAs (Enumeration UomCategory)
  | .parameter => inferInstanceAs (Enumeration ParameterCategory)

instance (k : Kind) : DecidableEq (Category k) :=
  match k with
  | .uom => inferInstanceAs (DecidableEq UomCategory)
  | .parameter => inferInstanceAs (DecidableEq ParameterCategory)

/-! ## Reading -/

/-- The category that a value names, or the rule it breaks. -/
def Category.parse (k : Kind) (v : Json) : Except Fault (Category k) :=
  match Enumeration.ofJson? v with
  | some c => .ok c
  | none => .error (.ofRule (.unknownCategory k))

/-- The data type that a value names, or the rule it breaks. -/
def DataType.parse (v : Json) : Except Fault DataType :=
  match Enumeration.ofJson? v with
  | some t => .ok t
  | none => .error (.ofRule .unknownDataType)

end CostCatalog
