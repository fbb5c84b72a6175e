import CostCatalog.Kind

/-!
# Rules of the catalogue

The conditions under which the catalogue refuses what it is asked, each about one kind of entry.
The wording of each is fixed here and nowhere else.
-/

namespace CostCatalog

/-- A rule that a request broke. -/
inductive Rule where
  | notFound (kind : Kind)
  | alreadyExists (kind : Kind)
  | emptyName (kind : Kind)
  | emptyActor (kind : Kind)
  | malformedCode (kind : Kind)
  | unknownCategory (kind : Kind)
  | unknownDataType
  | boundsCrossed
  | noOptions
deriving DecidableEq, Repr

namespace Rule

/-- The kind of entry a broken rule is about. -/
def kind : Rule → Kind
  | .notFound k | .alreadyExists k | .emptyName k | .emptyActor k | .malformedCode k
  | .unknownCategory k => k
  | .unknownDataType | .boundsCrossed | .noOptions => .parameter

/-- The wording of a broken rule. -/
def message : Rule → String
  | .notFound k => k.text ++ " not found"
  | .alreadyExists k => k.text ++ " already exists"
  | .emptyName k => k.text ++ " name cannot be empty"
  | .emptyActor _ => "created_by cannot be empty"
  | .malformedCode k => "invalid " ++ k.text ++ " code format"
  | .unknownCategory k => "invalid " ++ k.text ++ " category"
  | .unknownDataType => "invalid parameter data type"
  | .boundsCrossed => "min_value cannot be greater than max_value"
  | .noOptions => "dropdown type requires allowed_values"

/-- The name of a broken rule, for logs. -/
def title : Rule → String
  | .notFound _ => "NotFoundError"
  | .alreadyExists _ => "AlreadyExistsError"
  | .emptyName _ => "EmptyNameError"
  | .emptyActor _ => "EmptyCreatedByError"
  | .malformedCode _ => "InvalidCodeError"
  | .unknownCategory _ => "InvalidCategoryError"
  | .unknownDataType => "InvalidDataTypeError"
  | .boundsCrossed => "MinGreaterThanMaxError"
  | .noOptions => "DropdownNoOptionsError"

/-- The stable code of a broken rule. -/
def code : Rule → String
  | .notFound _ => "NOT_FOUND"
  | .alreadyExists _ => "ALREADY_EXISTS"
  | .emptyName _ => "EMPTY_NAME"
  | .emptyActor _ => "EMPTY_CREATED_BY"
  | .malformedCode _ => "INVALID_CODE"
  | .unknownCategory _ => "INVALID_CATEGORY"
  | .unknownDataType => "INVALID_DATA_TYPE"
  | .boundsCrossed => "MIN_GREATER_THAN_MAX"
  | .noOptions => "DROPDOWN_NO_OPTIONS"

end Rule

end CostCatalog
