import CostCatalog.Wire.Envelope
import CostCatalog.Wire.Name

/-!
# Messages about parameters

The requests and responses of the parameter operations. As with units, only the form is checked. A
bound that is not given stays absent; it is not zero.
-/

namespace CostCatalog.Wire

/-- The fields of a parameter that may be left out of a request. -/
structure ParameterOptions where
  category : Name ParameterCategory := .unspecified
  dataType : Name DataType := .unspecified
  uom : Option String := none
  minValue : Option Float := none
  maxValue : Option Float := none
  allowedValues : List String := []
  isMandatory : Bool := false
  description : Option String := none
deriving DecidableEq

namespace ParameterOptions

/-- Reads the fields that may be left out. -/
def read (ms : List (String × Json)) : Checked ParameterOptions :=
  ParameterOptions.mk <$>
    defaulted ms "parameter_category" .unspecified (oneOf _) <*>
    defaulted ms "data_type" .unspecified (oneOf _) <*>
    defaulted ms "uom" none (Check.optional (textOf 0 (some 20))) <*>
    defaulted ms "min_value" none (Check.optional number) <*>
    defaulted ms "max_value" none (Check.optional number) <*>
    defaulted ms "allowed_values" [] (Check.list text) <*>
    defaulted ms "is_mandatory" false flag <*>
    defaulted ms "description" none (Check.optional (textOf 0 (some 2000)))

/-- Shows the fields that may be left out. -/
def members (o : ParameterOptions) : List (String × Json) := [
  ("parameter_category", .str (Enumeration.text o.category)),
  ("data_type", .str (Enumeration.text o.dataType)),
  ("uom", Json.ofOption .str o.uom),
  ("min_value", Json.ofOption .float o.minValue),
  ("max_value", Json.ofOption .float o.maxValue),
  ("allowed_values", .arr (o.allowedValues.map .str)),
  ("is_mandatory", .bool o.isMandatory),
  ("description", Json.ofOption .str o.description)]

end ParameterOptions

/-- Asks for a new parameter. -/
structure CreateParameter where
  code : String
  name : String
  options : ParameterOptions := {}
deriving DecidableEq

instance : Message CreateParameter where
  title := "CreateParameterRequest"
  read ms :=
    CreateParameter.mk <$> required ms "parameter_code" (textOf 1 (some 50)) <*>
      required ms "parameter_name" (textOf 1 (some 200)) <*> ParameterOptions.read ms
  toJson r := .obj
    (("parameter_code", .str r.code) :: ("parameter_name", .str r.name) :: r.options.members)

/-- Asks for a change to a parameter. -/
structure UpdateParameter where
  code : String := ""
  name : String
  options : ParameterOptions := {}
  isActive : Bool := true
deriving DecidableEq

instance : Message UpdateParameter where
  title := "UpdateParameterRequest"
  read ms :=
    UpdateParameter.mk <$> defaulted ms "parameter_code" "" (textOf 0 (some 50)) <*>
      required ms "parameter_name" (textOf 1 (some 200)) <*> ParameterOptions.read ms <*>
      defaulted ms "is_active" true flag
  toJson r := .obj
    (("parameter_code", .str r.code) :: ("parameter_name", .str r.name) :: r.options.members ++
      [("is_active", .bool r.isActive)])

/-- Asks for one parameter. -/
structure GetParameter where
  code : String
deriving DecidableEq, Repr

instance : Message GetParameter where
  title := "GetParameterRequest"
  read ms := GetParameter.mk <$> required ms "parameter_code" text
  toJson r := .obj [("parameter_code", .str r.code)]

/-- Asks for the end of a parameter. -/
structure DeleteParameter where
  code : String
deriving DecidableEq, Repr

instance : Message DeleteParameter where
  title := "DeleteParameterRequest"
  read ms := DeleteParameter.mk <$> required ms "parameter_code" text
  toJson r := .obj [("parameter_code", .str r.code)]

/-- Asks for a page of parameters. -/
structure ListParameters where
  page : Int := 1
  pageSize : Int := 10
  category : Option (Name ParameterCategory) := none
  isActive : Option Bool := none
deriving DecidableEq, Repr

instance : Message ListParameters where
  title := "ListParametersRequest"
  read ms :=
    ListParameters.mk <$> defaulted ms "page" 1 integer <*> defaulted ms "page_size" 10 integer <*>
      defaulted ms "category" none (Check.optional (oneOf _)) <*>
      defaulted ms "is_active" none (Check.optional flag)
  toJson r := .obj [
    ("page", .int r.page),
    ("page_size", .int r.pageSize),
    ("category", Json.ofOption (fun c => .str (Enumeration.text c)) r.category),
    ("is_active", Json.ofOption .bool r.isActive)]

/-- A parameter as responses show it. -/
structure ParameterData where
  code : String
  name : String
  category : Name ParameterCategory
  dataType : Name DataType
  uom : Option String := none
  minValue : Option Float := none
  maxValue : Option Float := none
  allowedValues : List String := []
  isMandatory : Bool
  description : Option String := none
  isActive : Bool
  audit : AuditInfo
deriving DecidableEq

instance : Message ParameterData where
  title := "ParameterData"
  read ms :=
    ParameterData.mk <$> required ms "parameter_code" text <*> required ms "parameter_name" text <*>
      required ms "parameter_category" (oneOf _) <*> required ms "data_type" (oneOf _) <*>
      defaulted ms "uom" none (Check.optional text) <*>
      defaulted ms "min_value" none (Check.optional number) <*>
      defaulted ms "max_value" none (Check.optional number) <*>
      defaulted ms "allowed_values" [] (Check.list text) <*>
      required ms "is_mandatory" flag <*>
      defaulted ms "description" none (Check.optional text) <*>
      required ms "is_active" flag <*>
      required ms "audit" Message.check
  toJson d := .obj [
    ("parameter_code", .str d.code),
    ("parameter_name", .str d.name),
    ("parameter_category", .str (Enumeration.text d.category)),
    ("data_type", .str (Enumeration.text d.dataType)),
    ("uom", Json.ofOption .str d.uom),
    ("min_value", Json.ofOption .float d.minValue),
    ("max_value", Json.ofOption .float d.maxValue),
    ("allowed_values", .arr (d.allowedValues.map .str)),
    ("is_mandatory", .bool d.isMandatory),
    ("description", Json.ofOption .str d.description),
    ("is_active", .bool d.isActive),
    ("audit", Message.toJson d.audit)]

instance : Message (ItemResponse ParameterData) where
  title := "ParameterResponse"
  read := ItemResponse.read
  toJson := ItemResponse.toJson

instance : Message (ListResponse ParameterData) where
  title := "ListParametersResponse"
  read := ListResponse.read
  toJson := ListResponse.toJson

end CostCatalog.Wire
