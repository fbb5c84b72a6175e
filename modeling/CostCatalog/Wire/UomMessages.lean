import CostCatalog.Wire.Envelope
import CostCatalog.Wire.Name

/-!
# Messages about units

The requests and responses of the unit operations. Only the form is checked here: that a code is
well formed and a category is stated are rules of the catalogue, so that `kg` is refused as a code
and not as a message.
-/

namespace CostCatalog.Wire

/-- Asks for a new unit. -/
structure CreateUom where
  code : String
  name : String
  category : Name UomCategory := .unspecified
  isBase : Bool := false
deriving DecidableEq, Repr

instance : Message CreateUom where
  title := "CreateUOMRequest"
  read ms :=
    CreateUom.mk <$> required ms "uom_code" (textOf 1 (some 20)) <*>
      required ms "uom_name" (textOf 1 (some 100)) <*>
      defaulted ms "uom_category" .unspecified (oneOf _) <*>
      defaulted ms "is_base_uom" false flag
  toJson r := .obj [
    ("uom_code", .str r.code),
    ("uom_name", .str r.name),
    ("uom_category", .str (Enumeration.text r.category)),
    ("is_base_uom", .bool r.isBase)]

/-- Asks for a change to a unit. -/
structure UpdateUom where
  code : String := ""
  name : String
  category : Name UomCategory := .unspecified
  isBase : Bool := false
deriving DecidableEq, Repr

instance : Message UpdateUom where
  title := "UpdateUOMRequest"
  read ms :=
    UpdateUom.mk <$> defaulted ms "uom_code" "" (textOf 0 (some 20)) <*>
      required ms "uom_name" (textOf 1 (some 100)) <*>
      defaulted ms "uom_category" .unspecified (oneOf _) <*>
      defaulted ms "is_base_uom" false flag
  toJson r := .obj [
    ("uom_code", .str r.code),
    ("uom_name", .str r.name),
    ("uom_category", .str (Enumeration.text r.category)),
    ("is_base_uom", .bool r.isBase)]

/-- Asks for one unit. -/
structure GetUom where
  code : String
deriving DecidableEq, Repr

instance : Message GetUom where
  title := "GetUOMRequest"
  read ms := GetUom.mk <$> required ms "uom_code" text
  toJson r := .obj [("uom_code", .str r.code)]

/-- Asks for the end of a unit. -/
structure DeleteUom where
  code : String
deriving DecidableEq, Repr

instance : Message DeleteUom where
  title := "DeleteUOMRequest"
  read ms := DeleteUom.mk <$> required ms "uom_code" text
  toJson r := .obj [("uom_code", .str r.code)]

/-- Asks for a page of units. -/
structure ListUoms where
  page : Int := 1
  pageSize : Int := 10
  category : Option (Name UomCategory) := none
deriving DecidableEq, Repr

instance : Message ListUoms where
  title := "ListUOMsRequest"
  read ms :=
    ListUoms.mk <$> defaulted ms "page" 1 integer <*> defaulted ms "page_size" 10 integer <*>
      defaulted ms "category" none (Check.optional (oneOf _))
  toJson r := .obj [
    ("page", .int r.page),
    ("page_size", .int r.pageSize),
    ("category", Json.ofOption (fun c => .str (Enumeration.text c)) r.category)]

/-- A unit as responses show it. -/
structure UomData where
  code : String
  name : String
  category : Name UomCategory
  isBase : Bool
  audit : AuditInfo
deriving DecidableEq, Repr

instance : Message UomData where
  title := "UOMData"
  read ms :=
    UomData.mk <$> required ms "uom_code" text <*> required ms "uom_name" text <*>
      required ms "uom_category" (oneOf _) <*> required ms "is_base_uom" flag <*>
      required ms "audit" Message.check
  toJson d := .obj [
    ("uom_code", .str d.code),
    ("uom_name", .str d.name),
    ("uom_category", .str (Enumeration.text d.category)),
    ("is_base_uom", .bool d.isBase),
    ("audit", Message.toJson d.audit)]

instance : Message (ItemResponse UomData) where
  title := "UOMResponse"
  read := ItemResponse.read
  toJson := ItemResponse.toJson

instance : Message (ListResponse UomData) where
  title := "ListUOMsResponse"
  read := ListResponse.read
  toJson := ListResponse.toJson

end CostCatalog.Wire
