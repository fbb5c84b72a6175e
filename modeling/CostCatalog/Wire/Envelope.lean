import CostCatalog.Wire.Scalar

/-!
# Envelopes

The messages that every response is made of: the status that each carries, the audit fields of an
entry, the position in a list, and the envelope with nothing in it.
-/

namespace CostCatalog.Wire

/-- One violation of a message's form. -/
structure ErrorDetail where
  field : String
  message : String
deriving DecidableEq, Repr

instance : Message ErrorDetail where
  title := "ValidationErrorDetail"
  read ms := ErrorDetail.mk <$> required ms "field" text <*> required ms "message" text
  toJson d := .obj [("field", .str d.field), ("message", .str d.message)]

/-- The status that every response carries. -/
structure Base where
  statusCode : String
  isSuccess : Bool
  message : String
  validationErrors : List ErrorDetail := []
deriving DecidableEq, Repr

instance : Message Base where
  title := "BaseResponse"
  read ms :=
    Base.mk <$> required ms "status_code" threeDigits <*> required ms "is_success" flag <*>
      required ms "message" text <*>
      defaulted ms "validation_errors" [] (Check.list Message.check)
  toJson b := .obj [
    ("status_code", .str b.statusCode),
    ("is_success", .bool b.isSuccess),
    ("message", .str b.message),
    ("validation_errors", .arr (b.validationErrors.map Message.toJson))]

/-- The position of a page in a list. -/
structure Pagination where
  currentPage : Int
  pageSize : Int
  totalItems : Int
  totalPages : Int
deriving DecidableEq, Repr

instance : Message Pagination where
  title := "PaginationMeta"
  read ms :=
    Pagination.mk <$> required ms "current_page" integer <*> required ms "page_size" integer <*>
      required ms "total_items" integer <*> required ms "total_pages" integer
  toJson p := .obj [
    ("current_page", .int p.currentPage),
    ("page_size", .int p.pageSize),
    ("total_items", .int p.totalItems),
    ("total_pages", .int p.totalPages)]

/-- The audit fields of an entry, their timestamps as wire texts. -/
structure AuditInfo where
  createdAt : String
  createdBy : String
  updatedAt : Option String := none
  updatedBy : Option String := none
deriving DecidableEq, Repr

instance : Message AuditInfo where
  title := "AuditInfo"
  read ms :=
    AuditInfo.mk <$> required ms "created_at" text <*> required ms "created_by" text <*>
      defaulted ms "updated_at" none (Check.optional text) <*>
      defaulted ms "updated_by" none (Check.optional text)
  toJson a := .obj [
    ("created_at", .str a.createdAt),
    ("created_by", .str a.createdBy),
    ("updated_at", Json.ofOption .str a.updatedAt),
    ("updated_by", Json.ofOption .str a.updatedBy)]

/-- An envelope with nothing in it. -/
structure EmptyResponse where
  base : Base
deriving DecidableEq, Repr

instance : Message EmptyResponse where
  title := "EmptyResponse"
  read ms := EmptyResponse.mk <$> required ms "base" Message.check
  toJson r := .obj [("base", Message.toJson r.base)]

/-- An envelope with one thing in it, or nothing. -/
structure ItemResponse (α : Type) where
  base : Base
  data : Option α := none

/-- Reads an envelope with one thing in it. -/
def ItemResponse.read {α : Type} [Message α] (ms : List (String × Json)) :
    Checked (ItemResponse α) :=
  ItemResponse.mk <$> required ms "base" Message.check <*>
    defaulted ms "data" none (Check.optional Message.check)

/-- Shows an envelope with one thing in it. -/
def ItemResponse.toJson {α : Type} [Message α] (r : ItemResponse α) : Json :=
  .obj [("base", Message.toJson r.base), ("data", Json.ofOption Message.toJson r.data)]

/-- An envelope with a page of things in it. -/
structure ListResponse (α : Type) where
  base : Base
  data : List α := []
  pagination : Option Pagination := none

/-- Reads an envelope with a page of things in it. -/
def ListResponse.read {α : Type} [Message α] (ms : List (String × Json)) :
    Checked (ListResponse α) :=
  ListResponse.mk <$> required ms "base" Message.check <*>
    defaulted ms "data" [] (Check.list Message.check) <*>
    defaulted ms "pagination" none (Check.optional Message.check)

/-- Shows an envelope with a page of things in it. -/
def ListResponse.toJson {α : Type} [Message α] (r : ListResponse α) : Json :=
  .obj [
    ("base", Message.toJson r.base),
    ("data", .arr (r.data.map Message.toJson)),
    ("pagination", Json.ofOption Message.toJson r.pagination)]

end CostCatalog.Wire
