import CostCatalog.Category
import CostCatalog.Wire.Mapping

/-!
# Wire names

On the wire a closed set has one member more, for "not stated", and each name carries a stem that
tells the sets apart: `UOM_CATEGORY_WEIGHT`, `UOM_CATEGORY_UNSPECIFIED`.
-/

namespace CostCatalog.Wire

/-- A member of a set, or none stated. -/
inductive Name (α : Type) where
  | unspecified
  | stated (a : α)
deriving DecidableEq, Repr

/-- How the names of a set are spelt on the wire. -/
class Spelling (α : Type) extends Enumeration α where
  /-- The name of the set on the wire, as messages give it. -/
  wireTitle : String
  /-- What the names of the set start with. -/
  stem : String
  text_ne_unspecified : ∀ a : α, text a ≠ "UNSPECIFIED"

/-- The wire text of a name. -/
def Name.text {α : Type} [Spelling α] : Name α → String
  | .unspecified => Spelling.stem α ++ "UNSPECIFIED"
  | .stated a => Spelling.stem α ++ Enumeration.text a

theorem append_left_cancel {s t u : String} (h : s ++ t = s ++ u) : t = u := by
  have := congrArg String.toList h
  rw [String.toList_append, String.toList_append] at this
  exact String.toList_inj.mp (List.append_cancel_left this)

instance {α : Type} [Spelling α] : Enumeration (Name α) where
  title := Spelling.wireTitle α
  members := .unspecified :: (Enumeration.members (α := α)).map .stated
  text := Name.text
  mem_members a := by
    cases a with
    | unspecified => exact List.mem_cons_self ..
    | stated a => exact List.mem_cons_of_mem _ (List.mem_map_of_mem (Enumeration.mem_members a))
  text_injective a b h := by
    cases a with
    | unspecified =>
      cases b with
      | unspecified => rfl
      | stated b => exact absurd (append_left_cancel h).symm (Spelling.text_ne_unspecified b)
    | stated a =>
      cases b with
      | unspecified => exact absurd (append_left_cancel h) (Spelling.text_ne_unspecified a)
      | stated b => exact congrArg _ (Enumeration.text_injective a b (append_left_cancel h))

/-- The set of the name of a wire enumeration's member inside a mapping message. -/
def Name.label {α : Type} [Enumeration α] : Name α → String
  | .unspecified => "UNSPECIFIED"
  | .stated a => Enumeration.text a

instance : Spelling UomCategory where
  wireTitle := "UOMCategoryWire"
  stem := "UOM_CATEGORY_"
  text_ne_unspecified a := by cases a <;> decide

instance : Spelling ParameterCategory where
  wireTitle := "ParameterCategoryWire"
  stem := "PARAMETER_CATEGORY_"
  text_ne_unspecified a := by cases a <;> decide

instance : Spelling DataType where
  wireTitle := "DataTypeWire"
  stem := "PARAMETER_DATA_TYPE_"
  text_ne_unspecified a := by cases a <;> decide

instance (k : Kind) : Spelling (Category k) :=
  match k with
  | .uom => inferInstanceAs (Spelling UomCategory)
  | .parameter => inferInstanceAs (Spelling ParameterCategory)

/-! ## The mappings of the catalogue -/

/-- The table of a set: "not stated" for the empty text, every other name for its member's text. -/
def entries (α : Type) [Enumeration α] : List (Name α × String) :=
  (.unspecified, "") :: (Enumeration.members (α := α)).map fun a => (.stated a, Enumeration.text a)

/-- The mapping of unit categories. -/
def uomCategories : Mapping (Enumeration.members (α := Name UomCategory)) where
  table := entries UomCategory
  keys_nodup := by decide
  covers := by decide
  texts_nodup := by decide
  unspecified := .unspecified
  unspecified_mem := by decide

/-- The mapping of parameter categories. -/
def parameterCategories : Mapping (Enumeration.members (α := Name ParameterCategory)) where
  table := entries ParameterCategory
  keys_nodup := by decide
  covers := by decide
  texts_nodup := by decide
  unspecified := .unspecified
  unspecified_mem := by decide

/-- The mapping of data types. -/
def dataTypes : Mapping (Enumeration.members (α := Name DataType)) where
  table := entries DataType
  keys_nodup := by decide
  covers := by decide
  texts_nodup := by decide
  unspecified := .unspecified
  unspecified_mem := by decide

end CostCatalog.Wire
