import CostCatalog.Category

/-!
# Table definitions

The tables of the store as the database is told of them: columns with their types, defaults and
comments, the constraints on rows, and the indexes.
-/

namespace CostCatalog.Migration

/-- The type of a column. -/
inductive ColumnType where
  | text (most : Nat)
  | prose
  | truth
  | decimal (digits places : Nat)
  | moment
  | document
deriving DecidableEq, Repr

/-- What the database puts into a column that a new row does not state. -/
inductive ColumnDefault where
  | no
  | yes
  | now
  | emptyList
deriving DecidableEq, Repr

/-- A column. -/
structure Column where
  name : String
  type : ColumnType
  nullable : Bool := false
  default : Option ColumnDefault := none
  comment : Option String := none
deriving DecidableEq, Repr

/-- A condition on the rows of a table. -/
inductive Constraint where
  | primaryKey (name : Option String) (column : String)
  /-- A column names a row of another table, and is cleared when that row goes. -/
  | reference (name column table target : String)
  | oneOf (name column : String) (values : List String)
deriving DecidableEq, Repr

/-- An index on one column. -/
structure Index where
  name : String
  column : String
deriving DecidableEq, Repr

/-- The definition of a table. -/
structure TableDefinition where
  name : String
  columns : List Column
  constraints : List Constraint
  indexes : List Index := []
  comment : Option String := none
deriving DecidableEq, Repr

/-- The columns that every table of entries ends with. -/
def auditColumns : List Column :=
  [{ name := "created_at", type := .moment, default := some .now },
   { name := "created_by", type := .text 100 },
   { name := "updated_at", type := .moment, nullable := true },
   { name := "updated_by", type := .text 100, nullable := true }]

/-- The texts of a closed set. -/
def textsOf (α : Type) [Enumeration α] : List String :=
  (Enumeration.members (α := α)).map Enumeration.text

/-- The table of units. -/
def uomTable : TableDefinition where
  name := "mst_uom"
  comment := some "Master table for Unit of Measures"
  columns :=
    [{ name := "uom_code", type := .text 20
       comment := some "Unique code for UOM, e.g., KG, TON, M" },
     { name := "uom_name", type := .text 100 },
     { name := "uom_category", type := .text 20
       comment := some "Category: WEIGHT, VOLUME, QUANTITY, LENGTH" },
     { name := "is_base_uom", type := .truth, default := some .no
       comment := some "True if this is the base UOM for its category" }] ++ auditColumns
  constraints :=
    [.primaryKey none "uom_code",
     .oneOf "ck_mst_uom_category" "uom_category" (textsOf UomCategory)]
  indexes := [⟨"idx_mst_uom_category", "uom_category"⟩]

/-- The table of parameters. -/
def parameterTable : TableDefinition where
  name := "mst_parameter"
  comment := some "Master table for costing parameters"
  columns :=
    [{ name := "parameter_code", type := .text 50 },
     { name := "parameter_name", type := .text 200 },
     { name := "parameter_category", type := .text 20
       comment := some "Category: MACHINE, MATERIAL, QUALITY, OUTPUT, PROCESS" },
     { name := "data_type", type := .text 20
       comment := some "Data type: NUMERIC, TEXT, BOOLEAN, DROPDOWN" },
     { name := "uom", type := .text 20, nullable := true },
     { name := "min_value", type := .decimal 18 6, nullable := true },
     { name := "max_value", type := .decimal 18 6, nullable := true },
     { name := "allowed_values", type := .document, default := some .emptyList
       comment := some "JSON array of allowed values for DROPDOWN type" },
     { name := "is_mandatory", type := .truth, default := some .no },
     { name := "description", type := .prose, nullable := true },
     { name := "is_active", type := .truth, default := some .yes }] ++ auditColumns
  constraints :=
    [.primaryKey none "parameter_code",
     .reference "fk_mst_parameter_uom" "uom" "mst_uom" "uom_code",
     .oneOf "ck_mst_parameter_category" "parameter_category" (textsOf ParameterCategory),
     .oneOf "ck_mst_parameter_data_type" "data_type" (textsOf DataType)]
  indexes :=
    [⟨"idx_mst_parameter_category", "parameter_category"⟩,
     ⟨"idx_mst_parameter_active", "is_active"⟩,
     ⟨"idx_mst_parameter_data_type", "data_type"⟩]

/-- The table that remembers which revision the database is at. -/
def versionTable : TableDefinition where
  name := "alembic_version"
  columns := [{ name := "version_num", type := .text 32 }]
  constraints := [.primaryKey (some "alembic_version_pkc") "version_num"]

end CostCatalog.Migration
