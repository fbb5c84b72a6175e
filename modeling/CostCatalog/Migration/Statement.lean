import CostCatalog.Migration.Table

/-!
# Statements

The statements of a migration and their text. Each is followed by an empty line. Two dialects are
known: one keeps comments on tables and columns, runs a script in one transaction and has types for
moments and documents; the other has none of these.
-/

namespace CostCatalog.Migration

/-- A dialect of the database. -/
inductive Dialect where
  | postgresql
  | sqlite
deriving DecidableEq, Repr

/-- A statement, or a remark between statements. -/
inductive Statement where
  | openTransaction
  | commit
  | remark (text : String)
  | createTable (t : TableDefinition)
  | commentTable (table comment : String)
  | commentColumn (table column comment : String)
  | createIndex (table : String) (i : Index)
  | dropIndex (name : String)
  | dropTable (name : String)
  | insertVersion (revision : String)
  | updateVersion (old new : String)
  | deleteVersion (revision : String)
deriving DecidableEq, Repr

namespace Dialect

/-- The name of a column type; nothing when the dialect has no such type. -/
def typeText? (d : Dialect) : ColumnType → Option String
  | .text most => some ("VARCHAR(" ++ toString most ++ ")")
  | .prose => some "TEXT"
  | .truth => some "BOOLEAN"
  | .decimal digits places => some ("NUMERIC(" ++ toString digits ++ ", " ++ toString places ++ ")")
  | .moment =>
    some (match d with
      | .postgresql => "TIMESTAMP WITH TIME ZONE"
      | .sqlite => "DATETIME")
  | .document =>
    match d with
    | .postgresql => some "JSONB"
    | .sqlite => none

/-- The text of a default. -/
def defaultText (d : Dialect) (v : ColumnDefault) : String :=
  match d, v with
  | .postgresql, .no => "false"
  | .postgresql, .yes => "true"
  | .postgresql, .now => "now()"
  | .sqlite, .no => "0"
  | .sqlite, .yes => "1"
  | .sqlite, .now => "CURRENT_TIMESTAMP"
  | _, .emptyList => "'[]'::jsonb"

/-- The text of a column inside the definition of its table. -/
def columnText? (d : Dialect) (c : Column) : Option String :=
  (d.typeText? c.type).map fun type =>
    c.name ++ " " ++ type ++
      ((c.default.map fun v => " DEFAULT " ++ d.defaultText v).getD "") ++
      (if c.nullable then "" else " NOT NULL")

/-- The way in which the dialect names the column that an insertion reports back. -/
def reportedColumn : Dialect → String
  | .postgresql => "alembic_version.version_num"
  | .sqlite => "version_num"

end Dialect

/-- A text as a literal: between single quotes, each one inside written twice. -/
def literal (s : String) : String :=
  "'" ++ String.ofList (s.toList.flatMap fun c => if c = '\'' then [c, c] else [c]) ++ "'"

/-- The text of a constraint inside the definition of its table. -/
def Constraint.text : Constraint → String
  | .primaryKey name column =>
    ((name.map fun n => "CONSTRAINT " ++ n ++ " ").getD "") ++ "PRIMARY KEY (" ++ column ++ ")"
  | .reference name column table target =>
    "CONSTRAINT " ++ name ++ " FOREIGN KEY(" ++ column ++ ") REFERENCES " ++ table ++ " (" ++ target
      ++ ") ON DELETE SET NULL"
  | .oneOf name column values =>
    "CONSTRAINT " ++ name ++ " CHECK (" ++ column ++ " IN (" ++
      ", ".intercalate (values.map literal) ++ "))"

/-- Lines with a comma and a blank behind each but the last, all of them set in. -/
def listedLines : List String → List String
  | [] => []
  | [l] => ["    " ++ l]
  | l :: ls => ("    " ++ l ++ ", ") :: listedLines ls

namespace Statement

/-- The lines of a statement; nothing when the dialect cannot express it. -/
def lines? (d : Dialect) : Statement → Option (List String)
  | .openTransaction => some ["BEGIN;"]
  | .commit => some ["COMMIT;"]
  | .remark text => some ["-- " ++ text]
  | .createTable t =>
    (t.columns.mapM d.columnText?).map fun columns =>
      ("CREATE TABLE " ++ t.name ++ " (") ::
        (listedLines (columns ++ t.constraints.map Constraint.text) ++ [");"])
  | .commentTable table comment =>
    some ["COMMENT ON TABLE " ++ table ++ " IS " ++ literal comment ++ ";"]
  | .commentColumn table column comment =>
    some ["COMMENT ON COLUMN " ++ table ++ "." ++ column ++ " IS " ++ literal comment ++ ";"]
  | .createIndex table i =>
    some ["CREATE INDEX " ++ i.name ++ " ON " ++ table ++ " (" ++ i.column ++ ");"]
  | .dropIndex name => some ["DROP INDEX " ++ name ++ ";"]
  | .dropTable name => some ["DROP TABLE " ++ name ++ ";"]
  | .insertVersion revision =>
    some ["INSERT INTO alembic_version (version_num) VALUES (" ++ literal revision ++
      ") RETURNING " ++ d.reportedColumn ++ ";"]
  | .updateVersion old new =>
    some ["UPDATE alembic_version SET version_num=" ++ literal new ++
      " WHERE alembic_version.version_num = " ++ literal old ++ ";"]
  | .deleteVersion revision =>
    some ["DELETE FROM alembic_version WHERE alembic_version.version_num = " ++ literal revision ++
      ";"]

end Statement

/-- The lines of a script, the last of them empty; nothing when the dialect cannot express one of
its statements. -/
def scriptLines? (d : Dialect) (script : List Statement) : Option (List String) :=
  (script.mapM fun (s : Statement) => (s.lines? d).map (· ++ [""])).map fun ls =>
    ls.flatten ++ [""]

end CostCatalog.Migration
