/-!
# The two kinds of entries

The catalogue holds units of measure and costing parameters. Whatever is said of both is said once,
of a `Kind`: codes, categories, filters, tables, repositories and cache keys are families over it.
-/

namespace CostCatalog

/-- The kinds of entries. -/
inductive Kind where
  | uom
  | parameter
deriving DecidableEq, Repr

/-- The word for a kind in messages and logs. -/
def Kind.text : Kind → String
  | .uom => "uom"
  | .parameter => "parameter"

end CostCatalog
