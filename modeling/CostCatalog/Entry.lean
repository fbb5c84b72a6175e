import CostCatalog.Parameter
import CostCatalog.Uom

/-!
# Entries

What the catalogue holds of each kind, and what is said of entries whatever their kind.
-/

namespace CostCatalog

/-- The entries of a kind. -/
abbrev Entry : Kind → Type
  | .uom => Uom
  | .parameter => Parameter

namespace Entry

instance (k : Kind) : DecidableEq (Entry k) :=
  match k with
  | .uom => inferInstanceAs (DecidableEq Uom)
  | .parameter => inferInstanceAs (DecidableEq Parameter)

/-- The code of an entry. -/
def code : {k : Kind} → Entry k → Code k
  | .uom, u => Uom.code u
  | .parameter, p => Parameter.code p

/-- The category of an entry. -/
def category : {k : Kind} → Entry k → Category k
  | .uom, u => Uom.category u
  | .parameter, p => Parameter.category p

/-- The audit fields of an entry. -/
def audit : {k : Kind} → Entry k → Audit
  | .uom, u => Uom.audit u
  | .parameter, p => Parameter.audit p

end Entry

end CostCatalog
