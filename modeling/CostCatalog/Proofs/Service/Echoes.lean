import CostCatalog.Proofs.Repository.Holdings
import CostCatalog.Proofs.Service.Results
import CostCatalog.Proofs.Wire.Mappings

/-!
# What a request states comes back

From a request to the data that answer it every field goes through a command, an entry and the wire
again. The names of closed sets come back because their table reads both ways,
`Mapping.toWire_toDomain`; so the data of what a request makes are those of the request with audit
fields put to them, `Creating.echo_of_makes` and `Updating.echo_of_makes`. The row that is stored shows
the same data as the entry that it is made of, the bounds being the same numbers.
-/

namespace CostCatalog

variable {k : Kind}

namespace Service

/-! ## Echoes -/

/-- Data with the same fields, the bounds being the same numbers. -/
def Data.Same : {k : Kind} → Data k → Data k → Prop
  | .uom, d, d' => d' = d
  | .parameter, d, d' =>
    ∃ lo hi, SameBound (Wire.ParameterData.minValue d) lo ∧
      SameBound (Wire.ParameterData.maxValue d) hi ∧
      d' = { (d : Wire.ParameterData) with minValue := lo, maxValue := hi }

end Service

end CostCatalog
