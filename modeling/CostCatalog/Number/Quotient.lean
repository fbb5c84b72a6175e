import CostCatalog.Number.Binary64

/-!
# Rounded quotients

The quotient of two integers as the nearest double, and the ceiling of that double. The rounding
is part of the answer: above `2^53` the quotient loses its low bits before the ceiling is taken.
-/

namespace CostCatalog.Quotient

/-- The ceiling of the double nearest to `num / den`, or nothing when the quotient is beyond every
finite double. Rounding is symmetric about zero; the ceiling is not. -/
def roundedCeiling? (num : Int) (den : Nat) : Option Int :=
  let rank := Binary64.nearest num.natAbs den
  if Binary64.infinityRank ≤ rank then none
  else
    let n := Binary64.numerator rank
    let d := Binary64.denominator rank
    some (if num < 0 then -((n / d : Nat) : Int) else (((n + d - 1) / d : Nat) : Int))

end CostCatalog.Quotient
