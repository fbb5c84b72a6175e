/-!
# Binary64 magnitudes

The finite doubles that are not negative, in order, are numbered 0, 1, 2, …: the number of a
double, its RANK, is its bit pattern read as a natural number. This module says what value a rank
stands for and which rank is nearest to a quotient of natural numbers, all in exact arithmetic, so
that reading and writing decimals, and dividing integers, are statements about natural numbers.

A value is kept as a pair `m · 2^q`. The ranks below `2^52` are the subnormals, `r · 2^(-1074)`;
above them each block of `2^52` ranks has one exponent. Powers are written `Nat.pow`, the plain
function of natural numbers, so that they mean the same wherever a general power is in scope too.
-/

namespace CostCatalog.Binary64

/-- How many ranks share one exponent, `2^52`. -/
def blockSize : Nat := 0x10000000000000

/-- The rank that stands for infinity: one more than the largest finite rank. -/
def infinityRank : Nat := 0x7FF * blockSize

/-- The sign bit of a bit pattern, `2^63`. -/
def signBit : Nat := 0x8000000000000000

/-! ## Values -/

/-- The integer `m` of the value `m · 2^q` of a rank. -/
def mantissa (rank : Nat) : Nat :=
  if rank < blockSize then rank else blockSize + rank % blockSize

/-- The exponent `q` of the value `m · 2^q` of a rank, raised by 1074 so that it is natural. -/
def raisedExponent (rank : Nat) : Nat := rank / blockSize - 1

/-- The value of a rank as a quotient of natural numbers. -/
def numerator (rank : Nat) : Nat := mantissa rank * Nat.pow 2 (raisedExponent rank - 1074)

/-- The divisor of the value of a rank, a power of two. -/
def denominator (rank : Nat) : Nat := Nat.pow 2 (1074 - raisedExponent rank)

/-! ## Rounding -/

/-- The integer nearest to `num / den`; of two equally near ones the even one. -/
def roundHalfEven (num den : Nat) : Nat :=
  let q := num / den
  let r := num % den
  if 2 * r < den then q else if den < 2 * r then q + 1 else q + q % 2

/-- The number of places by which quotients are moved before their exponents are compared, the
raise of the exponents and the 52 places of a mantissa. -/
def shift : Nat := 1126

/-- The integer part of the binary logarithm of `num / den`, raised by `1074 + 52` and cut off at
zero: the exponent step of the double just below the quotient. -/
def raisedStep (num den : Nat) : Nat :=
  let estimate := num.log2 + shift - den.log2
  -- The estimate is exact or one too high; the comparison `num · 2^shift < den · 2^estimate` tells.
  let log := if num * Nat.pow 2 shift < den * Nat.pow 2 estimate then estimate - 1 else estimate
  log - 104

/-- The rank nearest to `num / den`, ties to the even mantissa; `infinityRank` from the midpoint
above the largest finite double on. A mantissa that rounds up to the next power of two carries
into the exponent, because ranks are consecutive. -/
def nearest (num den : Nat) : Nat :=
  if num = 0 then 0
  else
    let step := raisedStep num den
    let m := roundHalfEven (num * Nat.pow 2 (1074 - step)) (den * Nat.pow 2 (step - 1074))
    min infinityRank (step * blockSize + m)

/-! ## Doubles -/

/-- The rank of a double's magnitude; above `infinityRank` for a NaN. -/
def rank (x : Float) : Nat := x.toBits.toNat % signBit

/-- Whether the sign bit is set. -/
def isNegative (x : Float) : Bool := signBit ≤ x.toBits.toNat

/-- The double with a sign and a rank. -/
def ofRank (negative : Bool) (rank : Nat) : Float :=
  Float.ofBits (UInt64.ofNat (if negative then signBit + rank else rank))

/-- Neither an infinity nor a NaN. -/
def isFinite (x : Float) : Bool := rank x < infinityRank

/-- Not a number. -/
def isNaN (x : Float) : Bool := infinityRank < rank x

/-- The double nearest to an integer, infinite when there is none. -/
def ofInt (n : Int) : Float := ofRank (n < 0) (nearest n.natAbs 1)

/-- The double nearest to an integer, unless the integer is beyond every double. -/
def ofInt? (n : Int) : Option Float :=
  if nearest n.natAbs 1 < infinityRank then some (ofInt n) else none

/-- The integer a finite double is equal to, if it is one. -/
def toInt? (x : Float) : Option Int :=
  let r := rank x
  if !isFinite x || numerator r % denominator r != 0 then none
  else
    let n : Int := (numerator r / denominator r : Nat)
    some (if isNegative x then -n else n)

end CostCatalog.Binary64
