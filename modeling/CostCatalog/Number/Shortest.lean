import CostCatalog.Number.Decimal

/-!
# Shortest digits

The decimal with the fewest digits that reads back as a given double, and of those the nearest to
it. For one digit, then two, up to seventeen, the two decimals of that length around the value are
tried; the first length at which one of them reads back wins. A double always has such a decimal
of at most seventeen digits; the exact decimal expansion stands behind the search, so the result
reads back without appeal to that fact.
-/

namespace CostCatalog.Shortest

/-- The exponent `k` with `10^k ≤ num / den < 10^(k+1)`, by counting digits: of the integer part
when there is one, else of the quotient scaled up by the power of ten that `fuel` allows. -/
def decimalExponent (num den : Nat) : Int :=
  if den ≤ num then (Decimal.digitCount (num / den) : Int) - 1
  else
    let scale := Decimal.digitCount den
    (Decimal.digitCount (num * Nat.pow 10 scale / den) : Int) - 1 - scale

/-- The two decimals of `length` digits with last place `10^exponent` around `num / den`, the lower
one first. The upper one may be the next power of ten, which has one digit. -/
def neighbours (num den : Nat) (exponent : Int) (length : Nat) : Decimal × Decimal :=
  let q := match exponent with
    | .ofNat e => num / (den * Nat.pow 10 e)
    | .negSucc e => num * Nat.pow 10 (e + 1) / den
  (⟨q, exponent⟩, if q + 1 = Nat.pow 10 length then ⟨1, exponent + length⟩ else ⟨q + 1, exponent⟩)

/-- Whether the lower of the two neighbours is the better one: nearer, or as near and even. -/
def lowerIsNearer (num den : Nat) (exponent : Int) : Bool :=
  let (n, d) := match exponent with
    | .ofNat e => (num, den * Nat.pow 10 e)
    | .negSucc e => (num * Nat.pow 10 (e + 1), den)
  2 * (n % d) < d || (2 * (n % d) == d && n / d % 2 == 0)

/-- The decimal of `length` digits that reads back as `rank`, the nearer one if both neighbours
do. -/
def ofLength? (rank length : Nat) : Option Decimal :=
  let num := Binary64.numerator rank
  let den := Binary64.denominator rank
  let exponent := decimalExponent num den + 1 - length
  let (lo, hi) := neighbours num den exponent length
  match lo.rank == rank, hi.rank == rank with
  | true, true => some (if lowerIsNearer num den exponent then lo else hi)
  | true, false => some lo
  | false, true => some hi
  | false, false => none

/-- The value of a rank written out in full: `m · 2^(-k)` is `m · 5^k` units of `10^(-k)`. -/
def exact (rank : Nat) : Decimal :=
  let k := 1074 - Binary64.raisedExponent rank
  ⟨Binary64.numerator rank * Nat.pow 5 k, -(k : Int)⟩

/-- The first length from `length` on that has a decimal, trying `fuel` of them. -/
def search (rank : Nat) : Nat → Nat → Decimal
  | 0, _ => exact rank
  | fuel + 1, length => (ofLength? rank length).getD (search rank fuel (length + 1))

/-- The shortest decimal of a finite rank. -/
def ofRank (rank : Nat) : Decimal :=
  if rank = 0 then ⟨0, 0⟩ else search rank 17 1

/-! ## Text

A number whose leading digit counts at least `10^(-4)` and less than `10^16` is written
positionally, with `.0` added when it is whole; any other one with an exponent of a sign and at
least two digits. -/

/-- Digits with a point after the first `place` of them. -/
def pointed (ds : List Char) (place : Nat) : List Char :=
  ds.take place ++ '.' :: ds.drop place

/-- The exponent part: `e+16`, `e-05`. -/
def exponentText (x : Int) : List Char :=
  let ds := Nat.toDigits 10 x.natAbs
  'e' :: (if x < 0 then '-' else '+') :: (if ds.length < 2 then '0' :: ds else ds)

/-- The text of a decimal that is not negative. -/
def decimalText (d : Decimal) : List Char :=
  let ds := Nat.toDigits 10 d.digits
  let lead : Int := d.exponent + ds.length - 1
  if lead < -4 || 16 ≤ lead then
    (if ds.length = 1 then ds else pointed ds 1) ++ exponentText lead
  else if 0 ≤ d.exponent then
    ds ++ List.replicate d.exponent.toNat '0' ++ ['.', '0']
  else if 0 ≤ lead then
    pointed ds (lead.toNat + 1)
  else
    '0' :: '.' :: (List.replicate (-lead - 1).toNat '0' ++ ds)

/-- How the values that no decimal spells are written. -/
structure Names where
  infinity : String
  notANumber : String

/-- The text of a double. -/
def floatText (names : Names) (x : Float) : List Char :=
  if Binary64.isNaN x then names.notANumber.toList
  else
    let body :=
      if Binary64.isFinite x then decimalText (ofRank (Binary64.rank x))
      else names.infinity.toList
    if Binary64.isNegative x then '-' :: body else body

/-- The spelling of a double in a message: `inf`, `nan`. -/
def plainNames : Names := ⟨"inf", "nan"⟩

end CostCatalog.Shortest
