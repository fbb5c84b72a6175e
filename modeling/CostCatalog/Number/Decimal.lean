import CostCatalog.Number.Binary64

/-!
# Decimal numbers

A decimal `digits · 10^exponent` and the double nearest to it. Exponents far outside the range of
doubles are settled by size alone, so reading `1e999999999` costs nothing.
-/

namespace CostCatalog

/-- The decimal `digits · 10^exponent`. -/
structure Decimal where
  digits : Nat
  exponent : Int
deriving DecidableEq, Repr

namespace Decimal

/-- The number a run of decimal digits spells. -/
def ofDigits (cs : List Char) : Nat :=
  cs.foldl (fun n c => 10 * n + (c.toNat - '0'.toNat)) 0

/-- How many decimal digits a number has; zero has one. -/
def digitCount (n : Nat) : Nat := (Nat.toDigits 10 n).length

/-- The most digits of an integer that is turned into a text or read from one. -/
def maxDigits : Nat := 4300

/-- Whether an integer has few enough digits for a text. -/
def isShort (n : Int) : Bool := digitCount n.natAbs ≤ maxDigits

/-- What is said of an integer that has too many, with what is known of it. -/
def tooLong (known : String) : String :=
  "Exceeds the limit (" ++ toString maxDigits ++ " digits) for integer string conversion" ++ known ++
    "; use sys.set_int_max_str_digits() to increase the limit"

/-- The rank of the double nearest to a decimal. A value of `10^310` or more is infinite and one
below `10^(-330)` is zero, whatever its digits. -/
def rank (d : Decimal) : Nat :=
  if d.digits = 0 then 0
  else if 310 < d.exponent + digitCount d.digits then Binary64.infinityRank
  else if d.exponent + digitCount d.digits < -330 then 0
  else match d.exponent with
    | .ofNat e => Binary64.nearest (d.digits * Nat.pow 10 e) 1
    | .negSucc e => Binary64.nearest d.digits (Nat.pow 10 (e + 1))

/-- The double nearest to a decimal with a sign. -/
def toFloat (negative : Bool) (d : Decimal) : Float := Binary64.ofRank negative d.rank

end Decimal

end CostCatalog
