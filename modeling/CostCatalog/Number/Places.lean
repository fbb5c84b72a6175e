import CostCatalog.Number.Shortest

/-!
# A given number of places

The text of a double with as many digits as are asked for, rounded to nearest from its exact value,
a tie to the even digit: positionally, with an exponent, or in whichever of the two suits the size
of the number.
-/

namespace CostCatalog.Places

/-- A point and the digits behind it; without digits, a point only if it is `kept`. -/
def fraction (kept : Bool) (ds : List Char) : List Char :=
  if ds.isEmpty && !kept then [] else '.' :: ds

/-- The quotient `num / den` with `places` digits behind the point. -/
def fixed (kept : Bool) (places num den : Nat) : List Char :=
  let ds := Nat.toDigits 10 (Binary64.roundHalfEven (num * Nat.pow 10 places) den)
  let ds := List.replicate (places + 1 - ds.length) '0' ++ ds
  ds.take (ds.length - places) ++ fraction kept (ds.drop (ds.length - places))

/-- The `places + 1` leading digits of a quotient that is not zero, as one number, and the power of
ten that the first of them counts. -/
def leading (places num den : Nat) : Nat × Int :=
  let x := Shortest.decimalExponent num den
  let n := match x - places with
    | .ofNat e => Binary64.roundHalfEven num (den * Nat.pow 10 e)
    | .negSucc e => Binary64.roundHalfEven (num * Nat.pow 10 (e + 1)) den
  -- Rounding up can make one digit more, and then the last one is a zero.
  if n = Nat.pow 10 (places + 1) then (n / 10, x + 1) else (n, x)

/-- The leading digits of a quotient, zero included. -/
def leadingDigits (places num den : Nat) : List Char × Int :=
  if num = 0 then (List.replicate (places + 1) '0', 0)
  else
    let (n, x) := leading places num den
    (Nat.toDigits 10 n, x)

/-- Digits with a point behind the first, and an exponent. -/
def withExponent (kept : Bool) (ds : List Char) (x : Int) : List Char :=
  ds.take 1 ++ fraction kept (ds.drop 1) ++ Shortest.exponentText x

/-- The quotient `num / den` with one digit before the point, `places` behind it and an exponent. -/
def scientific (kept : Bool) (places num den : Nat) : List Char :=
  let (ds, x) := leadingDigits places num den
  withExponent kept ds x

/-- Digits without the zeros at their end. -/
def dropLastZeros (ds : List Char) : List Char := (ds.reverse.dropWhile (· == '0')).reverse

/-- The quotient `num / den` with `digits` digits in all: positionally when the first of them counts
at least `10^(-4)` and is not further left than `digits` places. Zeros at the end of the fraction
are dropped unless they are `kept`. -/
def general (kept : Bool) (digits num den : Nat) : List Char :=
  let digits := max digits 1
  let (ds, x) := leadingDigits (digits - 1) num den
  if x < -4 || digits ≤ x then
    withExponent kept (if kept then ds else ds.take 1 ++ dropLastZeros (ds.drop 1)) x
  else
    let places := ((digits : Int) - 1 - x).toNat
    let text := fixed kept places num den
    if kept then text
    else
      text.takeWhile (· != '.') ++
        fraction false (dropLastZeros ((text.dropWhile (· != '.')).drop 1))

end CostCatalog.Places
