import CostCatalog.Number.Quotient

/-!
# Pages

A page of a list: its number and its size, both as asked for. Numbers below one mean the first
page; sizes below one mean ten and sizes above a hundred mean a hundred.
-/

namespace CostCatalog

/-- A page as it was asked for. -/
structure Page where
  number : Int := 1
  size : Int := 10
deriving DecidableEq, Repr

namespace Page

/-- The number of rows on a page when none, or none that makes sense, is asked for. -/
def defaultSize : Nat := 10

/-- The greatest number of rows on a page. -/
def maxSize : Nat := 100

/-- The number of the page that is meant. -/
def effective (p : Page) : Nat := if 0 < p.number then p.number.toNat else 1

/-- The number of rows on the page. -/
def limit (p : Page) : Nat :=
  if p.size ≤ 0 then defaultSize else if maxSize < p.size then maxSize else p.size.toNat

/-- The number of rows before the page. -/
def offset (p : Page) : Nat := (p.effective - 1) * p.limit

/-- The number of pages that a total fills, by the ceiling of the rounded quotient; nothing when
that quotient is beyond every double. -/
def totalPages? (p : Page) (total : Int) : Option Int := Quotient.roundedCeiling? total p.limit

theorem limit_pos (p : Page) : 0 < p.limit := by
  unfold limit
  split
  · decide
  · split
    · decide
    · omega

theorem limit_le (p : Page) : p.limit ≤ maxSize := by
  unfold limit
  split
  · decide
  · split
    · exact Nat.le_refl _
    · omega

theorem effective_pos (p : Page) : 0 < p.effective := by
  unfold effective
  split <;> omega

end Page

end CostCatalog
