import CostCatalog.Json.Printer

/-!
# Durations in seconds

A number of seconds as a caller gave it, whole or not. The two are shown differently: `30s` and
`30.0s`.
-/

namespace CostCatalog

/-- A number of seconds. -/
inductive Duration where
  | whole (n : Int)
  | real (x : Float)

instance : Coe Float Duration := ⟨Duration.real⟩

/-- The number in words of digits. -/
def Duration.text : Duration → String
  | .whole n => String.ofList (Json.intChars n)
  | .real x => String.ofList (Shortest.floatText Shortest.plainNames x)

/-- Whether the duration is no time at all: zero or less. -/
def Duration.isSpent : Duration → Bool
  | .whole n => n ≤ 0
  | .real x => x ≤ 0.0

end CostCatalog
