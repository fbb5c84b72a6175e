import CostCatalog.Text.CodePoint

/-!
# JSON values

Integers and floating-point numbers are different values: `1` and `1.0` are told apart by every
reader and writer of the catalogue. The members of an object stand in a list, in the order in
which their names first appeared.

The texts and the names in a value are of some type of texts, strings unless another is named.
-/

namespace CostCatalog

/-- A JSON value. -/
inductive Json (τ : Type := String) where
  | null
  | bool (b : Bool)
  | int (n : Int)
  | float (x : Float)
  | str (s : τ)
  | arr (items : List (Json τ))
  | obj (members : List (τ × Json τ))
deriving Inhabited

namespace Json

variable {τ : Type}

/-- The value of a member of an object. -/
def get? (name : String) : Json → Option Json
  | .obj members => (members.find? fun m => m.1 == name).map (·.2)
  | _ => none

/-- The text, if the value is one. -/
def str? : Json τ → Option τ
  | .str s => some s
  | _ => none

theorem str?_eq_some_iff {v : Json τ} {s : τ} : v.str? = some s ↔ v = .str s := by
  cases v <;> simp [str?]

/-- Members with one value set: a name that is there keeps its place and takes the new value, a
new one goes to the end. -/
def setMember [DecidableEq τ] (name : τ) (v : Json τ) : List (τ × Json τ) → List (τ × Json τ)
  | [] => [(name, v)]
  | m :: ms => if m.1 = name then (name, v) :: ms else m :: setMember name v ms

/-- The object with the given members; of several with one name the last value counts. -/
def ofMembers [DecidableEq τ] (members : List (τ × Json τ)) : Json τ :=
  .obj (members.foldl (fun ms m => setMember m.1 m.2 ms) [])

/-- The object with members that are named in characters. -/
def ofFields [Textual τ] (fields : List (String × Json τ)) : Json τ :=
  .obj (fields.map fun f => (Textual.ofString f.1, f.2))

/-- An optional value, `null` when absent. -/
def ofOption {α : Type} (f : α → Json) : Option α → Json
  | some a => f a
  | none => .null

/-! ## Nesting -/

/-- The catalogue itself nests no more than a list of options in a parameter on a page of them. -/
theorem four_le_levels : 4 ≤ 970 := by decide

/-- How many arrays and objects may stand one inside another. Readers and writers go into each of
them by a call, so this is what the stack leaves them, and it leaves enough for the catalogue. -/
structure Depth where
  levels : Nat := 970
  enough : 4 ≤ levels := by exact CostCatalog.Json.four_le_levels

end Json

end CostCatalog
