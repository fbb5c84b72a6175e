import CostCatalog.Json.Display

/-!
# Closed sets of names

A type whose values are finitely many, each with a text of its own. Reading is exact: no case is
folded and nothing trimmed. A value that is no member is refused by naming it and the set.
-/

namespace CostCatalog

/-- A closed set of names. -/
class Enumeration (α : Type) where
  /-- The name of the set, as messages give it. -/
  title : String
  /-- All members, in the order of their declaration. -/
  members : List α
  /-- The text of a member. -/
  text : α → String
  mem_members : ∀ a : α, a ∈ members
  text_injective : ∀ a b : α, text a = text b → a = b

namespace Enumeration

variable {α : Type} [Enumeration α]

/-- The member with a text. -/
def ofText? (s : String) : Option α := (members (α := α)).find? fun a => text a == s

/-- The member that a JSON text names. -/
def ofJson? : Json → Option α
  | .str s => ofText? s
  | _ => none

/-- The wording of a refusal: `'X' is not a valid Title`. -/
def refusal (α : Type) [Enumeration α] (v : Json) : String :=
  v.display ++ " is not a valid " ++ title α

/-- The text of a member names that member. -/
theorem ofText?_text (a : α) : ofText? (text a) = some a := by
  unfold ofText?
  cases h : (members (α := α)).find? fun b => text b == text a with
  | none => exact absurd (List.find?_eq_none.mp h a (mem_members a)) (by simp)
  | some b =>
    have hb := List.find?_some h
    exact congrArg some (text_injective b a (by simpa using hb))

/-- A text names a member only if it is that member's text. -/
theorem text_of_ofText? {s : String} {a : α} (h : ofText? s = some a) : text a = s := by
  have := List.find?_some h
  simpa using this

end Enumeration

end CostCatalog
