import CostCatalog.Json.Basic

/-!
# Checked values

Checking untrusted JSON against a message. All violations are found, not only the first, in the
order of the message's fields; each names the place of the value it is about and what is wrong with
it.
-/

namespace CostCatalog.Wire

/-- A step of the way to a value: a field of an object or an item of a list. -/
inductive Step where
  | field (name : String)
  | item (index : Nat)
deriving DecidableEq, Repr

/-- The text of a step. -/
def Step.text : Step → String
  | .field name => name
  | .item index => toString index

/-- What can be wrong with a value. -/
inductive Flaw where
  | missing
  | notText
  | tooShort (least : Nat)
  | tooLong (most : Nat)
  | patternMismatch (pattern : String)
  | notMember (texts : List String)
  | notFlag
  | unreadableFlag
  | notInteger
  | unreadableInteger
  | hugeInteger
  | fractionalInteger
  | notFinite
  | notNumber
  | unreadableNumber
  | notList
  /-- Not an object, where a message was expected. -/
  | notMessage (title : String)
  /-- Not an object, where the body of a request was expected. -/
  | notBody
  /-- The body of a request is no JSON at all. -/
  | notJson
deriving DecidableEq, Repr

/-- Alternatives in words: `'A', 'B' or 'C'`. -/
def alternatives : List String → String
  | [] => ""
  | [a] => "'" ++ a ++ "'"
  | [a, b] => "'" ++ a ++ "' or '" ++ b ++ "'"
  | a :: as => "'" ++ a ++ "', " ++ alternatives as

namespace Flaw

/-- A number of characters in words. -/
def characters (n : Nat) : String :=
  toString n ++ (if n = 1 then " character" else " characters")

/-- The wording of a flaw. -/
def message : Flaw → String
  | .missing => "Field required"
  | .notText => "Input should be a valid string"
  | .tooShort n => "String should have at least " ++ characters n
  | .tooLong n => "String should have at most " ++ characters n
  | .patternMismatch p => "String should match pattern '" ++ p ++ "'"
  | .notMember texts => "Input should be " ++ alternatives texts
  | .notFlag => "Input should be a valid boolean"
  | .unreadableFlag => "Input should be a valid boolean, unable to interpret input"
  | .notInteger => "Input should be a valid integer"
  | .unreadableInteger => "Input should be a valid integer, unable to parse string as an integer"
  | .hugeInteger => "Unable to parse input string as an integer, exceeded maximum size"
  | .fractionalInteger => "Input should be a valid integer, got a number with a fractional part"
  | .notFinite => "Input should be a finite number"
  | .notNumber => "Input should be a valid number"
  | .unreadableNumber => "Input should be a valid number, unable to parse string as a number"
  | .notList => "Input should be a valid list"
  | .notMessage title => "Input should be a valid dictionary or instance of " ++ title
  | .notBody => "Input should be a valid dictionary or object to extract fields from"
  | .notJson => "JSON decode error"

/-- The stable name of a flaw. -/
def tag : Flaw → String
  | .missing => "missing"
  | .notText => "string_type"
  | .tooShort _ => "string_too_short"
  | .tooLong _ => "string_too_long"
  | .patternMismatch _ => "string_pattern_mismatch"
  | .notMember _ => "enum"
  | .notFlag => "bool_type"
  | .unreadableFlag => "bool_parsing"
  | .notInteger => "int_type"
  | .unreadableInteger => "int_parsing"
  | .hugeInteger => "int_parsing_size"
  | .fractionalInteger => "int_from_float"
  | .notFinite => "finite_number"
  | .notNumber => "float_type"
  | .unreadableNumber => "float_parsing"
  | .notList => "list_type"
  | .notMessage _ => "model_type"
  | .notBody => "model_attributes_type"
  | .notJson => "json_invalid"

end Flaw

/-- A flaw and the way to the value that has it. -/
structure Violation where
  path : List Step
  flaw : Flaw
deriving DecidableEq, Repr

/-- A checked value, or all its violations. -/
inductive Checked (α : Type) where
  | ok (a : α)
  | refused (first : Violation) (others : List Violation)
deriving Repr

namespace Checked

variable {α β : Type}

/-- A refusal for one flaw, here. -/
def flaw (f : Flaw) : Checked α := .refused ⟨[], f⟩ []

/-- The violations. -/
def violations : Checked α → List Violation
  | .ok _ => []
  | .refused v vs => v :: vs

/-- The value with a function applied. -/
def map (f : α → β) : Checked α → Checked β
  | .ok a => .ok (f a)
  | .refused v vs => .refused v vs

/-- A checked function applied to a checked value: violations of the first, then of the second. -/
def app (f : Checked (α → β)) (x : Checked α) : Checked β :=
  match f, x with
  | .ok f, .ok a => .ok (f a)
  | .ok _, .refused v vs => .refused v vs
  | .refused v vs, x => .refused v (vs ++ x.violations)

instance : Applicative Checked where
  pure := .ok
  map := map
  seq f x := app f (x ())

/-- A checked value that stands one step further in. -/
def under (s : Step) : Checked α → Checked α
  | .ok a => .ok a
  | .refused v vs =>
    .refused { v with path := s :: v.path } (vs.map fun v => { v with path := s :: v.path })

/-- Every item of a list checked. -/
def items (check : Json → Checked α) : Nat → List Json → Checked (List α)
  | _, [] => .ok []
  | i, v :: vs => (fun a as => a :: as) <$> (check v).under (.item i) <*> items check (i + 1) vs

end Checked

/-- A check of one value. -/
abbrev Check (α : Type) := Json → Checked α

namespace Check

variable {α : Type}

/-- A check that lets the absent value pass. -/
def optional (check : Check α) : Check (Option α)
  | .null => .ok none
  | v => (check v).map some

/-- A check of a list. -/
def list (check : Check α) : Check (List α)
  | .arr vs => Checked.items check 0 vs
  | _ => .flaw .notList

end Check

/-! ## Fields -/

/-- A field that must be there. -/
def required {α : Type} (ms : List (String × Json)) (name : String) (check : Check α) : Checked α :=
  match (Json.obj ms).get? name with
  | some v => (check v).under (.field name)
  | none => (Checked.flaw .missing).under (.field name)

/-- A field with a value to take when it is not there. -/
def defaulted {α : Type} (ms : List (String × Json)) (name : String) (default : α)
    (check : Check α) : Checked α :=
  match (Json.obj ms).get? name with
  | some v => (check v).under (.field name)
  | none => .ok default

/-! ## Messages -/

/-- A message: an object with known fields, the others ignored. -/
class Message (α : Type) where
  /-- The name of the message, for refusals. -/
  title : String
  /-- Reads the fields. -/
  read : List (String × Json) → Checked α
  /-- Shows all fields. -/
  toJson : α → Json

namespace Message

variable {α : Type} [Message α]

/-- Checks a message. -/
def check : Check α
  | .obj ms => read ms
  | _ => .flaw (.notMessage (title α))

/-- Checks the body of a request. -/
def checkBody : Check α
  | .obj ms => read ms
  | _ => .flaw .notBody

end Message

end CostCatalog.Wire
