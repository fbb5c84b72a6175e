import CostCatalog.Json.Basic
import CostCatalog.Json.Printer

/-!
# Values named in messages

The form in which a value that was refused is named in the message that refuses it: texts in the
quotes of `Text.quoted`, `None` for the absent value, `True` and `False` for the truth values.
-/

namespace CostCatalog.Json

mutual

/-- The characters of a value as a message names it. -/
def displayChars : Json → List Char
  | .null => "None".toList
  | .bool true => "True".toList
  | .bool false => "False".toList
  | .int n => intChars n
  | .float x => Shortest.floatText Shortest.plainNames x
  | .str s => Text.quoted s.toList
  | .arr items => '[' :: (displayItems items ++ [']'])
  | .obj members => '{' :: (displayMembers members ++ ['}'])

/-- The items of a list, without its brackets. -/
def displayItems : List Json → List Char
  | [] => []
  | [v] => displayChars v
  | v :: w :: vs => displayChars v ++ ',' :: ' ' :: displayItems (w :: vs)

/-- The members of an object, without its braces. -/
def displayMembers : List (String × Json) → List Char
  | [] => []
  | [(k, v)] => Text.quoted k.toList ++ ':' :: ' ' :: displayChars v
  | (k, v) :: m :: ms =>
    Text.quoted k.toList ++ ':' :: ' ' :: (displayChars v ++ ',' :: ' ' :: displayMembers (m :: ms))

end

/-- A value as a message names it. -/
def display (v : Json) : String := String.ofList (displayChars v)

end CostCatalog.Json
