import CostCatalog.Http.Percent
import CostCatalog.Json.Basic

/-!
# Query strings

The names and values behind the question mark of an address. Ampersands part them; a plus sign is a
blank; a name without an equals sign has the empty value, which is a value like any other. Of
several values for one name the last counts.
-/

namespace CostCatalog.Http

/-- A text cut at every separator; there is always one piece more than there are separators. -/
def splitAt (separator : Char) : List Char → List (List Char)
  | [] => [[]]
  | c :: cs =>
    if c = separator then [] :: splitAt separator cs
    else
      match splitAt separator cs with
      | piece :: pieces => (c :: piece) :: pieces
      | [] => [[c]]

/-- A name or a value, decoded. -/
def queryText (cs : List Char) : String :=
  String.ofList (percentDecode [] (cs.map fun c => if c = '+' then ' ' else c))

/-- A name and its value. -/
def queryField (cs : List Char) : String × Json :=
  (queryText (cs.takeWhile (· != '=')), .str (queryText ((cs.dropWhile (· != '=')).drop 1)))

/-- The fields of a query string, each name once. -/
def queryFields (query : String) : List (String × Json) :=
  (((splitAt '&' query.toList).filter fun piece => !piece.isEmpty).map queryField).foldl
    (fun ms m => Json.setMember m.1 m.2 ms) []

end CostCatalog.Http
