import CostCatalog.Http.Percent
import CostCatalog.Json.Reader

/-!
# Requests and responses

What comes in over HTTP and what goes out, as far as the service looks at it.
-/

namespace CostCatalog.Http

/-- A request. The path is decoded, the query is not. -/
structure Request where
  method : String
  path : String
  query : String := ""
  body : String := ""
  contentType : String := "application/json"
  client : Option String := none
  origin : Option String := none
deriving DecidableEq, Repr

namespace Request

/-- Who sent a request, as far as that is known. -/
def clientName (r : Request) : String := r.client.getD "unknown"

/-- The address of a path on this service. -/
def address (path query : String) : String :=
  "http://test" ++ path ++ (if query = "" then "" else "?" ++ query)

/-- The path as it is read back off the address: a question mark or a hash sign in the decoded path
ends it, and tabs and line breaks drop out. -/
def shownPath (r : Request) : String :=
  String.ofList ((r.path.toList.takeWhile fun c => c != '?' && c != '#').filter fun c =>
    c != '\t' && c != '\n' && c != '\r')

end Request

/-- The body of a response. -/
inductive Body where
  | json (v : Json)
  | text (s : String)

/-- A response. -/
structure Response where
  status : Nat
  body : Body
  location : Option String := none
  allowOrigin : Option String := none

namespace Response

/-- A response with a JSON body. -/
def ofJson (status : Nat) (v : Json) : Response := { status, body := .json v }

/-- The response of the framework itself, which says in a word what is wrong. -/
def plain (status : Nat) (detail : String) : Response :=
  .ofJson status (.obj [("detail", .str detail)])

/-- The characters of an address that a redirection leaves as they are. -/
def safeInLocation : List Char := ":/%#?=@[]!$&'()*+,;".toList

/-- Sends the client to another address, to ask the same of it. -/
def redirect (address : String) : Response :=
  { status := 307, body := .text ""
    location := some (String.ofList (percentEncode safeInLocation address.toList)) }

end Response

end CostCatalog.Http
