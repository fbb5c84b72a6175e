import CostCatalog.Kind

/-!
# Routes

Which paths the service knows, with which methods, and what each is for. Routes are tried in the
order of the table. A path that no route knows may be known with slashes taken off its end, or with
one put on: then the client is sent there.
-/

namespace CostCatalog.Http

/-- What can be asked about the entries of a kind. -/
inductive Operation where
  | create
  | list
  | find (code : String)
  | update (code : String)
  | delete (code : String)
deriving DecidableEq, Repr

/-- Whether an operation reads a message from the body of its request. -/
def Operation.hasBody : Operation → Bool
  | .create | .update _ => true
  | _ => false

/-- What a route leads to. -/
inductive Endpoint where
  /-- A page about the service itself. -/
  | manual
  /-- Whether the process is up. -/
  | live
  /-- Whether the service can do its work. -/
  | ready
  | entries (k : Kind) (op : Operation)
deriving DecidableEq, Repr

/-- The paths of a route: one path, or a path with one more segment. -/
inductive PathPattern where
  | fixed (path : String)
  | withSegment (base : String)
deriving DecidableEq, Repr

/-- A route: its paths, its methods, and what it leads to, given the segment of the path that it
leaves open. -/
structure Route where
  paths : PathPattern
  methods : List String
  endpoint : String → Endpoint

/-- The path under which everything about the service's health is found. -/
def healthRoot : String := "/api/v1/health"

/-- The path of the entries of a kind. -/
def entriesPath : Kind → String
  | .uom => "/api/v1/uoms"
  | .parameter => "/api/v1/parameters"

/-- The routes of a kind of entry. -/
def entryRoutes (k : Kind) : List Route :=
  let all (method : String) (op : Operation) : Route :=
    { paths := .fixed (entriesPath k), methods := [method], endpoint := fun _ => .entries k op }
  let one (method : String) (op : String → Operation) : Route :=
    { paths := .withSegment (entriesPath k), methods := [method]
      endpoint := fun code => .entries k (op code) }
  [all "POST" .create, all "GET" .list, one "GET" .find, one "PUT" .update, one "DELETE" .delete]

/-- The table of routes. -/
def routes : List Route :=
  (["/openapi.json", "/docs", "/docs/oauth2-redirect", "/redoc"].map fun path =>
    { paths := .fixed path, methods := ["GET", "HEAD"], endpoint := fun _ => .manual }) ++
  [{ paths := .fixed (healthRoot ++ "/"), methods := ["GET"], endpoint := fun _ => .live },
   { paths := .fixed (healthRoot ++ "/ready"), methods := ["GET"], endpoint := fun _ => .ready }] ++
  entryRoutes .uom ++ entryRoutes .parameter

namespace PathPattern

/-- The open segment of a path that a pattern knows; for a fixed path, the empty text. A fixed path
may end in a line break, and an open segment may hold anything but a slash. -/
def segment? (p : PathPattern) (path : String) : Option String :=
  match p with
  | .fixed known => if path = known ∨ path = known ++ "\n" then some "" else none
  | .withSegment base =>
    let stem := base.toList ++ ['/']
    let rest := path.toList.drop stem.length
    if stem.isPrefixOf path.toList && !rest.isEmpty && !rest.contains '/' then
      some (String.ofList rest)
    else none

end PathPattern

/-- Where a request leads. -/
inductive Destination where
  | found (e : Endpoint)
  /-- The path is known, with other methods. -/
  | otherMethod
  /-- The path is known in another spelling. -/
  | moved (path : String)
  | nowhere
deriving DecidableEq, Repr

/-- The endpoints of the routes that know a path, each with the route's methods. -/
def known (path : String) : List (List String × Endpoint) :=
  routes.filterMap fun r => (r.paths.segment? path).map fun s => (r.methods, r.endpoint s)

/-- The other spelling of a path: without the slashes at its end, or with one there. -/
def respelt (path : String) : String :=
  if path.toList.getLast? = some '/' then
    String.ofList (path.toList.reverse.dropWhile (· == '/')).reverse
  else path ++ "/"

/-- Where a request with a method and a path leads. -/
def destination (method path : String) : Destination :=
  match (known path).find? fun e => e.1.contains method with
  | some e => .found e.2
  | none =>
    if !(known path).isEmpty then .otherMethod
    else if path ≠ "/" ∧ !(known (respelt path)).isEmpty then .moved (respelt path)
    else .nowhere

end CostCatalog.Http
