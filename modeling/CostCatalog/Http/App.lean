import CostCatalog.Http.Entries
import CostCatalog.Http.Health
import CostCatalog.Log.Setup
import CostCatalog.Program.World
import CostCatalog.Repository.Cached
import CostCatalog.Settings

/-!
# The service

From its start to its end. A request passes, from the outside in: the log of requests, which has one
line for each; the limiter, which never turns a supervisor away; the check of origins; the router
and what it leads to. A known fault that comes out of a route is answered by the envelope of its
outcome. Any other breaks through to the outside, where it is logged with all that it says and
answered by an envelope that says nothing of it.

The clocks stand still while a request is served, so every request is logged with no time spent.
-/

namespace CostCatalog.Http

open Wire (EmptyResponse Message Violation)

/-- The running service. -/
structure App where
  settings : Settings
  log : LogSetup
  limiter : Option (Limiter Float)
  world : World
  access : StoreAccess := .present
  /-- What the cache says when it is asked whether it is well, or the text of its failure to say
  so. -/
  cacheHealth : Except String Bool := .ok true

/-! ## Log records -/

/-- A request was answered. -/
def answeredRecord (r : Request) (status : Nat) : LogRecord :=
  { level := .info, speaker := .middleware
    message := r.method ++ " " ++ r.shownPath ++ " " ++ toString status
    extras := [("method", .str r.method), ("path", .str r.shownPath), ("status_code", .int status),
      ("duration_ms", .float 0.0), ("client", .str r.clientName)] }

/-- A request broke off. -/
def brokenRecord (r : Request) (f : Fault) : LogRecord :=
  { level := .error, speaker := .middleware
    message := r.method ++ " " ++ r.shownPath ++ " failed: " ++ f.title
    extras := [("method", .str r.method), ("path", .str r.shownPath), ("duration_ms", .float 0.0)] }

/-- Nobody knew what to do about a fault. -/
def unhandledRecord (r : Request) (f : Fault) : LogRecord :=
  { level := .error, speaker := .errorHandlers
    message := "Unhandled exception on " ++ r.shownPath ++ ": " ++ f.message
    extras := [("path", .str r.shownPath), ("error_code", .str "INTERNAL_ERROR")], fault := some f }

/-- The message of a request was not of the right form. -/
def invalidRecord (r : Request) (vs : List Violation) : LogRecord :=
  { level := .warning, speaker := .errorHandlers
    message := "Validation error on " ++ r.shownPath ++ ": " ++
      "; ".intercalate (vs.map fun v => fieldPath v.path ++ ": " ++ v.flaw.message)
    extras := [("path", .str r.shownPath), ("error_code", .str "VALIDATION_ERROR")] }

/-! ## Responses to what went wrong -/

/-- The response with an envelope that holds a status and nothing else. -/
def statusResponse (status : Nat) (base : Wire.Base) : Response :=
  .ofJson status (Message.toJson (EmptyResponse.mk base))

/-- The response to a fault that nobody foresaw. -/
def internalResponse : Response := statusResponse 500 Service.internalError

/-- The response to a fault that came out of a route. -/
def faultResponse : Fault → Response
  | .known c x =>
    let base := Service.failed (.known c x)
    statusResponse (Decimal.ofDigits base.statusCode.toList) base
  | .unexpected _ => internalResponse

/-- The answer to a request whose message is not of the right form. -/
def invalid (r : Request) (vs : List Violation) : Action Response := do
  Action.log (invalidRecord r vs)
  pure (statusResponse 400 (Service.malformed (vs.map errorDetail)))

namespace App

/-! ## Inside out -/

/-- What the operations are served with. -/
def setting (a : App) : Service.Setting :=
  { uoms := (Repository.stored .uom).cached a.settings.cacheTtlSeconds
    parameters := (Repository.stored .parameter).cached a.settings.cacheTtlSeconds
    actor := a.settings.defaultActor
    limit := some (.real a.settings.requestTimeoutSeconds) }

/-- The answer to a request whose body cannot be read. What follows the grammar of JSON and is too
much for a reader all the same is turned away by the framework itself. -/
def unread (r : Request) : Json.ReadError → Action Response
  | .malformed e => invalid r [notJson e.position]
  | _ => pure (.plain 400 "There was an error parsing the body")

/-- The answer of an endpoint. A body that cannot be read is found before it is known whether there is
a store, any violation by what is read after that. -/
def serve (a : App) (r : Request) : Endpoint → Action Response
  | .manual => pure { status := 200, body := .text "" }
  | .live => pure liveResponse
  | .ready => readiness a.access a.cacheHealth
  | .entries k op =>
    match if op.hasBody then r.content else .ok .empty with
    | .error e => unread r e
    | .ok c =>
      if a.access = .absent then Action.fail (.unexpected .storeAbsent)
      else match entryAction a.setting r c k op with
        | .ok action => action
        | .refused v vs => invalid r (v :: vs)

/-- The answer of the router. -/
def route (a : App) (r : Request) : Action Response :=
  match destination r.method r.path with
  | .found e => a.serve r e
  | .otherMethod => pure (.plain 405 "Method Not Allowed")
  | .moved path => pure (.redirect (Request.address path r.query))
  | .nowhere => pure (.plain 404 "Not Found")

/-- The answer of the router, known faults told by their outcome. -/
def settled (a : App) (r : Request) : Action Response := do
  match ← Action.attempt (a.route r) with
  | .ok response => pure response
  | .error (.known c x) => do
    Action.log (Service.failureRecord (r.method ++ " " ++ r.shownPath) (.known c x))
    pure (faultResponse (.known c x))
  | .error f => Action.fail f

/-- The origin that a response allows, if the request names one. -/
def allowedOrigin (a : App) (r : Request) : Option String :=
  match r.origin with
  | none => none
  | some origin =>
    if a.settings.corsOrigins.contains "*" then some "*"
    else if a.settings.corsOrigins.contains origin then some origin
    else none

/-- The answer to a request that the limiter let through. -/
def answer (a : App) (r : Request) : Action Response := do
  match ← Action.attempt (a.settled r) with
  | .ok response =>
    Action.log (answeredRecord r response.status)
    pure { response with allowOrigin := a.allowedOrigin r }
  | .error f =>
    Action.log (brokenRecord r f)
    Action.log (unhandledRecord r f)
    pure internalResponse

/-- The answer to a request that the limiter turned away. -/
def turnAway (r : Request) : Action Response := do
  Action.log (Limiter.refusalRecord r.clientName)
  Action.log (answeredRecord r 429)
  pure (statusResponse 429 (Service.turnedAway))

/-- Whether the limiter lets a request through, and the service after it was asked. Whoever asks
after the service's health is always let through, and is not counted. -/
def letThrough (a : App) (r : Request) : Bool × App :=
  match a.limiter with
  | none => (true, a)
  | some l =>
    if healthRoot.toList.isPrefixOf r.shownPath.toList then (true, a)
    else
      let (admitted, l) := l.allow r.clientName a.world.monotonic
      (admitted, { a with limiter := some l })

/-! ## From start to end -/

/-- The records that are kept, of those that were written. -/
def kept (a : App) (records : List LogRecord) : List LogRecord := records.filter a.log.passes

/-- The service under some settings, with empty tables, and what it logs when it starts. -/
def start (settings : Settings) (wall : Timestamp) (enforces : Bool) : App × List LogRecord :=
  let cache : CacheBackend :=
    if settings.cacheEnabled then .memory { stem := settings.cachePrefix } else .none
  let a : App :=
    { settings
      log := LogSetup.configure {} settings.logLevel settings.logFormat
      limiter := if settings.rateLimitEnabled then
          some ⟨Binary64.ofInt settings.rateLimitBurst, settings.rateLimitPerSecond, []⟩
        else none
      world := { store := { enforces }, cache, wall } }
  (a, a.kept [
    { level := .info, speaker := .cache, message := "Cache backend: " ++ cache.title },
    { level := .info, speaker := .main, message := "Costing Master API started" }])

/-- The world as the service can reach it. -/
def reached (a : App) : World :=
  { a.world with
    store := if a.access = .present then a.world.store else Store.unreachable
    records := [], marks := [] }

/-- Serves a request: the response, what is logged, and the service after it. -/
def handle (a : App) (r : Request) : Response × List LogRecord × App :=
  let (admitted, a) := a.letThrough r
  let (result, w) := (if admitted then a.answer r else turnAway r).perform a.reached
  let response := match result with
    | .ok response => response
    | .error f => faultResponse f
  let store := if a.access = .present then w.store else a.world.store
  (response, a.kept w.records.reverse, { a with world := { w with store } })

/-- What the service logs when it ends. -/
def stop (a : App) : List LogRecord :=
  a.kept
    ({ level := .info, speaker := .main, message := "Costing Master API shutting down" } ::
      if a.limiter.isSome then [Limiter.stopRecord] else [])

end App

end CostCatalog.Http
