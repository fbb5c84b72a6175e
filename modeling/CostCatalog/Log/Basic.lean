import CostCatalog.Fault.Basic

/-!
# Log records

What is written down about an event: how grave it is, which part of the catalogue speaks, a
message, the fault behind it if there is one, and extra fields for those who search the log.
-/

namespace CostCatalog

/-- How grave an event is; any integer is a level, and five have names. -/
structure Level where
  number : Int
deriving DecidableEq, Repr

namespace Level

/-- For the curious. -/
def debug : Level := ⟨10⟩

/-- What happened. -/
def info : Level := ⟨20⟩

/-- What should not have happened and did no harm. -/
def warning : Level := ⟨30⟩

/-- What went wrong. -/
def error : Level := ⟨40⟩

/-- What went wrong for everybody. -/
def critical : Level := ⟨50⟩

/-- The name of a level. -/
def name (l : Level) : String :=
  if l.number = 0 then "NOTSET"
  else if l.number = 10 then "DEBUG"
  else if l.number = 20 then "INFO"
  else if l.number = 30 then "WARNING"
  else if l.number = 40 then "ERROR"
  else if l.number = 50 then "CRITICAL"
  else "Level " ++ String.ofList (Json.intChars l.number)

end Level

/-- The parts of the catalogue that write to the log. -/
inductive Speaker where
  | main
  | middleware
  | errorHandlers
  | responses
  | health
  | uomCommands
  | parameterCommands
  | cache
  | cachedRepository
  | database
  | rateLimit
  | other (name : String)
deriving DecidableEq, Repr

/-- The name of a speaker in the log. -/
def Speaker.text : Speaker → String
  | .main => "costing_master.main"
  | .middleware => "costing_master.api.middleware"
  | .errorHandlers => "costing_master.api.error_handlers"
  | .responses => "costing_master.api.response_formatter"
  | .health => "costing_master.api.routes.health"
  | .uomCommands => "costing_master.services.uom_commands"
  | .parameterCommands => "costing_master.services.parameter_commands"
  | .cache => "costing_master.infrastructure.cache"
  | .cachedRepository => "costing_master.infrastructure.cached_repository"
  | .database => "costing_master.infrastructure.database"
  | .rateLimit => "costing_master.infrastructure.rate_limit"
  | .other name => name

/-- An event written down. -/
structure LogRecord where
  level : Level
  speaker : Speaker
  message : String
  extras : List (String × Json) := []
  fault : Option Fault := none

/-- The extra fields that are shown, in the order in which they are shown. -/
def extraFields : List String :=
  ["entity", "code", "error_code", "status_code", "path", "method", "duration_ms", "client"]

end CostCatalog
