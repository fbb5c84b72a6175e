import CostCatalog.Json.Reader
import CostCatalog.Wire.Scalar

/-!
# Settings

How the service is set up, from the variables of its environment. Names count in any case of ASCII,
and of two variables with one name the later one counts. Every field has a default, so an empty
environment gives a service that works; a value that cannot be read is refused and never replaced
by the default. All scalars are read as the wire reads them from text; the list of origins is
JSON.
-/

namespace CostCatalog

/-- The settings of the service. -/
structure Settings where
  databaseUrl : String := "postgresql+asyncpg://costing:costing@db:5432/costing_db"
  databasePoolSize : Int := 20
  databaseMaxOverflow : Int := 10
  cacheEnabled : Bool := true
  cacheTtlSeconds : Int := 300
  cachePrefix : String := "costing:"
  requestTimeoutSeconds : Float := 30.0
  defaultActor : String := "system"
  rateLimitEnabled : Bool := true
  rateLimitBurst : Int := 100
  rateLimitPerSecond : Float := 50.0
  rateLimitCleanupIntervalSeconds : Float := 60.0
  rateLimitMaxIdleSeconds : Float := 300.0
  corsOrigins : List String := ["http://localhost:3000"]
  logLevel : String := "INFO"
  logFormat : String := "json"
deriving DecidableEq

/-- Why there are no settings. -/
inductive SettingsError where
  /-- The variable of a field that is not a scalar is no JSON. -/
  | unreadable (field : String)
  /-- Such a variable is nested too deep to be read. -/
  | nested (h : Json.Holder)
  /-- Some fields were refused. -/
  | refused (violations : List Wire.Violation)
deriving DecidableEq

/-- The wording of an error. -/
def SettingsError.message : SettingsError → String
  | .unreadable field =>
    "error parsing value for field \"" ++ field ++ "\" from source \"EnvSettingsSource\""
  | .nested h => (Json.ReadError.nesting h).message
  | .refused violations => "; ".intercalate (violations.map fun v => v.flaw.message)

/-- Where the store is, and how many connections to it are kept. -/
structure StorePool where
  /-- Whether a connection is tried before it is used. -/
  preflight : Bool := true
  /-- After how many seconds a connection is made anew; never if there is none. -/
  recycleSeconds : Option Nat
  /-- The connections kept, and how many more there may be; none where connections are not
  pooled. -/
  bounds : Option (Int × Int)
deriving DecidableEq, Repr

/-- The pool for a store. A store in a file or in memory has no pool to bound. -/
def StorePool.ofUrl (url : String) (size overflow : Int) : StorePool :=
  if "sqlite".toList.isPrefixOf url.toList then { recycleSeconds := none, bounds := none }
  else { recycleSeconds := some 3600, bounds := some (size, overflow) }

namespace Settings

/-- The scheme of addresses that name no driver, and the scheme with the driver named. -/
def bareScheme : String := "postgresql://"

/-- The scheme with the driver named. -/
def driverScheme : String := "postgresql+asyncpg://"

/-- An address with the driver named, if it had the bare scheme. -/
def withDriver (url : String) : String :=
  if bareScheme.toList.isPrefixOf url.toList then
    driverScheme ++ String.ofList (url.toList.drop bareScheme.length)
  else url

/-- The value of a variable; of several with one name, the last. -/
def valueOf? (environment : List (String × String)) (name : String) : Option String :=
  (environment.reverse.find? fun e => e.1.map Char.toLower == name).map (·.2)

/-- The scalar fields that are stated, as texts. -/
def stated (environment : List (String × String)) : List (String × Json) :=
  ["database_url", "database_pool_size", "database_max_overflow", "cache_enabled",
    "cache_ttl_seconds", "cache_prefix", "request_timeout_seconds", "default_actor",
    "rate_limit_enabled", "rate_limit_burst", "rate_limit_per_second",
    "rate_limit_cleanup_interval_seconds", "rate_limit_max_idle_seconds", "log_level",
    "log_format"].filterMap fun name =>
      (valueOf? environment name).map fun value => (name, Json.str value)

/-- The list of origins, if one is stated: JSON, and not `null`. -/
def statedOrigins (environment : List (String × String)) :
    Except SettingsError (List (String × Json)) :=
  match valueOf? environment "cors_origins" with
  | none => .ok []
  | some value =>
    match Json.parse value with
    | .error (.nesting h) => .error (.nested h)
    | .error _ => .error (.unreadable "cors_origins")
    | .ok .null => .ok []
    | .ok v => .ok [("cors_origins", v)]

/-- The settings of some fields. -/
def read (ms : List (String × Json)) : Wire.Checked Settings :=
  let d : Settings := {}
  Settings.mk <$>
    (withDriver <$> Wire.defaulted ms "database_url" d.databaseUrl Wire.text) <*>
    Wire.defaulted ms "database_pool_size" d.databasePoolSize Wire.integer <*>
    Wire.defaulted ms "database_max_overflow" d.databaseMaxOverflow Wire.integer <*>
    Wire.defaulted ms "cache_enabled" d.cacheEnabled Wire.flag <*>
    Wire.defaulted ms "cache_ttl_seconds" d.cacheTtlSeconds Wire.integer <*>
    Wire.defaulted ms "cache_prefix" d.cachePrefix Wire.text <*>
    Wire.defaulted ms "request_timeout_seconds" d.requestTimeoutSeconds Wire.number <*>
    Wire.defaulted ms "default_actor" d.defaultActor Wire.text <*>
    Wire.defaulted ms "rate_limit_enabled" d.rateLimitEnabled Wire.flag <*>
    Wire.defaulted ms "rate_limit_burst" d.rateLimitBurst Wire.integer <*>
    Wire.defaulted ms "rate_limit_per_second" d.rateLimitPerSecond Wire.number <*>
    Wire.defaulted ms "rate_limit_cleanup_interval_seconds" d.rateLimitCleanupIntervalSeconds
      Wire.number <*>
    Wire.defaulted ms "rate_limit_max_idle_seconds" d.rateLimitMaxIdleSeconds Wire.number <*>
    Wire.defaulted ms "cors_origins" d.corsOrigins (Wire.Check.list Wire.text) <*>
    Wire.defaulted ms "log_level" d.logLevel Wire.text <*>
    Wire.defaulted ms "log_format" d.logFormat Wire.text

/-- The settings of an environment. -/
def ofEnvironment (environment : List (String × String)) : Except SettingsError Settings := do
  let origins ← statedOrigins environment
  match read (stated environment ++ origins) with
  | .ok s => .ok s
  | .refused v vs => .error (.refused (v :: vs))

/-- The settings as an object with a member for each field. -/
def toJson (s : Settings) : Json :=
  .obj [
    ("database_url", .str s.databaseUrl),
    ("database_pool_size", .int s.databasePoolSize),
    ("database_max_overflow", .int s.databaseMaxOverflow),
    ("cache_enabled", .bool s.cacheEnabled),
    ("cache_ttl_seconds", .int s.cacheTtlSeconds),
    ("cache_prefix", .str s.cachePrefix),
    ("request_timeout_seconds", .float s.requestTimeoutSeconds),
    ("default_actor", .str s.defaultActor),
    ("rate_limit_enabled", .bool s.rateLimitEnabled),
    ("rate_limit_burst", .int s.rateLimitBurst),
    ("rate_limit_per_second", .float s.rateLimitPerSecond),
    ("rate_limit_cleanup_interval_seconds", .float s.rateLimitCleanupIntervalSeconds),
    ("rate_limit_max_idle_seconds", .float s.rateLimitMaxIdleSeconds),
    ("cors_origins", .arr (s.corsOrigins.map .str)),
    ("log_level", .str s.logLevel),
    ("log_format", .str s.logFormat)]

end Settings

end CostCatalog
