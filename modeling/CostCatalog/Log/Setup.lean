import CostCatalog.Log.Basic

/-!
# Setting up the log

Where records go and which of them. The catalogue has one handler of its own, which every set-up
replaces; handlers of others stay. Records below the root level are dropped.
-/

namespace CostCatalog

/-- How a handler writes its records. -/
inductive LogFormat where
  | json
  | plain
deriving DecidableEq, Repr

/-- The format with a name: `json` exactly, or plain text. -/
def LogFormat.ofName (name : String) : LogFormat := if name = "json" then .json else .plain

/-- A handler of log records. -/
structure LogHandler where
  name : String
  format : LogFormat
deriving DecidableEq, Repr

/-- The handlers and the least level that they are given. -/
structure LogSetup where
  handlers : List LogHandler := []
  level : Level := .warning
deriving DecidableEq, Repr

namespace LogSetup

/-- The name of the catalogue's own handler. -/
def ownName : String := "costing_master"

/-- The capital of a letter, for the letters whose capital is one of ASCII: besides the small
letters of ASCII, the dotless i and the long s. -/
def capital (c : Char) : Char :=
  if c = 'ı' then 'I' else if c = 'ſ' then 'S' else c.toUpper

/-- The level with a name, in any case; information for a name that is none. -/
def levelOfName (name : String) : Level :=
  match name.map capital with
  | "CRITICAL" | "FATAL" => .critical
  | "ERROR" => .error
  | "WARNING" | "WARN" => .warning
  | "DEBUG" => .debug
  | "NOTSET" => ⟨0⟩
  | _ => .info

/-- The set-up with the catalogue's handler replaced. -/
def configure (s : LogSetup) (level : String := "INFO") (format : String := "json") : LogSetup :=
  { handlers := s.handlers.filter (fun h => h.name != ownName) ++ [⟨ownName, .ofName format⟩]
    level := levelOfName level }

/-- The catalogue's own handlers. -/
def own (s : LogSetup) : List LogHandler := s.handlers.filter fun h => h.name == ownName

/-- Whether a record is given to the handlers. -/
def passes (s : LogSetup) (r : LogRecord) : Bool := s.level.number ≤ r.level.number

end LogSetup

end CostCatalog
