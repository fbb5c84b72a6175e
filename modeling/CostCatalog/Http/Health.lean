import CostCatalog.Http.Message
import CostCatalog.Program.Basic

/-!
# Health

Two questions that a supervisor asks. Is the process up? It is, if it answers at all. Can it do its
work? It can, if both the store and the cache can be reached; a part that cannot be asked is down,
and why is logged.
-/

namespace CostCatalog.Http

/-- What the service finds where its store should be. -/
inductive StoreAccess where
  | present
  | unreachable
  /-- No store was ever set up. -/
  | absent
deriving DecidableEq, Repr

/-- The answer that the process is up. -/
def liveResponse : Response :=
  .ofJson 200 (.obj [
    ("status", .str "healthy"), ("service", .str "costing-master"), ("version", .str "1.0.0")])

/-- The failure of every statement on a store that cannot be reached. -/
def connectionFailure : StoreFailure := .operational "unable to open database file"

/-- Whether the store answers. -/
def storeIsUp : StoreAccess → Action Bool
  | .present => pure true
  | .absent => pure false
  | .unreachable => do
    match connectionFailure.record "execute" with
    | some r => Action.log r
    | none => pure ()
    Action.log
      { level := .error, speaker := .database
        message := "DB health check failed: " ++ (connectionFailure.toFault "execute").message }
    pure false

/-- Whether the cache says that it is well; one that fails to say so is not. -/
def cacheIsUp : Except String Bool → Action Bool
  | .ok well => pure well
  | .error text => do
    Action.log
      { level := .error, speaker := .health, message := "Cache health check failed: " ++ text }
    pure false

/-- The state of a part in a word. -/
def upText (up : Bool) : Json := .str (if up then "UP" else "DOWN")

/-- The answer whether the service can do its work. -/
def readiness (access : StoreAccess) (cache : Except String Bool) : Action Response := do
  let store ← storeIsUp access
  let cache ← cacheIsUp cache
  let status (word : String) : Json :=
    .obj [("status", .str word),
      ("components", .obj [("postgres", upText store), ("cache", upText cache)])]
  pure (if store && cache then .ofJson 200 (status "ready") else .ofJson 503 (status "not_ready"))

end CostCatalog.Http
