import CostCatalog.Cache.Basic
import CostCatalog.Store.Basic

/-!
# Programs

What the catalogue does, as a sequence of requests to the world around it: statements on the store,
calls of the cache, readings of the clock, records for the log. A program says what it asks and how
it goes on with each reply; between two requests other programs may run.
-/

namespace CostCatalog

/-- The operations of a repository. -/
inductive Method where
  | create
  | find
  | list
  | update
  | delete
  | contains
deriving DecidableEq, Repr

/-- A request to the world. -/
inductive Request where
  | insert (k : Kind) (e : Entry k)
  | find (k : Kind) (c : Code k)
  | count (k : Kind) (f : Filter k)
  | page (k : Kind) (f : Filter k)
  | update (k : Kind) (e : Entry k)
  | delete (k : Kind) (c : Code k)
  | contains (k : Kind) (c : Code k)
  | cacheGet (key : String)
  | cacheSet (key : String) (value : Json) (ttl : Int)
  | cacheDelete (key : String)
  | cacheDeleteMatching (pattern : String)
  | now
  | log (r : LogRecord)
  /-- A mark for whoever watches which repository operations are called. -/
  | mark (k : Kind) (m : Method)

/-- What the world replies to a request. -/
abbrev Request.Reply : Request → Type
  | .insert _ _ => Except StoreFailure Unit
  | .find k _ => Except StoreFailure (Option (Entry k))
  | .count _ _ => Except StoreFailure Nat
  | .page k _ => Except StoreFailure (List (Entry k))
  | .update _ _ => Except StoreFailure Bool
  | .delete _ _ => Except StoreFailure Bool
  | .contains _ _ => Except StoreFailure Bool
  | .cacheGet _ => Except Fault (Option Json)
  | .cacheSet _ _ _ => Except Fault Unit
  | .cacheDelete _ => Except Fault Unit
  | .cacheDeleteMatching _ => Except Fault Unit
  | .now => Timestamp
  | .log _ => Unit
  | .mark _ _ => Unit

/-- A program: done, or a request and how to go on with the reply. -/
inductive Program (α : Type) where
  | done (a : α)
  | ask (r : Request) (next : r.Reply → Program α)

namespace Program

variable {α β : Type}

/-- One program after another. -/
def bind : Program α → (α → Program β) → Program β
  | .done a, f => f a
  | .ask r next, f => .ask r fun reply => (next reply).bind f

instance : Monad Program where
  pure := .done
  bind := bind

/-- The program of one request. -/
def request (r : Request) : Program r.Reply := .ask r .done

end Program

/-- A program that may end with a fault. -/
abbrev Action (α : Type) := ExceptT Fault Program α

namespace Action

variable {α : Type}

/-- One request, its reply the result. -/
def request (r : Request) : Action r.Reply := ExceptT.lift (Program.request r)

/-- Ends with a fault. -/
def fail (f : Fault) : Action α := ExceptT.mk (.done (.error f))

/-- Goes on with a value, or ends with its fault. -/
def ofExcept (x : Except Fault α) : Action α := ExceptT.mk (.done x)

/-- The reading of the clock on the wall. -/
def now : Action Timestamp := request .now

/-- Writes a record to the log. -/
def log (r : LogRecord) : Action Unit := request (.log r)

/-- The result of an action or its fault, as a value. -/
def attempt (a : Action α) : Action (Except Fault α) := ExceptT.lift (ExceptT.run a)

end Action

end CostCatalog
