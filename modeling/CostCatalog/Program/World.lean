import CostCatalog.Limiter.Basic
import CostCatalog.Program.Basic

/-!
# The world of a program

The store, the cache, the clocks and the log, and how each request changes them. `World.answer` is
one step; `Program.run` is a program run alone, with no other in between.
-/

namespace CostCatalog

/-- The calls of a cache that can be made to fail. -/
inductive CacheCall where
  | get
  | set
  | delete
  | deleteMatching
deriving DecidableEq, Repr

/-- The name of a call of the cache. -/
def CacheCall.text : CacheCall → String
  | .get => "get"
  | .set => "set"
  | .delete => "delete"
  | .deleteMatching => "delete_by_pattern"

/-- The world: the store and the cache, the calls of the cache that are down, the two clocks, and
what has been logged and marked, the latest first. -/
structure World where
  store : Store := {}
  cache : CacheBackend := .none
  down : List CacheCall := []
  wall : Timestamp
  monotonic : Float := 0.0
  records : List LogRecord := []
  marks : List (Kind × Method) := []

namespace World

/-- The world with its clocks set to `micros` microseconds after a start at which the monotonic
clock read zero. The clock on the wall stays where it is when it would leave the calendar. -/
def after (w : World) (start : Timestamp) (micros : Int) : World :=
  { w with
    wall := (start.add? micros).getD w.wall
    monotonic := Binary64.ofInt micros / 1000000.0 }

/-- The fault of a call of the cache that is down. -/
def cacheDown (c : CacheCall) : Fault := .ofCause (.cache c.text "down")

/-- A call of the cache: a fault if it is down, else what the backend does. -/
def onCache {α : Type} (w : World) (c : CacheCall) (absent : α)
    (f : Cache → Except Fault α × Cache) : Except Fault α × World :=
  if c ∈ w.down then (.error (cacheDown c), w)
  else match w.cache with
    | .none => (.ok absent, w)
    | .memory cache =>
      let (a, cache) := f cache
      (a, { w with cache := .memory cache })

/-- The record of keys dropped by a pattern. -/
def droppedRecord (n : Nat) (pattern : String) : LogRecord :=
  { level := .debug, speaker := .cache
    message := "Cache invalidated " ++ toString n ++ " keys for " ++ pattern }

/-- The keys that match a pattern dropped, which is logged when there were any. -/
def deleteMatching (w : World) (pattern : String) : Except Fault Unit × World :=
  match w.onCache .deleteMatching 0 fun c =>
      let (n, c) := c.deleteMatching pattern
      (.ok n, c) with
  | (.error f, w) => (.error f, w)
  | (.ok n, w) =>
    (.ok (), if n = 0 then w else { w with records := droppedRecord n pattern :: w.records })

/-- The outcome of a write that says whether it found a row, and the world after it. -/
def onRow (w : World) (x : Except StoreFailure (Bool × Store)) :
    Except StoreFailure Bool × World :=
  match x with
  | .ok (found, store) => (.ok found, { w with store })
  | .error f => (.error f, w)

/-- The reply to a request, and the world after it. -/
def answer (w : World) : (r : Request) → r.Reply × World
  | .insert _ e =>
    match w.store.insert e with
    | .ok store => (.ok (), { w with store })
    | .error f => (.error f, w)
  | .find _ c => (w.store.find c, w)
  | .count _ f => (w.store.count f, w)
  | .page _ f => (w.store.page f, w)
  | .update _ e => w.onRow (w.store.update e)
  | .delete _ c => w.onRow (w.store.delete c)
  | .contains _ c => (w.store.contains c, w)
  | .cacheGet key => w.onCache .get none fun c => c.get key w.monotonic
  | .cacheSet key value ttl =>
    w.onCache .set () fun c => c.set key (.json value) (.whole ttl) w.monotonic
  | .cacheDelete key => w.onCache .delete () fun c => (.ok (), c.delete [key])
  | .cacheDeleteMatching pattern => w.deleteMatching pattern
  | .now => (w.wall, w)
  | .log r => ((), { w with records := r :: w.records })
  | .mark k m => ((), { w with marks := (k, m) :: w.marks })

end World

/-- A program run alone. -/
def Program.run {α : Type} : Program α → World → α × World
  | .done a, w => (a, w)
  | .ask r next, w =>
    let (reply, w) := w.answer r
    (next reply).run w

/-- An action run alone. -/
def Action.perform {α : Type} (a : Action α) (w : World) : Except Fault α × World :=
  Program.run (ExceptT.run a) w

end CostCatalog
