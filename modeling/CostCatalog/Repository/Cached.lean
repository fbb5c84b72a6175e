import CostCatalog.Record
import CostCatalog.Repository.Basic

/-!
# Repositories behind the cache

A repository that answers from the cache where it can. Finding and listing are cached; whether a
code is taken is always asked of the repository behind. A change drops the entry's own key and every
list of its kind, once the repository behind has made it; and since the end of a unit can change any
parameter, it drops every parameter and every list of them.

A cache that fails is no fault: reading from it counts as finding nothing, and writing to it and
dropping from it as done. All of it is logged. Whatever else goes wrong at a call of the cache goes
on to the caller: a time to live beyond every double, or a text nested too deep to be read.
-/

namespace CostCatalog.Repository

variable {k : Kind}

/-- The record of a cache that failed. -/
def cacheFailed (what : String) (f : Fault) : LogRecord :=
  { level := .warning, speaker := .cachedRepository
    message := what ++ ": " ++ f.message
    extras := [("error_code", .str f.code)] }

/-- Goes on after a fault of a call of the cache: a failure of the cache is logged, any other fault
goes on to the caller. -/
def overlook (what : String) (f : Fault) : Action Unit :=
  if f.isOfCache then Action.log (cacheFailed what f) else Action.fail f

/-- What is cached under a key; nothing when the cache fails. -/
def lookUp (key : String) : Action (Option Json) := do
  match ← Action.request (.cacheGet key) with
  | .ok v => pure v
  | .error f =>
    overlook "Cache read failed, falling back to store" f
    pure none

/-- Caches a value under a key for a number of seconds. -/
def keep (key : String) (value : Json) (ttl : Int) : Action Unit := do
  match ← Action.request (.cacheSet key value ttl) with
  | .ok () => pure ()
  | .error f => overlook "Cache write failed" f

/-- Drops the keys that match a pattern. -/
def forgetMatching (pattern : String) : Action Unit := do
  match ← Action.request (.cacheDeleteMatching pattern) with
  | .ok () => pure ()
  | .error f => overlook ("Cache invalidation failed for " ++ pattern) f

/-- Drops a key, and then the keys that match a pattern. When the first fails the second is not
tried. -/
def forget (key pattern : String) : Action Unit := do
  match ← Action.request (.cacheDelete key) with
  | .error f => overlook ("Cache invalidation failed for " ++ key) f
  | .ok () =>
    match ← Action.request (.cacheDeleteMatching pattern) with
    | .ok () => pure ()
    | .error f => overlook ("Cache invalidation failed for " ++ key) f

/-- Drops what a change of an entry can make stale: its own key and the lists of its kind. -/
def forgetEntry (c : Code k) : Action Unit := forget (Filter.entryKey c) (Filter.listPattern k)

/-- Drops what the end of an entry can make stale in the other kind. -/
def forgetReferences : Kind → Action Unit
  | .uom => forgetMatching (Filter.allPattern .parameter)
  | .parameter => pure ()

/-- What is read under a key: what the cached record says, or else what is behind the cache, which is
then cached by its record. -/
def readThrough {α : Type} (key : String) (inner : Action α) (render : α → Json)
    (read : Json → Except Fault α) (ttl : Int) : Action α := do
  match ← lookUp key with
  | some record => Action.ofExcept (read record)
  | none =>
    let a ← inner
    keep key (render a) ttl
    pure a

/-- The entry with a code. -/
def cachedFind (inner : Repository k) (ttl : Int) (c : Code k) : Action (Entry k) :=
  readThrough (Filter.entryKey c) (inner.find c) Record.ofEntry (Record.toEntry k) ttl

/-- A page and its total. A filter without a cache key is refused before anything is asked. -/
def cachedList (inner : Repository k) (ttl : Int) (f : Filter k) :
    Action (List (Entry k) × Int) := do
  let key ← Action.ofExcept f.listKey?
  readThrough key (inner.list f) (fun found => Record.ofPage found.1 found.2) (Record.toPage k) ttl

theorem cachedList_of_hasListKey {inner : Repository k} {f : Filter k} (h : f.hasListKey = true)
    (ttl : Int) : cachedList inner ttl f = readThrough f.listKey (inner.list f)
      (fun found => Record.ofPage found.1 found.2) (Record.toPage k) ttl := by
  rw [cachedList, Filter.listKey?, if_pos h]
  rfl

theorem cachedList_of_not_hasListKey {inner : Repository k} {f : Filter k}
    (h : ¬ f.hasListKey = true) (ttl : Int) :
    cachedList inner ttl f = Action.fail (.unexpected .tooManyDigits) := by
  rw [cachedList, Filter.listKey?, if_neg h]
  rfl

/-- A repository behind the cache. -/
def cached (inner : Repository k) (ttl : Int) : Repository k where
  create e := do inner.create e; forgetEntry e.code
  find := cachedFind inner ttl
  list := cachedList inner ttl
  update e := do inner.update e; forgetEntry e.code
  delete c := do inner.delete c; forgetEntry c; forgetReferences k
  contains := inner.contains

end CostCatalog.Repository
