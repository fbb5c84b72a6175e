import CostCatalog.Program.Pool
import CostCatalog.Repository.Cached

/-!
# Calls of the repositories

A call as a value, so that one can speak of a sequence of calls to the repositories of both kinds
and of what the store looks like in between.
-/

namespace CostCatalog

/-- A call of the repository of a kind. -/
inductive Call where
  | create (k : Kind) (e : Entry k)
  | find (k : Kind) (c : Code k)
  | list (k : Kind) (f : Filter k)
  | update (k : Kind) (e : Entry k)
  | delete (k : Kind) (c : Code k)
  | contains (k : Kind) (c : Code k)

/-- What a call returns. -/
inductive Reply where
  | done
  | entry (k : Kind) (e : Entry k)
  | page (k : Kind) (entries : List (Entry k)) (total : Int)
  | present (b : Bool)
deriving DecidableEq

/-- The repositories of both kinds. -/
abbrev Repositories := (k : Kind) → Repository k

/-- The repositories over the store. -/
def Repositories.stored : Repositories := Repository.stored

/-- The repositories over the store behind the cache, each with its time to live. -/
def Repositories.cached (ttl : Kind → Int) : Repositories := fun k =>
  Repository.cached (Repository.stored k) (ttl k)

namespace Call

/-- A call made to some repositories. -/
def on (repos : Repositories) : Call → Action Reply
  | .create k e => do (repos k).create e; pure .done
  | .find k c => do pure (.entry k (← (repos k).find c))
  | .list k f => do
    let (entries, total) ← (repos k).list f
    pure (.page k entries total)
  | .update k e => do (repos k).update e; pure .done
  | .delete k c => do (repos k).delete c; pure .done
  | .contains k c => do pure (.present (← (repos k).contains c))

/-- The outcomes of calls made one after the other, each with the store after it. Every call comes
with the reading of the monotonic clock at which it is made. -/
def trace (repos : Repositories) : List (Float × Call) → World → List (Except Fault Reply × Store)
  | [], _ => []
  | (clock, call) :: calls, w =>
    let (outcome, w) := (call.on repos).perform { w with monotonic := clock }
    (outcome, w.store) :: trace repos calls w

end Call

/-- Calls made side by side to some repositories. -/
def Pool.ofCalls {ι : Type} (repos : Repositories) (calls : ι → Call) (w : World) :
    Pool ι (Except Fault Reply) := .ofActions (fun i => (calls i).on repos) w

end CostCatalog
