import CostCatalog.Cache.Basic

/-!
# Runs of a cache

The calls of one cache, one after the other, with the readings of the clock that are taken at them,
and the cache after all of them.
-/

namespace CostCatalog.Cache

/-- A call of a cache with JSON values, whose texts are of some type. -/
inductive Use (τ : Type) where
  /-- Keeps a value; the clock is read for the entries to be dropped, and for the end of the new
  one. -/
  | set (key : String) (value : Json τ) (ttl : Duration) (swept now : Float)
  | get (key : String) (now : Float)
  | delete (keys : List String)
  | deleteMatching (pattern : String)

namespace Use

variable {τ : Type}

/-- The readings of the clock at a call, in their order. -/
def readings : Use τ → List Float
  | .set _ _ _ swept now => [swept, now]
  | .get _ now => [now]
  | .delete _ => []
  | .deleteMatching _ => []

/-- The cache after a call. -/
def on [Textual τ] [DecidableEq τ] (c : Cache) : Use τ → Cache
  | .set key value ttl swept now => (c.set key (.json value) ttl now swept).2
  | .get key now => (c.getAs τ key now).2
  | .delete keys => c.delete keys
  | .deleteMatching pattern => (c.deleteMatching pattern).2

end Use

/-- The cache after some calls. -/
def after {τ : Type} [Textual τ] [DecidableEq τ] (c : Cache) (us : List (Use τ)) : Cache :=
  us.foldl Use.on c

end CostCatalog.Cache
