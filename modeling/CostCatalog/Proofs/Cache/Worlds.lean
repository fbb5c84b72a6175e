import CostCatalog.Program.World
import CostCatalog.Proofs.Cache.Slots

/-!
# Worlds with a cache in memory

How a world replies to the calls of its cache when none of them is down: as the cache itself does.
-/

namespace CostCatalog

/-- The slots of a world's cache. -/
def World.slots (w : World) : List Cache.Slot :=
  match w.cache with
  | .none => []
  | .memory c => c.slots

/-- The cache of a world is in memory, and none of its calls is down. -/
structure World.Holds (w : World) (c : Cache) : Prop where
  cache : w.cache = .memory c
  up : w.down = []

namespace World.Holds

variable {w : World} {c : Cache}

theorem slots (h : w.Holds c) : w.slots = c.slots := by
  rw [World.slots, h.cache]

/-- The log and the store may change under a cache. -/
theorem logged (h : w.Holds c) (s : Store) (records : List LogRecord) :
    { w with store := s, records }.Holds c := ⟨h.cache, h.up⟩

theorem onCache {α : Type} (h : w.Holds c) (call : CacheCall) (absent : α)
    (f : Cache → Except Fault α × Cache) :
    w.onCache call absent f = ((f c).1, { w with cache := .memory (f c).2 }) := by
  rw [World.onCache, h.up, if_neg List.not_mem_nil, h.cache]

theorem answer_get (h : w.Holds c) (key : String) :
    w.answer (.cacheGet key) =
      ((c.get key w.monotonic).1, { w with cache := .memory (c.get key w.monotonic).2 }) :=
  h.onCache _ _ _

theorem answer_set (h : w.Holds c) (key : String) (v : Json) (ttl : Int) :
    w.answer (.cacheSet key v ttl) = ((c.set key (.json v) (.whole ttl) w.monotonic).1,
      { w with cache := .memory (c.set key (.json v) (.whole ttl) w.monotonic).2 }) :=
  h.onCache _ _ _

theorem answer_delete (h : w.Holds c) (key : String) :
    w.answer (.cacheDelete key) = (.ok (), { w with cache := .memory (c.delete [key]) }) :=
  h.onCache .delete () fun c => (.ok (), c.delete [key])

theorem answer_deleteMatching (h : w.Holds c) (pattern : String) :
    ∃ records, w.answer (.cacheDeleteMatching pattern) =
      (.ok (), { w with cache := .memory (c.deleteMatching pattern).2, records }) := by
  simp only [answer, deleteMatching, h.onCache]
  split
  · exact ⟨w.records, rfl⟩
  · exact ⟨_, rfl⟩

end World.Holds

end CostCatalog
