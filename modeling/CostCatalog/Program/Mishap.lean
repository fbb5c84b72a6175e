import CostCatalog.Program.World

/-!
# Mishaps of the cache

What can go wrong with the cache while a program runs. At each request some texts that it holds may
have been spoilt, so that they are not JSON any longer; and a request that is a call of the cache may
fail instead of taking effect. A schedule says what goes wrong at which request, and nothing does once
the schedule is at its end.
-/

namespace CostCatalog

/-- What goes wrong with the cache at a request. -/
structure Mishap where
  /-- What the cache says of its failure, if the request is a call of it and fails. -/
  failure : Option String := none
  /-- The full keys under which a text has been spoilt, each with what stands there instead. -/
  spoilt : List (String × String) := []
  /-- None of these texts is JSON, however deep arrays and objects may be nested. -/
  unreadable : ∀ m ∈ spoilt, ∀ depth, ∃ e, Json.parse m.2 depth = .error e := by simp

/-- The fault of a call of the cache. -/
def CacheCall.failed (c : CacheCall) (summary : String) : Fault := .ofCause (.cache c.text summary)

/-- The reply to a call of the cache that fails; other requests do not fail so. -/
def Request.failed (summary : String) : (r : Request) → Option r.Reply
  | .cacheGet _ => some (.error (CacheCall.get.failed summary))
  | .cacheSet .. => some (.error (CacheCall.set.failed summary))
  | .cacheDelete _ => some (.error (CacheCall.delete.failed summary))
  | .cacheDeleteMatching _ => some (.error (CacheCall.deleteMatching.failed summary))
  | _ => none

/-- The cache with another text under a full key, if there is one. -/
def Cache.spoil (c : Cache) (key text : String) : Cache :=
  { c with slots := c.slots.map fun s => if s.key = key then { s with payload := text } else s }

namespace World

/-- The world with texts of its cache spoilt. -/
def spoil (w : World) (texts : List (String × String)) : World :=
  match w.cache with
  | .none => w
  | .memory c => { w with cache := .memory (texts.foldl (fun c m => c.spoil m.1 m.2) c) }

/-- The reply to a request at which something goes wrong, and the world after it. -/
def answerAmid (w : World) (m : Mishap) (r : Request) : r.Reply × World :=
  match m.failure.bind r.failed with
  | some reply => (reply, w.spoil m.spoilt)
  | none => (w.spoil m.spoilt).answer r

end World

/-- A world and what is to go wrong in it, request by request. -/
structure Prospect where
  world : World
  ahead : List Mishap := []

/-- The reply to a request, and what lies ahead after it. -/
def Prospect.answer (p : Prospect) (r : Request) : r.Reply × Prospect :=
  match p.ahead with
  | [] =>
    let (reply, world) := p.world.answer r
    (reply, { world })
  | m :: ahead =>
    let (reply, world) := p.world.answerAmid m r
    (reply, { world, ahead })

/-- A program run alone while things go wrong. -/
def Program.runAmid {α : Type} : Program α → Prospect → α × Prospect
  | .done a, p => (a, p)
  | .ask r next, p =>
    let (reply, p) := p.answer r
    (next reply).runAmid p

/-- An action run alone while things go wrong. -/
def Action.performAmid {α : Type} (a : Action α) (p : Prospect) : Except Fault α × Prospect :=
  Program.runAmid (ExceptT.run a) p

end CostCatalog
