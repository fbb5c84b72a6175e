import CostCatalog.Program.Mishap

/-!
# Breakdowns of the cache

A run in which certain calls of the cache fail, whenever they are made, and the requests that it
makes. A mishap stands at a place in the run; a breakdown is of a call, be it made or not, and so
it can be told afterwards which calls failed and which were never tried.
-/

namespace CostCatalog

/-- Which calls of the cache fail, each with what the cache says of its failure. -/
abbrev Breakdown := Request → Option String

/-- The reply to a request under a breakdown, and the world after it. A call that fails has no
effect; a request that is no call of the cache does not fail. -/
def World.answerUnder (w : World) (b : Breakdown) (r : Request) : r.Reply × World :=
  match (b r).bind r.failed with
  | some reply => (reply, w)
  | none => w.answer r

/-- A program run alone under a breakdown: its result, the requests it has made, the first one
first, and the world after it. -/
def Program.runUnder {α : Type} (b : Breakdown) : Program α → World → α × List Request × World
  | .done a, w => (a, [], w)
  | .ask r next, w =>
    let (reply, w) := w.answerUnder b r
    let (a, made, w) := (next reply).runUnder b w
    (a, r :: made, w)

/-- An action run alone under a breakdown. -/
def Action.performUnder {α : Type} (b : Breakdown) (a : Action α) (w : World) :
    Except Fault α × List Request × World :=
  Program.runUnder b (ExceptT.run a) w

end CostCatalog
