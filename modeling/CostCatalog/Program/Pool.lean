import CostCatalog.Program.World
import Mathlib.Logic.Function.Basic

/-!
# Programs side by side

A pool of programs that share one world. A schedule says whose turn it is, again and again; at each
turn one request is answered, and what the program does up to its next request goes with it. So two
programs are interleaved at their requests, in any order that a schedule can say.
-/

namespace CostCatalog

/-- Programs that share a world. -/
structure Pool (ι α : Type) where
  programs : ι → Program α
  world : World

/-- A turn of a schedule: whose it is, and what the two clocks read at it. -/
structure Turn (ι : Type) where
  who : ι
  wall : Timestamp
  monotonic : Float

/-- The world with its clocks set to a turn's readings. -/
def World.clocked {ι : Type} (w : World) (t : Turn ι) : World :=
  { w with wall := t.wall, monotonic := t.monotonic }

namespace Pool

variable {ι α : Type}

/-- Every program is done. -/
def Finished (p : Pool ι α) : Prop := ∀ i, ∃ a, p.programs i = .done a

/-- Actions side by side, before their first turn. -/
def ofActions (actions : ι → Action α) (w : World) : Pool ι (Except Fault α) where
  programs i := ExceptT.run (actions i)
  world := w

variable [DecidableEq ι]

/-- One turn: the next request of a program is answered. A program that is done stays so. -/
def step (p : Pool ι α) (t : Turn ι) : Pool ι α :=
  match p.programs t.who with
  | .done _ => p
  | .ask r next =>
    let (reply, world) := (p.world.clocked t).answer r
    { programs := Function.update p.programs t.who (next reply), world }

/-- The turns of a schedule, one after the other. -/
def run (p : Pool ι α) (turns : List (Turn ι)) : Pool ι α := turns.foldl step p

end Pool

end CostCatalog
