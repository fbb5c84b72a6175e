import CostCatalog.Deadline
import CostCatalog.Program.World

/-!
# Actions under a deadline

An action waits for the reply to each of its requests to the store and to the cache. A deadline that
passes meanwhile cancels it there, and it goes on no further. What it waits for may have been carried
out all the same: what the store has applied stays applied.
-/

namespace CostCatalog

/-- Whether the reply to a request is waited for. The clock and the log are at hand. -/
def Request.waits : Request → Bool
  | .now => false
  | .log _ => false
  | .mark _ _ => false
  | _ => true

/-- Where a deadline passes: after how many waits, and whether the request that is waited for at the
time is carried out all the same. -/
structure Cut where
  waits : Nat
  applied : Bool

/-- A program run alone until a deadline passes: its result, unless it was cancelled, and the world
after it. -/
def Program.runUntil {α : Type} : Program α → Cut → World → Option α × World
  | .done a, _, w => (some a, w)
  | .ask r next, cut, w =>
    let (reply, w') := w.answer r
    if r.waits then
      match cut.waits with
      | 0 => (none, if cut.applied then w' else w)
      | n + 1 => (next reply).runUntil { cut with waits := n } w'
    else (next reply).runUntil cut w'

/-- An action run alone under a limit that passes at a cut, if the action is not done by then. A limit
that is spent from the start cancels the action before its first request. -/
def Action.within {α : Type} (operation : String) (limit : Option Duration) (cut : Cut)
    (a : Action α) (w : World) : Except Fault α × World :=
  match limit with
  | none =>
    let (result, w) := a.perform w
    (underLimit operation limit result, w)
  | some d =>
    if d.isSpent then (.error (.pastDeadline operation limit), w)
    else
      match Program.runUntil (ExceptT.run a) cut w with
      | (some result, w) => (underLimit operation limit result, w)
      | (none, w) => (.error (.pastDeadline operation limit), w)

end CostCatalog
