import CostCatalog.Fault.Basic

/-!
# Deadlines

A piece of work that stops now and then to let others run, and a limit on the time it may take.
When the limit passes, the work is cancelled at the place where it waits; it may clean up, and may
even come to a result of its own, which then counts.

Time is counted in pauses: how many of them fit into a limit is the loop's affair and a parameter
here. A limit that is spent from the start cancels the work before its first step.
-/

namespace CostCatalog

/-- A piece of work, as the loop that runs it sees it. -/
inductive Work (α : Type) where
  /-- Done, with a result or a fault. -/
  | done (result : Except Fault α)
  /-- Writes a line of its diary and goes on. -/
  | note (line : String) (rest : Work α)
  /-- Lets others run and goes on; `cancelled` is what it does when it is cancelled there. -/
  | pause (cancelled rest : Work α)
  /-- Waits for ever; `cancelled` is what it does when it is cancelled there. -/
  | hang (cancelled : Work α)

/-- The outcome of work that ran: its result, unless it still waits, whether it was cancelled, and
its diary. -/
structure WorkResult (α : Type) where
  result : Option (Except Fault α)
  cancelled : Bool
  diary : List String

/-- The fault of work that passed its limit. -/
def Fault.pastDeadline (operation : String) (limit : Option Duration) : Fault :=
  .ofCause (.timeout operation limit)

/-- Whether a fault is a passing of time, the work's own or that of its limit. -/
def Fault.isTimeout : Fault → Bool
  | .unexpected (.raised .timeout _) => true
  | _ => false

/-- A result as the caller of the work sees it: every passing of time is reported as that of the
limit. -/
def underLimit {α : Type} (operation : String) (limit : Option Duration) :
    Except Fault α → Except Fault α
  | .ok a => .ok a
  | .error f => if f.isTimeout then .error (.pastDeadline operation limit) else .error f

/-- What became of work, for the caller who set the limit. Cancelled work that passes the
cancellation on is past its limit; work that ends in any other way has its own outcome. -/
def WorkResult.outcome {α : Type} (operation : String) (limit : Option Duration)
    (w : WorkResult α) : Option (Except Fault α) :=
  w.result.map fun
    | .error (.unexpected (.raised .cancelled text)) =>
      if w.cancelled then .error (.pastDeadline operation limit)
      else .error (.unexpected (.raised .cancelled text))
    | result => underLimit operation limit result

namespace Work

variable {α : Type}

/-- The fault by which waiting work learns that it is cancelled. -/
def cancellation : Fault := .unexpected (.raised .cancelled "")

/-- Runs work to its end. With a `budget`, the work is cancelled at the pause for which none is
left, or where it hangs; it is cancelled at most once. -/
def run (budget : Option Nat) : Work α → WorkResult α
  | .done r => ⟨some r, false, []⟩
  | .note line rest => let w := run budget rest; { w with diary := line :: w.diary }
  | .pause cancelled rest =>
    match budget with
    | none => run none rest
    | some 0 => { run none cancelled with cancelled := true }
    | some (n + 1) => run (some n) rest
  | .hang cancelled =>
    match budget with
    | none => ⟨none, false, []⟩
    | some _ => { run none cancelled with cancelled := true }

/-- Runs work under a limit into which `pauses` of its pauses fit. -/
def within (operation : String) (limit : Option Duration) (pauses : Nat) (w : Work α) :
    Option (Except Fault α) × List String :=
  match limit with
  | some d =>
    if d.isSpent then (some (.error (.pastDeadline operation limit)), [])
    else
      let r := run (some pauses) w
      (r.outcome operation limit, r.diary)
  | none =>
    let r := run none w
    (r.outcome operation limit, r.diary)

end Work

end CostCatalog
