import CostCatalog.Limiter.Basic

/-!
# Runs of buckets and limiters

The requests to one bucket, and the uses of a limiter by any clients, one after the other: what each
of them is told, and what is left after all of them. A use comes with the readings of the clock that
are taken at it.
-/

namespace CostCatalog

section Runs

variable {α : Type} [Add α] [Sub α] [Mul α] [OfNat α 1] [LT α] [DecidableLT α] [LE α] [DecidableLE α]

/-! ## One bucket -/

namespace Bucket

/-- The requests at some times, each with whether it is let through. -/
def transcript : Bucket α → List α → List (α × Bool)
  | _, [] => []
  | b, now :: times => (now, (b.take now).1) :: transcript (b.take now).2 times

/-- The bucket after requests at some times. -/
def after : Bucket α → List α → Bucket α
  | b, [] => b
  | b, now :: times => after (b.take now).2 times

end Bucket

/-! ## A limiter -/

namespace Limiter

/-- A use of a limiter. -/
inductive Use (α : Type) where
  /-- Asks whether a request of a client is let through; the clock is read when a bucket has to be
  made, and for the request. -/
  | allow (client : String) (made now : α)
  /-- Asks the same and takes a refusal for a fault. -/
  | check (client : String) (made now : α)
  /-- Drops the buckets that have not been touched for so many seconds. -/
  | cleanup (maxIdle now : α)

/-- What a use of a limiter is told. -/
inductive Answer where
  | allowed (admitted : Bool)
  | checked (outcome : Except Fault Unit)
  | dropped (count : Nat)

namespace Use

/-- The client whose request it is; none for a cleanup. -/
def client? : Use α → Option String
  | .allow client _ _ => some client
  | .check client _ _ => some client
  | .cleanup _ _ => none

/-- The last reading of the clock at a use. -/
def now : Use α → α
  | .allow _ _ now => now
  | .check _ _ now => now
  | .cleanup _ now => now

/-- The readings of the clock at a use, in their order. -/
def readings : Use α → List α
  | .allow _ made now => [made, now]
  | .check _ made now => [made, now]
  | .cleanup _ now => [now]

/-- What a use is told, and the limiter after it. -/
def on (l : Limiter α) : Use α → Answer × Limiter α
  | .allow client made now =>
    let (admitted, l) := l.allow client now made
    (.allowed admitted, l)
  | .check client made now =>
    let (outcome, l) := l.check client now made
    (.checked outcome, l)
  | .cleanup maxIdle now =>
    let (count, l) := l.cleanup maxIdle now
    (.dropped count, l)

end Use

/-- Whether an answer lets a request through. -/
def Answer.admits : Answer → Bool
  | .allowed admitted => admitted
  | .checked (.ok _) => true
  | .checked (.error _) => false
  | .dropped _ => false

/-- The uses of a limiter in a run, each with what it is told. -/
def transcript : Limiter α → List (Use α) → List (Use α × Answer)
  | _, [] => []
  | l, u :: us => (u, (u.on l).1) :: transcript (u.on l).2 us

/-- The limiter after a run. -/
def after : Limiter α → List (Use α) → Limiter α
  | l, [] => l
  | l, u :: us => after (u.on l).2 us

/-- How many requests of a client are let through in a run from one reading of the clock to
another. -/
def admissions (l : Limiter α) (us : List (Use α)) (client : String) (first last : α) : Nat :=
  (l.transcript us).countP fun (u, answer) =>
    u.client? = some client && first ≤ u.now && u.now ≤ last && answer.admits

end Limiter

end Runs

end CostCatalog
