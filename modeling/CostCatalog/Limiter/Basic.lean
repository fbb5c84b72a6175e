import CostCatalog.Limiter.Bucket
import CostCatalog.Log.Basic

/-!
# The rate limiter

One bucket for each client, full when the client is first seen. Buckets that no request has touched
for a while are dropped, so that the limiter does not grow with every client ever seen.
-/

namespace CostCatalog

/-- A limiter: the bucket size and rate of every client, and the buckets, the oldest client
first. -/
structure Limiter (α : Type) where
  burst : α
  perSecond : α
  buckets : List (String × Bucket α) := []
deriving DecidableEq, Repr

namespace Limiter

variable {α : Type}

/-- The bucket of a client. -/
def find? (l : Limiter α) (client : String) : Option (Bucket α) :=
  (l.buckets.find? fun e => e.1 == client).map (·.2)

/-- The limiter with the bucket of a client replaced, or put at the end. -/
def put (l : Limiter α) (client : String) (b : Bucket α) : Limiter α :=
  if (l.find? client).isSome then
    { l with buckets := l.buckets.map fun e => if e.1 = client then (client, b) else e }
  else { l with buckets := l.buckets ++ [(client, b)] }

variable [Add α] [Sub α] [Mul α] [OfNat α 1] [LT α] [DecidableLT α] [LE α] [DecidableLE α]

/-- Whether a request of a client at `now` is let through, and the limiter after it. The bucket of a
client that has none is made first, at a reading of the clock of its own. -/
def allow (l : Limiter α) (client : String) (now : α) (made : α := now) : Bool × Limiter α :=
  let (admitted, b) := ((l.find? client).getD (.full l.burst l.perSecond made)).take now
  (admitted, l.put client b)

/-- Lets a request through or refuses it with a fault. -/
def check (l : Limiter α) (client : String) (now : α) (made : α := now) :
    Except Fault Unit × Limiter α :=
  let (admitted, l) := l.allow client now made
  (if admitted then .ok () else .error (.ofCause (.throttled client)), l)

/-- Whether a bucket has not been touched for `maxIdle` seconds. -/
def isStale (b : Bucket α) (maxIdle now : α) : Bool := b.lastRefill < now - maxIdle

/-- Drops the buckets that have not been touched for `maxIdle` seconds, and says how many there
were. -/
def cleanup (l : Limiter α) (maxIdle now : α) : Nat × Limiter α :=
  ((l.buckets.filter fun e => isStale e.2 maxIdle now).length,
    { l with buckets := l.buckets.filter fun e => !isStale e.2 maxIdle now })

end Limiter

/-! ## What is logged -/

/-- A client has used up its share. -/
def Limiter.refusalRecord (client : String) : LogRecord :=
  { level := .warning, speaker := .rateLimit
    message := "Rate limit exceeded for " ++ client
    extras := [("client", .str client), ("error_code", .str "RATE_LIMITED")] }

/-- Idle buckets were dropped. -/
def Limiter.sweepRecord (dropped : Nat) : LogRecord :=
  { level := .debug, speaker := .rateLimit
    message := "Dropped " ++ toString dropped ++ " idle rate limit buckets" }

/-- The sweeping has ended. -/
def Limiter.stopRecord : LogRecord :=
  { level := .info, speaker := .rateLimit, message := "Rate limit cleanup stopped" }

/-- A sweep, and what it logs: nothing when nothing was dropped. -/
def Limiter.sweep (l : Limiter Float) (maxIdle now : Float) : List LogRecord × Limiter Float :=
  let (n, l) := l.cleanup maxIdle now
  (if n = 0 then [] else [sweepRecord n], l)

/-- Sweeps one after the other at one reading of the clock, and the word at the end. -/
def Limiter.sweepTimes (l : Limiter Float) (maxIdle now : Float) :
    Nat → List LogRecord × Limiter Float
  | 0 => ([stopRecord], l)
  | n + 1 =>
    let (records, l) := l.sweep maxIdle now
    let (more, l) := sweepTimes l maxIdle now n
    (records ++ more, l)

/-- The sweeping task, given some turns at one reading of the clock and then stopped. In its first
turn it goes to sleep, in each other one it sweeps; without a turn it never came to run and ends
without a word. -/
def Limiter.sweeper (l : Limiter Float) (maxIdle now : Float) :
    Nat → List LogRecord × Limiter Float
  | 0 => ([], l)
  | n + 1 => l.sweepTimes maxIdle now n

end CostCatalog
