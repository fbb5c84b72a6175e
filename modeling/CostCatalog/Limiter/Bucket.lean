/-!
# Token buckets

A bucket holds up to `capacity` tokens and gains `rate` of them a second; a request takes one, or
is refused when there is none. The arithmetic is a parameter: the service runs on doubles, and the
laws of buckets speak of exact numbers.
-/

namespace CostCatalog

/-- A bucket of tokens. -/
structure Bucket (α : Type) where
  capacity : α
  rate : α
  tokens : α
  lastRefill : α
deriving DecidableEq, Repr

namespace Bucket

variable {α : Type}

/-- A full bucket. -/
def full (capacity rate now : α) : Bucket α := ⟨capacity, rate, capacity, now⟩

variable [Add α] [Sub α] [Mul α] [OfNat α 1] [LT α] [DecidableLT α] [LE α] [DecidableLE α]

/-- The tokens of a bucket with what it has gained by `now`, never above its capacity. When the
clock has gone back, the gain is negative. -/
def refilled (b : Bucket α) (now : α) : α :=
  let t := b.tokens + (now - b.lastRefill) * b.rate
  if t < b.capacity then t else b.capacity

/-- Whether a request at `now` is let through, and the bucket after it. -/
def take (b : Bucket α) (now : α) : Bool × Bucket α :=
  let t := b.refilled now
  if 1 ≤ t then (true, { b with tokens := t - 1, lastRefill := now })
  else (false, { b with tokens := t, lastRefill := now })

end Bucket

end CostCatalog
