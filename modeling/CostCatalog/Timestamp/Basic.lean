import CostCatalog.Calendar.Date

/-!
# Timestamps

A reading of a wall clock to the microsecond, with or without its offset from UTC. Two readings
with offsets are compared by the instants they denote. A reading without an offset denotes no
instant, so it is comparable only with another such reading.
-/

namespace CostCatalog

/-- The microseconds of a day. -/
def microsPerDay : Nat := 86400000000

/-- The number of microseconds from the start of year 1 to the end of year 9999. -/
def wallLimit : Nat := Calendar.dayCount * microsPerDay

/-- A wall-clock reading: the microseconds since the start of year 1 that the clock shows, and the
offset by which it is ahead of UTC, if known. Offsets are less than a day either way. -/
structure Timestamp where
  wall : Nat
  offset : Option Int
  wall_lt : wall < wallLimit := by decide
  offset_lt : ∀ o ∈ offset, o.natAbs < microsPerDay := by decide
deriving DecidableEq

namespace Timestamp

/-- The first reading of the calendar, in UTC. -/
def epoch : Timestamp :=
  ⟨0, some 0, by decide, by intro o h; cases h; decide⟩

instance : Inhabited Timestamp := ⟨epoch⟩

/-- Whether the offset is known. -/
def isAware (t : Timestamp) : Bool := t.offset.isSome

/-- The microseconds of UTC since the start of year 1; without an offset, those of the wall. -/
def instant (t : Timestamp) : Int := t.wall - t.offset.getD 0

/-- The reading with a wall time and an offset, if the wall time is within the calendar. -/
def ofWall? (wall : Int) (like : Timestamp) : Option Timestamp :=
  if h : 0 ≤ wall ∧ wall.toNat < wallLimit then
    some ⟨wall.toNat, like.offset, h.2, like.offset_lt⟩
  else none

/-- The reading moved by a number of microseconds, offset kept; nothing beyond the calendar. -/
def add? (t : Timestamp) (micros : Int) : Option Timestamp := ofWall? (t.wall + micros) t

/-- The same wall time with UTC for an offset. -/
def assumeUtc (t : Timestamp) : Timestamp :=
  ⟨t.wall, some 0, t.wall_lt, by intro o h; cases h; decide⟩

/-- UTC for an unknown offset; a known one stays. -/
def ensureUtc (t : Timestamp) : Timestamp := if t.isAware then t else t.assumeUtc

/-- The same instant read off a clock of UTC; nothing beyond the calendar. A reading without an
offset is taken for one of UTC. -/
def toUtc? (t : Timestamp) : Option Timestamp := ofWall? t.instant epoch

/-- Whether one reading is at or before another; nothing when only one of them has an offset. -/
def le? (a b : Timestamp) : Option Bool :=
  if a.isAware = b.isAware then some (a.instant ≤ b.instant) else none

/-! ## Fields -/

/-- The day of the wall time. -/
def date (t : Timestamp) : Calendar.Date := Calendar.Date.ofNumber (t.wall / microsPerDay)

/-- The hour of the wall time. -/
def hour (t : Timestamp) : Nat := t.wall % microsPerDay / 3600000000

/-- The minute of the wall time. -/
def minute (t : Timestamp) : Nat := t.wall / 60000000 % 60

/-- The second of the wall time. -/
def second (t : Timestamp) : Nat := t.wall / 1000000 % 60

/-- The microsecond of the wall time. -/
def microsecond (t : Timestamp) : Nat := t.wall % 1000000

end Timestamp

end CostCatalog
