import CostCatalog.Timestamp.Iso

/-!
# Timestamps on the wire

The form in which responses show a timestamp: read off a clock of UTC, cut down to the second and
marked `Z`. The year is written without filling zeros.
-/

namespace CostCatalog.Timestamp

/-- The characters of a reading of UTC, its microseconds left out. -/
def rfc3339Chars (t : Timestamp) : List Char :=
  let d := t.date
  Nat.toDigits 10 d.year ++ '-' :: (padded 2 d.month ++ '-' :: (padded 2 d.day ++
    'T' :: (clockChars t.hour t.minute t.second ++ ['Z'])))

/-- The wire text of a reading; nothing when UTC puts it outside the calendar. A reading without an
offset is taken for one of UTC. -/
def toRfc3339? (t : Timestamp) : Option String :=
  t.toUtc?.map fun u => String.ofList u.rfc3339Chars

end CostCatalog.Timestamp
