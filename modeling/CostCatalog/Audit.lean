import CostCatalog.Fault.Basic

/-!
# Audit trail

Who made an entry and who changed it last, and when. The time of a change is the clock's, unless
the clock has not advanced past the last time on record: then it is one microsecond after that one,
so that times of change rise strictly.
-/

namespace CostCatalog

/-- The audit fields of an entry. -/
structure Audit where
  createdAt : Option Timestamp
  createdBy : String
  updatedAt : Option Timestamp := none
  updatedBy : Option String := none
deriving DecidableEq

namespace Audit

/-- The last time on record. -/
def latest (a : Audit) : Option Timestamp := a.updatedAt.orElse fun _ => a.createdAt

/-- The time of a change made when the clock reads `now`, the last one on record being
`previous`. -/
def nextTime (now : Timestamp) (previous : Option Timestamp) : Except Fault Timestamp :=
  match previous with
  | none => .ok now
  | some p =>
    match now.le? p with
    | none => .error (.unexpected .incomparable)
    | some false => .ok now
    | some true =>
      match p.add? 1 with
      | some t => .ok t
      | none => .error (.unexpected .beyondCalendar)

/-- The trail of a new entry. -/
def start (actor : String) (now : Timestamp) : Audit :=
  { createdAt := some now, createdBy := actor }

/-- The trail after a change. -/
def stamp (actor : String) (now : Timestamp) (a : Audit) : Except Fault Audit := do
  let t ← nextTime now a.latest
  .ok { a with updatedAt := some t, updatedBy := some actor }

end Audit

end CostCatalog
