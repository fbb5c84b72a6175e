import CostCatalog.Log.Basic

/-!
# Log lines

A record as one line of JSON: time, level, speaker and message, then the extra fields that have a
value, then the fault. What a line is made from is plain text throughout, `LogContent`: a level, a
speaker and a fault are in it only by what they are called, so whatever else a record is made of
can be written in the same way.

The texts of a content are of any type of texts; those of a record are strings.
-/

namespace CostCatalog

/-! ## What a line is made from -/

/-- What is written of a record, apart from the time. -/
structure LogContent (τ : Type := String) where
  level : τ
  logger : τ
  message : τ
  extras : List (String × Json τ) := []
  exception : Option τ := none

namespace LogContent

variable {τ : Type}

/-- The value of an extra field, unless it is `null`. -/
def extra? (c : LogContent τ) (name : String) : Option (Json τ) :=
  match c.extras.lookup name with
  | none | some .null => none
  | some v => some v

/-- The extra fields that are shown: those that have a value. -/
def shownExtras (c : LogContent τ) : List (String × Json τ) :=
  extraFields.filterMap fun name => (c.extra? name).map fun v => (name, v)

/-- The members of a line. -/
def members [Textual τ] (now : Timestamp) (c : LogContent τ) : List (String × Json τ) :=
  [("timestamp", .str (Textual.ofString now.toIso)), ("level", .str c.level),
    ("logger", .str c.logger), ("message", .str c.message)] ++ c.shownExtras ++
    (c.exception.map fun text => ("exception", Json.str text)).toList

/-- The object that is written. -/
def toJson [Textual τ] (now : Timestamp) (c : LogContent τ) : Json τ := .ofFields (c.members now)

/-- The line that is written when the clock reads `now`. There is none when an integer among the
extra fields has too many digits for a text, or when one of them is nested too deep. -/
def line? [Textual τ] (now : Timestamp) (c : LogContent τ) (depth : Json.Depth := {}) : Option τ :=
  if (c.toJson now).isWritable depth then some (c.toJson now).print else none

end LogContent

/-! ## Records -/

namespace LogRecord

/-- Where the names of known faults live, as the log shows them. -/
def faultModule : Fault → String
  | .known .. => "costing_master.core.errors."
  | .unexpected (.raised .cancelled _) => "asyncio.exceptions."
  | .unexpected (.illFormed _) => "pydantic_core._pydantic_core."
  | .unexpected _ => ""

/-- A fault in the log: its name, and what it says if it says anything. -/
def faultText (f : Fault) : String :=
  let name := faultModule f ++ f.title
  if f.message = "" then name else name ++ ": " ++ f.message

/-- What is written of a record. -/
def content (r : LogRecord) : LogContent where
  level := r.level.name
  logger := r.speaker.text
  message := r.message
  extras := r.extras
  exception := r.fault.map faultText

/-- The extra fields of a record that are shown. -/
def shownExtras (r : LogRecord) : List (String × Json) := r.content.shownExtras

/-- What goes to the log for a record when the clock reads `now`: its line, or nothing if it has
none. -/
def line (now : Timestamp) (r : LogRecord) : String := (r.content.line? now).getD ""

end LogRecord

end CostCatalog
