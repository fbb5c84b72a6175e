import CostCatalog.Store.Failure
import CostCatalog.Store.Table

/-!
# The store

Two tables and the statements on them. A statement with its commit is one step: it happens whole or
not at all. A table can be gone, and then every statement on it fails.

A store may enforce the reference from parameters to units: then a parameter can only name a unit
that is there, and a unit that goes is cleared from the parameters that named it.
-/

namespace CostCatalog

/-! ## The store -/

/-- The store: its tables, where they are still there, and whether references are enforced. -/
structure Store where
  uoms : Option (Table .uom) := some .empty
  parameters : Option (Table .parameter) := some .empty
  enforces : Bool := false

namespace Store

/-- The name of a kind's table. -/
def tableName : Kind → String
  | .uom => "mst_uom"
  | .parameter => "mst_parameter"

/-- The store as it is when it cannot be reached: every statement fails, as on a table that is
gone. -/
def unreachable : Store := { uoms := none, parameters := none }

/-- The table of a kind. -/
def table? (s : Store) : (k : Kind) → Option (Table k)
  | .uom => s.uoms
  | .parameter => s.parameters

/-- The store with the table of a kind replaced. -/
def withTable (s : Store) : {k : Kind} → Table k → Store
  | .uom, t => { s with uoms := some t }
  | .parameter, t => { s with parameters := some t }

/-- The failure of a statement on a table that is gone. -/
def gone (k : Kind) : StoreFailure := .operational ("no such table: " ++ tableName k)

/-- Whether the references of a kind's rows can be looked at: not when they are enforced and the
table they point into is gone. -/
def canWrite (s : Store) : Kind → Bool
  | .uom => true
  | .parameter => !s.enforces || s.uoms.isSome

/-- Whether an entry may be stored: its unit is not enforced, or there. -/
def referenceHolds (s : Store) {k : Kind} (e : Entry k) : Bool :=
  !s.enforces ||
    match e.reference?, s.uoms with
    | none, _ => true
    | some u, some t => t.rows.any fun x => (Uom.code x).text == u
    | some _, none => false

/-- The table of a kind, or the failure of a statement that writes to it. -/
def writable (s : Store) (k : Kind) : Except StoreFailure (Table k) :=
  match s.table? k with
  | none => .error (gone k)
  | some t => if s.canWrite k then .ok t else .error (gone .uom)

/-- The table of a kind, or the failure of a statement that reads it. -/
def readable (s : Store) (k : Kind) : Except StoreFailure (Table k) :=
  match s.table? k with
  | none => .error (gone k)
  | some t => .ok t

/-- The failure of a statement that would leave a parameter without the unit it names. -/
def danglingReference : StoreFailure := .integrity "FOREIGN KEY constraint failed"

variable {k : Kind}

/-- Stores a new entry. -/
def insert (s : Store) (e : Entry k) : Except StoreFailure Store := do
  let t ← s.writable k
  match t.insert? e with
  | none => .error (.integrity ("UNIQUE constraint failed: " ++ tableName k))
  | some t => if s.referenceHolds e then .ok (s.withTable t) else .error danglingReference

/-- The entry with a code. -/
def find (s : Store) (c : Code k) : Except StoreFailure (Option (Entry k)) := do
  let t ← s.readable k
  .ok (t.find? c)

/-- The number of entries that a filter selects. -/
def count (s : Store) (f : Filter k) : Except StoreFailure Nat := do
  let t ← s.readable k
  .ok (t.selected f).length

/-- The greatest number of rows that a statement can skip, `2^63 - 1`. -/
def maxOffset : Nat := 0x7FFFFFFFFFFFFFFF

/-- The entries of a filter's page. -/
def page (s : Store) (f : Filter k) : Except StoreFailure (List (Entry k)) := do
  if maxOffset < f.page.offset then .error .integerTooLarge
  else
    let t ← s.readable k
    .ok (t.page f)

/-- Stores a change of an entry, and says whether there was a row to change. -/
def update (s : Store) (e : Entry k) : Except StoreFailure (Bool × Store) := do
  let t ← s.writable k
  if t.contains e.code then
    if s.referenceHolds e then .ok (true, s.withTable (t.replace e))
    else .error danglingReference
  else .ok (false, s)

/-- The store with a unit cleared from the parameters that name it, if references are enforced. -/
def clearReferences (s : Store) (uom : String) : Store :=
  if s.enforces then
    { s with
      parameters := s.parameters.map fun t =>
        t.mapRows (Parameter.clearUom uom) (Parameter.code_clearUom uom)
          fun _ h => Parameter.clearUom_isStored h uom }
  else s

/-- What the deletion of an entry does to the other table. -/
def afterDelete : {k : Kind} → Code k → Store → Store
  | .uom, c, s => s.clearReferences c.text
  | .parameter, _, s => s

/-- Deletes an entry, and says whether there was a row to delete. -/
def delete (s : Store) (c : Code k) : Except StoreFailure (Bool × Store) := do
  let t ← s.writable k
  if t.contains c then .ok (true, afterDelete c (s.withTable (t.erase c)))
  else .ok (false, s)

/-- Whether there is an entry with a code. -/
def contains (s : Store) (c : Code k) : Except StoreFailure Bool := do
  let t ← s.readable k
  .ok (t.contains c)

/-- Drops a table. Parameters whose references are enforced lose their units with the table of
units. -/
def drop (s : Store) : Kind → Store
  | .uom =>
    { s with
      uoms := none
      parameters := if s.enforces && s.uoms.isSome then
          s.parameters.map fun t => t.mapRows (fun p => { (p : Parameter) with uom := none })
            (fun _ => rfl) (fun _ h => Parameter.withUom_isStored h none)
        else s.parameters }
  | .parameter => { s with parameters := none }

end Store

end CostCatalog
