import CostCatalog.Migration.Statement

/-!
# Revisions

The history of the tables: each revision adds one table. A database is at the empty history or at
one of the revisions, so where it is, is the number of revisions that it has. Going up applies the
revisions in between in their order; going down takes them back in the opposite order.

A place in the history is named by a revision, by enough of the front of its name to be the only
one, by `head` or `base`, or by a number of steps from such a place or from where the database is.
-/

namespace CostCatalog.Migration

/-- A revision: its name, and the table that it adds. -/
structure Revision where
  name : String
  table : TableDefinition
deriving DecidableEq, Repr

/-- The history, the oldest revision first. -/
def history : List Revision :=
  [⟨"001_create_mst_uom", uomTable⟩, ⟨"002_create_mst_parameter", parameterTable⟩]

/-- Why there is no script. -/
inductive MigrationError where
  /-- The revisions that were asked for cannot be found, or do not lie as the direction needs. -/
  | revision
  /-- More than one colon parts the revisions. -/
  | extraColon
  /-- The address is none. -/
  | address
  /-- The address names a database of a kind that is not known. -/
  | dialect
  /-- The dialect has no words for a statement. -/
  | inexpressible
deriving DecidableEq, Repr

/-- The direction in which a database is moved along the history. -/
inductive Direction where
  | up
  | down
deriving DecidableEq, Repr

/-! ## Places -/

/-- The place after the last revision. -/
def headPlace : Nat := history.length

/-- The name of the revision that a place is at, empty at the start. -/
def nameAt (place : Nat) : String :=
  match place with
  | 0 => ""
  | n + 1 => ((history[n]?).map Revision.name).getD ""

/-- The places of the revisions whose names start with a text. -/
def placesStarting (stem : String) : List Nat :=
  (List.range history.length).filterMap fun i =>
    if stem.toList.isPrefixOf (nameAt (i + 1)).toList then some (i + 1) else none

/-- The place that a word names. -/
def placeOf? (word : String) : Option Nat :=
  if word = "base" then some 0
  else if word = "head" ∨ word = "heads" then some headPlace
  else if word = "" then none
  else match placesStarting word with
    | [place] => some place
    | _ => none

/-- A number of steps from a place, if they do not leave the history. -/
def steps? (place : Nat) (n : Int) : Option Nat :=
  let target := (place : Int) + n
  if 0 ≤ target ∧ target ≤ headPlace then some target.toNat else none

/-- A word in front of a signed number, the word empty when there is none. -/
def relative? (target : String) : Option (String × Int) :=
  let isWord (c : Char) : Bool := c.isAlphanum || c == '_'
  let word := target.toList.takeWhile isWord
  match target.toList.dropWhile isWord with
  | sign :: rest =>
    let digits := rest.takeWhile Char.isDigit
    if (sign = '+' ∨ sign = '-') ∧ !digits.isEmpty then
      let n : Int := digits.foldl (fun n c => 10 * n + (c.toNat - '0'.toNat)) 0
      some (String.ofList word, if sign = '-' then -n else n)
    else none
  | [] => none

/-- The place that a target names to a database at `current`. Without a word in front, steps count
from there, and they must lead in the direction of the move. -/
def target? (direction : Direction) (current : Nat) (target : String) : Option Nat :=
  match relative? target with
  | none => placeOf? target
  | some ("", n) =>
    match direction with
    | .up => if 0 < n then steps? current n else none
    | .down => if n < 0 then steps? current n else none
  | some (word, n) => (placeOf? word).bind fun place => steps? place n

/-! ## Scripts -/

/-- The statements that add a revision's table. -/
def Revision.add (d : Dialect) (r : Revision) : List Statement :=
  .createTable r.table ::
    (if d = .postgresql then
      (r.table.comment.map fun c => Statement.commentTable r.table.name c).toList ++
        r.table.columns.filterMap fun c => c.comment.map (.commentColumn r.table.name c.name)
    else []) ++
    r.table.indexes.map (.createIndex r.table.name)

/-- The statements that take a revision's table back. -/
def Revision.remove (r : Revision) : List Statement :=
  r.table.indexes.reverse.map (fun i => .dropIndex i.name) ++ [.dropTable r.table.name]

/-- The statements that move a database from one place up to the next. The first move of all makes
the table of versions. -/
def stepUp (d : Dialect) (place : Nat) : List Statement :=
  match history[place]? with
  | none => []
  | some r =>
    (if place = 0 then [.createTable versionTable] else []) ++
      .remark ("Running upgrade " ++ nameAt place ++ " -> " ++ r.name) ::
      (r.add d ++
        [if place = 0 then .insertVersion r.name else .updateVersion (nameAt place) r.name])

/-- The statements that move a database to a place from the next one. -/
def stepDown (place : Nat) : List Statement :=
  match history[place]? with
  | none => []
  | some r =>
    .remark ("Running downgrade " ++ r.name ++ " -> " ++ nameAt place) ::
      (r.remove ++
        [if place = 0 then .deleteVersion r.name else .updateVersion r.name (nameAt place)])

/-- The places between two, the lower one included. -/
def placesBetween (low high : Nat) : List Nat := (List.range (high - low)).map (low + ·)

/-- The statements that move a database from one place to another. Up to a place that is not above,
nothing needs to be done; down to a place above cannot be. -/
def moves (d : Dialect) (direction : Direction) (start target : Nat) :
    Except MigrationError (List Statement) :=
  match direction with
  | .up => .ok ((placesBetween start target).flatMap (stepUp d))
  | .down =>
    if start < target then .error .revision
    else .ok ((placesBetween target start).reverse.flatMap stepDown)

/-- The statements of a move, in one transaction where the dialect has those. -/
def inTransaction (d : Dialect) (script : List Statement) : List Statement :=
  match d with
  | .postgresql => .openTransaction :: (script ++ [.commit])
  | .sqlite => script

/-- The start and the target of a move: two revisions with a colon between them, or, for a move up,
the target alone, from the empty history. -/
def range (direction : Direction) (revision : String) : Except MigrationError (String × String) :=
  match revision.splitOn ":" with
  | [target] =>
    match direction with
    | .up => .ok ("base", target)
    | .down => .error .revision
  | [start, target] => .ok (start, target)
  | _ => .error .extraColon

/-- The script that moves a database along the history. -/
def script (d : Dialect) (direction : Direction) (revision : String) :
    Except MigrationError (List String) := do
  let (start, target) ← range direction revision
  let some start := placeOf? start | .error .revision
  let some target := target? direction start target | .error .revision
  match scriptLines? d (inTransaction d (← moves d direction start target)) with
  | some lines => .ok lines
  | none => .error .inexpressible

/-- The dialect of the database at an address: what stands in front of a colon and two slashes, up
to a plus sign. -/
def Dialect.ofUrl (url : String) : Except MigrationError Dialect :=
  match url.splitOn "://" with
  | scheme :: _ :: _ =>
    match (scheme.splitOn "+").head? with
    | some "postgresql" => .ok .postgresql
    | some "sqlite" => .ok .sqlite
    | _ => .error .dialect
  | _ => .error .address

end CostCatalog.Migration
