import CostCatalog.Json.Basic
import CostCatalog.Number.Shortest
import CostCatalog.Text.CodePoint
import CostCatalog.Text.Quoted

/-!
# Writing JSON

One line: a comma and a blank between items, a colon and a blank after a name. Doubles have the
fewest digits that read back; the three that no decimal spells are written `NaN`, `Infinity` and
`-Infinity`. A value is not written at all if an integer in it has too many digits for a text, or if
its arrays and objects are nested too deep: `obstacle?` says which of the two a writer meets first.

A writer is given its `Escape`, the form of a code point inside a quoted text. `escapeControl`
escapes only the quote, the backslash and the control characters, so a text of anything else is
written as it is; `escapeAscii` also writes every code point beyond ASCII by its code units.
-/

namespace CostCatalog.Json

variable {τ : Type}

/-! ## Quoted texts -/

/-- How code points are written inside a quoted text. -/
abbrev Escape := CodePoint → List CodePoint

/-- A code unit by its four hexadecimal digits. -/
def unitEscape (n : Nat) : List Char := '\\' :: 'u' :: Text.hexPadded 4 n

/-- One character inside a quoted text: as it is, unless JSON forbids that. -/
def escapeChar (c : Char) : List Char :=
  if c = '"' then ['\\', '"']
  else if c = '\\' then ['\\', '\\']
  else if c = '\n' then ['\\', 'n']
  else if c = '\r' then ['\\', 'r']
  else if c = '\t' then ['\\', 't']
  else if c = '\x08' then ['\\', 'b']
  else if c = '\x0c' then ['\\', 'f']
  else if c.toNat < 32 then unitEscape c.toNat
  else [c]

/-- One code point inside a quoted text: as it is, unless JSON forbids that. -/
def escapeControl : Escape
  | .char c => CodePoint.ofChars (escapeChar c)
  | .half n => [.half n]

/-- The two surrogates of a character beyond the first 65536. -/
def surrogates (c : Char) : Nat × Nat :=
  (0xD800 + (c.toNat - 0x10000) / 1024, 0xDC00 + (c.toNat - 0x10000) % 1024)

/-- One character inside a quoted text of ASCII alone. -/
def asciiChar (c : Char) : List Char :=
  if c.toNat < 127 then escapeChar c
  else if c.toNat < 0x10000 then unitEscape c.toNat
  else unitEscape (surrogates c).1 ++ unitEscape (surrogates c).2

/-- One code point inside a quoted text of ASCII alone. -/
def escapeAscii : Escape
  | .char c => CodePoint.ofChars (asciiChar c)
  | .half n => CodePoint.ofChars (unitEscape (0xD800 + n))

/-- A text between quotes. -/
def quotePoints (escape : Escape) (ps : List CodePoint) : List CodePoint :=
  .char '"' :: (ps.flatMap escape ++ [.char '"'])

/-! ## Values -/

/-- The digits of an integer, with a minus sign below zero. -/
def intChars (n : Int) : List Char :=
  if n < 0 then '-' :: Nat.toDigits 10 n.natAbs else Nat.toDigits 10 n.natAbs

/-- The names of the values that no decimal spells. -/
def floatNames : Shortest.Names := ⟨"Infinity", "NaN"⟩

section

variable [Textual τ]

mutual

/-- The code points of a value. -/
def spell (escape : Escape) : Json τ → List CodePoint
  | .null => CodePoint.ofChars ['n', 'u', 'l', 'l']
  | .bool true => CodePoint.ofChars ['t', 'r', 'u', 'e']
  | .bool false => CodePoint.ofChars ['f', 'a', 'l', 's', 'e']
  | .int n => CodePoint.ofChars (intChars n)
  | .float x => CodePoint.ofChars (Shortest.floatText floatNames x)
  | .str s => quotePoints escape (Textual.points s)
  | .arr items => .char '[' :: (spellItems escape items ++ [.char ']'])
  | .obj members => .char '{' :: (spellMembers escape members ++ [.char '}'])

/-- The items of an array, without its brackets. -/
def spellItems (escape : Escape) : List (Json τ) → List CodePoint
  | [] => []
  | [v] => spell escape v
  | v :: w :: vs => spell escape v ++ .char ',' :: .char ' ' :: spellItems escape (w :: vs)

/-- The members of an object, without its braces. -/
def spellMembers (escape : Escape) : List (τ × Json τ) → List CodePoint
  | [] => []
  | [(k, v)] =>
    quotePoints escape (Textual.points k) ++ .char ':' :: .char ' ' :: spell escape v
  | (k, v) :: m :: ms =>
    quotePoints escape (Textual.points k) ++ .char ':' :: .char ' ' ::
      (spell escape v ++ .char ',' :: .char ' ' :: spellMembers escape (m :: ms))

end

/-- The text of a value. -/
def print (v : Json τ) : τ := Textual.ofPoints (spell escapeControl v)

/-- The text of a value in ASCII alone. -/
def printAscii (v : Json τ) : String := Textual.ofPoints (spell escapeAscii v)

end

/-! ## What cannot be written -/

/-- Why a value cannot be written. -/
inductive Obstacle where
  /-- An integer in it has too many digits. -/
  | digits
  /-- Its arrays and objects are nested too deep. -/
  | nesting
deriving DecidableEq, Repr

mutual

/-- The first obstacle a writer meets in a value, when it may go into so many levels of arrays and
objects. -/
def obstacle? : Nat → Json τ → Option Obstacle
  | _, .int n => if Decimal.isShort n then none else some .digits
  | levels, .arr items =>
    match levels with
    | 0 => some .nesting
    | levels + 1 => itemsObstacle? levels items
  | levels, .obj members =>
    match levels with
    | 0 => some .nesting
    | levels + 1 => membersObstacle? levels members
  | _, _ => none

/-- The first obstacle in the items of an array. -/
def itemsObstacle? (levels : Nat) : List (Json τ) → Option Obstacle
  | [] => none
  | v :: vs => (obstacle? levels v).or (itemsObstacle? levels vs)

/-- The first obstacle in the members of an object. -/
def membersObstacle? (levels : Nat) : List (τ × Json τ) → Option Obstacle
  | [] => none
  | m :: ms => (obstacle? levels m.2).or (membersObstacle? levels ms)

end

/-- Whether a value can be written. -/
def isWritable (depth : Depth) (v : Json τ) : Bool := (v.obstacle? depth.levels).isNone

end CostCatalog.Json
