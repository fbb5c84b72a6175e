import CostCatalog.Json.Basic
import CostCatalog.Number.Decimal
import CostCatalog.Text.CodePoint

/-!
# Reading JSON

A reader of the grammar of JSON with the three names `NaN`, `Infinity` and `-Infinity` added. A
text that does not follow the grammar is refused with the first problem met and where it was met.
Inside the reader a place is the number of code points still to come, which only falls; the
position reported counts from the front.

There are two more reasons to refuse a text, and neither has a place: an integer of more digits than
are read, and arrays and objects nested too deep. The second is a failure of another kind than all
the others.
-/

namespace CostCatalog.Json

variable {τ : Type}

/-- What can be wrong with a text. -/
inductive Problem where
  | valueExpected
  | nameExpected
  | colonExpected
  | commaExpected
  | unterminatedString
  | controlCharacter
  | badEscape
  | badUnicodeEscape
  | extraData
  | byteOrderMark
deriving DecidableEq, Repr

/-- The wording of a problem. -/
def Problem.text : Problem → String
  | .valueExpected => "Expecting value"
  | .nameExpected => "Expecting property name enclosed in double quotes"
  | .colonExpected => "Expecting ':' delimiter"
  | .commaExpected => "Expecting ',' delimiter"
  | .unterminatedString => "Unterminated string starting at"
  | .controlCharacter => "Invalid control character at"
  | .badEscape => "Invalid \\escape"
  | .badUnicodeEscape => "Invalid \\uXXXX escape"
  | .extraData => "Extra data"
  | .byteOrderMark => "Unexpected UTF-8 BOM (decode using utf-8-sig)"

/-- What holds others, and can be nested too deep. -/
inductive Holder where
  | array
  | object
deriving DecidableEq, Repr

/-- What a reader does when it goes into one. -/
def Holder.activity : Holder → String
  | .array => "decoding a JSON array from a unicode string"
  | .object => "decoding a JSON object from a unicode string"

/-- Why a text is refused. -/
inductive Refusal where
  /-- A problem, and the number of code points from its place to the end of the text. -/
  | malformed (problem : Problem) (left : Nat)
  /-- An integer has too many digits: so many. -/
  | digits (count : Nat)
  /-- One more array or object would be nested too deep. -/
  | nesting (h : Holder)
deriving DecidableEq, Repr

/-- Refuses at the front of `ps`. -/
def refuse {α : Type} (p : Problem) (ps : List CodePoint) : Except Refusal α :=
  .error (.malformed p ps.length)

/-! ## Blanks and numbers -/

/-- The four characters that may stand between tokens. -/
def isSpace (c : Char) : Bool := c == ' ' || c == '\t' || c == '\n' || c == '\r'

/-- The text without the blanks at its front. -/
def skipSpace (ps : List CodePoint) : List CodePoint := ps.dropWhile (·.isChar isSpace)

/-- The digits at the front of a text, and the rest. -/
def spanDigits (cs : List Char) : List Char × List Char :=
  (cs.takeWhile Char.isDigit, cs.dropWhile Char.isDigit)

/-- The integer part: a zero alone, or digits that start with another one. -/
def scanWhole? : List Char → Option (List Char × List Char)
  | '0' :: rest => some (['0'], rest)
  | c :: rest => if c.isDigit then some (spanDigits (c :: rest)) else none
  | [] => none

/-- The digits of a fraction, if one follows: a point with a digit after it. -/
def scanFraction : List Char → List Char × List Char
  | '.' :: c :: rest => if c.isDigit then spanDigits (c :: rest) else ([], '.' :: c :: rest)
  | cs => ([], cs)

/-- An exponent's sign and digits. -/
def scanSigned : List Char → Option (Int × List Char)
  | '-' :: rest =>
    let (ds, r) := spanDigits rest
    if ds.isEmpty then none else some (-(Decimal.ofDigits ds : Int), r)
  | '+' :: rest =>
    let (ds, r) := spanDigits rest
    if ds.isEmpty then none else some (Decimal.ofDigits ds, r)
  | cs =>
    let (ds, r) := spanDigits cs
    if ds.isEmpty then none else some (Decimal.ofDigits ds, r)

/-- An exponent, if one follows. -/
def scanExponent? : List Char → Option (Int × List Char)
  | c :: rest => if c = 'e' || c = 'E' then scanSigned rest else none
  | [] => none

/-- A number without its sign. Without fraction and exponent it is an integer, else the double
nearest to what is written. -/
def scanMagnitude? (negative : Bool) (cs : List Char) : Option (Json τ × List Char) :=
  (scanWhole? cs).map fun (whole, afterWhole) =>
    let (fraction, afterFraction) := scanFraction afterWhole
    match fraction, scanExponent? afterFraction with
    | [], none =>
      let n : Int := Decimal.ofDigits whole
      (.int (if negative then -n else n), afterFraction)
    | fraction, found =>
      let (exponent, rest) := found.getD (0, afterFraction)
      let d : Decimal := ⟨Decimal.ofDigits (whole ++ fraction), exponent - fraction.length⟩
      (.float (d.toFloat negative), rest)

/-! ## Texts -/

/-- The value of a hexadecimal digit. -/
def hexValue? (c : Char) : Option Nat :=
  if c.isDigit then some (c.toNat - '0'.toNat)
  else if 'a' ≤ c && c ≤ 'f' then some (c.toNat - 'a'.toNat + 10)
  else if 'A' ≤ c && c ≤ 'F' then some (c.toNat - 'A'.toNat + 10)
  else none

/-- The code unit that four hexadecimal digits spell. -/
def hexUnit? (a b c d : Char) : Option Nat :=
  match hexValue? a, hexValue? b, hexValue? c, hexValue? d with
  | some a, some b, some c, some d => some (((a * 16 + b) * 16 + c) * 16 + d)
  | _, _, _, _ => none

/-- The character of a surrogate pair. -/
def ofPair (hi lo : Nat) : CodePoint :=
  .char (Char.ofNat (0x10000 + (hi - 0xD800) * 1024 + (lo - 0xDC00)))

/-- The low half of a surrogate pair at the front of a text. The text must go on behind it. -/
def lowHalf? : List CodePoint → Option (Nat × List CodePoint)
  | .char '\\' :: .char 'u' :: .char a :: .char b :: .char c :: .char d :: e :: rest =>
    match hexUnit? a b c d with
    | some n => if 0xDC00 ≤ n && n ≤ 0xDFFF then some (n, e :: rest) else none
    | none => none
  | _ => none

/-- What a letter after a backslash stands for. -/
def escaped? (c : Char) : Option Char :=
  if c = '"' || c = '\\' || c = '/' then some c
  else if c = 'b' then some '\x08'
  else if c = 'f' then some '\x0c'
  else if c = 'n' then some '\n'
  else if c = 'r' then some '\r'
  else if c = 't' then some '\t'
  else none

/-- The code points up to the closing quote. `opened` counts from the opening quote to the end of
the text: that is where an unterminated text is reported. The fuel is the length of the text. -/
def scanText (opened : Nat) :
    Nat → List CodePoint → Except Refusal (List CodePoint × List CodePoint)
  | 0, _ => .error (.malformed .unterminatedString opened)
  | _ + 1, [] => .error (.malformed .unterminatedString opened)
  | _ + 1, .char '"' :: rest => .ok ([], rest)
  | fuel + 1, .char '\\' :: rest =>
    match rest with
    | [] => .error (.malformed .unterminatedString opened)
    | .char 'u' :: .char a :: .char b :: .char c :: .char d :: e :: rest' =>
      match hexUnit? a b c d with
      | none => refuse .badUnicodeEscape rest
      | some n =>
        match (if 0xD800 ≤ n && n ≤ 0xDBFF then lowHalf? (e :: rest') else none) with
        | some (lo, after) => do
          let (ps, r) ← scanText opened fuel after
          .ok (ofPair n lo :: ps, r)
        | none => do
          let (ps, r) ← scanText opened fuel (e :: rest')
          .ok (.ofNat n :: ps, r)
    | .char 'u' :: _ => refuse .badUnicodeEscape rest
    | .char c :: rest' =>
      match escaped? c with
      | none => refuse .badEscape (.char '\\' :: rest)
      | some e => do
        let (ps, r) ← scanText opened fuel rest'
        .ok (.char e :: ps, r)
    | .half _ :: _ => refuse .badEscape (.char '\\' :: rest)
  | fuel + 1, p :: rest =>
    if p.toNat < 32 then refuse .controlCharacter (p :: rest)
    else do
      let (ps, r) ← scanText opened fuel rest
      .ok (p :: ps, r)

/-- A text, from behind its opening quote. -/
def scanQuoted [Textual τ] (rest : List CodePoint) : Except Refusal (τ × List CodePoint) := do
  let (ps, r) ← scanText (rest.length + 1) (rest.length + 1) rest
  .ok (Textual.ofPoints ps, r)

/-! ## Values -/

/-- The words that are values, each with what it stands for. -/
def words : List (List Char × Json τ) :=
  [("null".toList, .null), ("true".toList, .bool true), ("false".toList, .bool false),
    ("NaN".toList, .float (0.0 / 0.0)),
    ("Infinity".toList, .float (Binary64.ofRank false Binary64.infinityRank)),
    ("-Infinity".toList, .float (Binary64.ofRank true Binary64.infinityRank))]

/-- A word off the front of a text. -/
def scanWord? (cs : List Char) : Option (Json τ × List Char) :=
  words.findSome? fun (w, v) => if w.isPrefixOf cs then some (v, cs.drop w.length) else none

/-- A word or a number. -/
def scanToken? (cs : List Char) : Option (Json τ × List Char) :=
  match scanWord? cs with
  | some found => some found
  | none =>
    match cs with
    | '-' :: rest => scanMagnitude? true rest
    | _ => scanMagnitude? false cs

/-- The characters of which words and numbers are made. -/
def isTokenChar (c : Char) : Bool := c.isAlphanum || c == '+' || c == '-' || c == '.'

/-- The characters at the front of a text that a word or a number can be made of. -/
def tokenChars : List CodePoint → List Char
  | .char c :: ps => if isTokenChar c then c :: tokenChars ps else []
  | _ => []

/-- A word or a number off the front of a text, unless it is an integer of too many digits. -/
def scanScalar (ps : List CodePoint) : Except Refusal (Json τ × List CodePoint) :=
  let run := tokenChars ps
  match scanToken? run with
  | none => refuse .valueExpected ps
  | some (v, rest) =>
    let after := ps.drop (run.length - rest.length)
    match v with
    | .int n =>
      if Decimal.isShort n then .ok (.int n, after)
      else .error (.digits (Decimal.digitCount n.natAbs))
    | v => .ok (v, after)

section

variable [Textual τ] [DecidableEq τ]

mutual

/-- A value off the front of a text, with so many levels of arrays and objects. The fuel bounds the
number of calls; the length of the text is enough, since every other call takes a code point
away. -/
def scanValue : Nat → Nat → List CodePoint → Except Refusal (Json τ × List CodePoint)
  | 0, _, ps => refuse .valueExpected ps
  | fuel + 1, levels, ps =>
    match ps with
    | .char '"' :: rest => do
      let (s, r) ← scanQuoted rest
      .ok (.str s, r)
    | .char '[' :: rest =>
      match levels with
      | 0 => .error (.nesting .array)
      | levels + 1 =>
        match skipSpace rest with
        | .char ']' :: r => .ok (.arr [], r)
        | r => do
          let (vs, r') ← scanItems fuel levels r
          .ok (.arr vs, r')
    | .char '{' :: rest =>
      match levels with
      | 0 => .error (.nesting .object)
      | levels + 1 =>
        match skipSpace rest with
        | .char '}' :: r => .ok (.obj [], r)
        | r => do
          let (ms, r') ← scanMembers fuel levels r
          .ok (ofMembers ms, r')
    | _ => scanScalar ps

/-- The items of an array, up to and with its closing bracket. -/
def scanItems : Nat → Nat → List CodePoint → Except Refusal (List (Json τ) × List CodePoint)
  | 0, _, ps => refuse .valueExpected ps
  | fuel + 1, levels, ps => do
    let (v, r) ← scanValue fuel levels ps
    match skipSpace r with
    | .char ']' :: r' => .ok ([v], r')
    | .char ',' :: r' => do
      let (vs, r'') ← scanItems fuel levels (skipSpace r')
      .ok (v :: vs, r'')
    | r' => refuse .commaExpected r'

/-- The members of an object, up to and with its closing brace. -/
def scanMembers : Nat → Nat → List CodePoint → Except Refusal (List (τ × Json τ) × List CodePoint)
  | 0, _, ps => refuse .nameExpected ps
  | fuel + 1, levels, ps =>
    match ps with
    | .char '"' :: rest => do
      let (k, r) ← scanQuoted rest
      match skipSpace r with
      | .char ':' :: r₁ => do
        let (v, r₂) ← scanValue fuel levels (skipSpace r₁)
        match skipSpace r₂ with
        | .char '}' :: r₃ => .ok ([(k, v)], r₃)
        | .char ',' :: r₃ => do
          let (ms, r₄) ← scanMembers fuel levels (skipSpace r₃)
          .ok ((k, v) :: ms, r₄)
        | r₃ => refuse .commaExpected r₃
      | r₁ => refuse .colonExpected r₁
    | _ => refuse .nameExpected ps

end

/-- The value a whole text spells, with so many levels of arrays and objects. -/
def parsePoints (levels : Nat) (ps : List CodePoint) : Except Refusal (Json τ) :=
  if ps.head? = some (.char '\uFEFF') then refuse .byteOrderMark ps
  else do
    let (v, r) ← scanValue (2 * ps.length + 2) levels (skipSpace ps)
    match skipSpace r with
    | [] => .ok v
    | p :: r' => refuse .extraData (p :: r')

end

/-! ## Refusals in words -/

/-- A problem and its place, counted in code points from the front. -/
structure SyntaxError where
  problem : Problem
  position : Nat
  line : Nat
  column : Nat
deriving DecidableEq, Repr

/-- A problem at the place in a text that `left` code points follow. Lines end at line feeds and are
counted from one, as are columns. -/
def SyntaxError.locate (problem : Problem) (left : Nat) (ps : List CodePoint) : SyntaxError :=
  let front := ps.take (ps.length - left)
  { problem
    position := front.length
    line := front.count (.char '\n') + 1
    column := (front.reverse.takeWhile (· != .char '\n')).length + 1 }

/-- The wording of an error. -/
def SyntaxError.message (e : SyntaxError) : String :=
  e.problem.text ++ ": line " ++ toString e.line ++ " column " ++ toString e.column ++
    " (char " ++ toString e.position ++ ")"

/-- Why there is no value for a text. -/
inductive ReadError where
  | malformed (e : SyntaxError)
  /-- An integer has too many digits: so many. -/
  | digits (count : Nat)
  /-- One more array or object would be nested too deep. -/
  | nesting (h : Holder)
deriving DecidableEq, Repr

/-- A refusal with its place in a text. -/
def Refusal.located (ps : List CodePoint) : Refusal → ReadError
  | .malformed problem left => .malformed (.locate problem left ps)
  | .digits count => .digits count
  | .nesting h => .nesting h

/-- The wording of an error. -/
def ReadError.message : ReadError → String
  | .malformed e => e.message
  | .digits count => Decimal.tooLong (": value has " ++ toString count ++ " digits")
  | .nesting h => "maximum recursion depth exceeded while " ++ h.activity

/-- The value that code points spell, or why they spell none. -/
def decode [Textual τ] [DecidableEq τ] (depth : Depth) (ps : List CodePoint) :
    Except ReadError (Json τ) :=
  (parsePoints depth.levels ps).mapError (·.located ps)

/-- The value a text spells, or why it spells none. -/
def parse [Textual τ] [DecidableEq τ] (s : τ) (depth : Depth := {}) : Except ReadError (Json τ) :=
  decode depth (Textual.points s)

end CostCatalog.Json
