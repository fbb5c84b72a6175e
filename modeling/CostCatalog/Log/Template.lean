import CostCatalog.Json.Display
import CostCatalog.Number.Places

/-!
# Message templates

A message with places for values: a percent sign, how the value is to be laid out, and a letter for
the kind of text it is to become. Values are taken in order, or by name when they come with names.
Each of the ways in which template and values can fail to fit is an error of its own; the first one
met from the left is reported.
-/

namespace CostCatalog

/-- How template and values fail to fit. -/
inductive TemplateError where
  /-- The template ends inside a directive. -/
  | incomplete
  /-- The template ends inside a name. -/
  | incompleteName
  /-- No such kind of text is known. -/
  | unknownKind (c : Char) (index : Nat)
  | missingName (name : String)
  /-- Too few values, too many, values without names, or a value of the wrong type. -/
  | misfit
  /-- A number that is no character's. -/
  | noSuchCharacter
  /-- An infinity where an integer was asked for. -/
  | infiniteInteger
  /-- No number where an integer was asked for. -/
  | noInteger
  /-- An integer beyond every double. -/
  | integerTooLarge
  /-- A width or a precision beyond what can be laid out, in the template or among the values. -/
  | tooBig (what : String)
  | tooBigValue (what : String)
deriving DecidableEq, Repr

namespace TemplateError

/-- The name of an error. -/
def title : TemplateError → String
  | .incomplete | .incompleteName | .unknownKind _ _ | .noInteger | .tooBig _ => "ValueError"
  | .missingName _ => "KeyError"
  | .misfit => "TypeError"
  | .noSuchCharacter | .infiniteInteger | .integerTooLarge | .tooBigValue _ =>
    "OverflowError"

/-- The wording of an error. -/
def message : TemplateError → String
  | .incomplete => "incomplete format"
  | .incompleteName => "incomplete format key"
  | .unknownKind c index =>
    "unsupported format character '" ++
      (if 31 < c.toNat && c.toNat < 128 then String.singleton c else "?") ++ "' (0x" ++
      String.ofList (Nat.toDigits 16 c.toNat) ++ ") at index " ++ toString index
  | .missingName name => name
  | .misfit => "template and values do not fit"
  | .noSuchCharacter => "%c arg not in range(0x110000)"
  | .infiniteInteger => "cannot convert float infinity to integer"
  | .noInteger => "cannot convert float NaN to integer"
  | .integerTooLarge => "int too large to convert to float"
  | .tooBig what => what ++ " too big"
  | .tooBigValue what =>
    "Python int too large to convert to C " ++ (if what = "width" then "ssize_t" else "int")

end TemplateError

namespace Template

/-! ## Reading templates -/

/-- A number in a directive: not stated, stated, or to be taken from the values. -/
inductive Extent where
  | unstated
  | given (n : Nat)
  | fromValues
deriving DecidableEq, Repr

/-- A place for a value. -/
structure Directive where
  name : Option String := none
  toLeft : Bool := false
  withSign : Bool := false
  withBlank : Bool := false
  alternate : Bool := false
  zeros : Bool := false
  width : Extent := .unstated
  precision : Extent := .unstated
  kind : Char := 's'
  index : Nat := 0
deriving DecidableEq, Repr

/-- A part of a template. -/
inductive Piece where
  | plain (c : Char)
  | place (d : Directive)
  | broken (e : TemplateError)
deriving DecidableEq, Repr

/-- A name up to the bracket that closes it, brackets inside it in pairs. -/
def scanName : Nat → List Char → Option (List Char × List Char)
  | _, [] => none
  | 0, ')' :: cs => some ([], cs)
  | depth + 1, ')' :: cs => (scanName depth cs).map fun (n, r) => (')' :: n, r)
  | depth, '(' :: cs => (scanName (depth + 1) cs).map fun (n, r) => ('(' :: n, r)
  | depth, c :: cs => (scanName depth cs).map fun (n, r) => (c :: n, r)

/-- The flags of a directive. -/
def scanFlags (d : Directive) : List Char → Directive × List Char
  | '-' :: cs => scanFlags { d with toLeft := true } cs
  | '+' :: cs => scanFlags { d with withSign := true } cs
  | ' ' :: cs => scanFlags { d with withBlank := true } cs
  | '#' :: cs => scanFlags { d with alternate := true } cs
  | '0' :: cs => scanFlags { d with zeros := true } cs
  | cs => (d, cs)

/-- A number of a directive. -/
def scanExtent : List Char → Extent × List Char
  | '*' :: cs => (.fromValues, cs)
  | cs =>
    let ds := cs.takeWhile Char.isDigit
    (if ds.isEmpty then .unstated else .given (Decimal.ofDigits ds), cs.dropWhile Char.isDigit)

/-- The precision of a directive: a point, and none behind it means zero. -/
def scanPrecision : List Char → Extent × List Char
  | '.' :: cs =>
    match scanExtent cs with
    | (.unstated, r) => (.given 0, r)
    | found => found
  | cs => (.unstated, cs)

/-- A letter that once told the size of a number and now tells nothing. -/
def skipSize : List Char → List Char
  | c :: cs => if c = 'h' ∨ c = 'l' ∨ c = 'L' then cs else c :: cs
  | [] => []

/-- A directive from behind its percent sign, in a template of `size` characters. -/
def scanDirective (size : Nat) (cs : List Char) : Piece × List Char :=
  let named : Option (Option String × List Char) := match cs with
    | '(' :: r => (scanName 0 r).map fun (n, r) => (some (String.ofList n), r)
    | _ => some (none, cs)
  match named with
  | none => (.broken .incompleteName, [])
  | some (name, cs) =>
    let (d, cs) := scanFlags { name } cs
    let (width, cs) := scanExtent cs
    let (precision, cs) := scanPrecision cs
    match skipSize cs with
    | [] => (.broken .incomplete, [])
    | kind :: r => (.place { d with width, precision, kind, index := size - r.length - 1 }, r)

/-- The pieces of a template. A doubled percent sign stands for one. The fuel is the template's
length. -/
def scanPieces (size : Nat) : Nat → List Char → List Piece
  | 0, _ => []
  | _ + 1, [] => []
  | fuel + 1, c :: cs =>
    if c = '%' then
      if cs.head? = some '%' then .plain '%' :: scanPieces size fuel cs.tail
      else
        let (p, r) := scanDirective size cs
        p :: scanPieces size fuel r
    else .plain c :: scanPieces size fuel cs

/-- The pieces of a template. -/
def pieces (cs : List Char) : List Piece := scanPieces cs.length cs.length cs

/-! ## Values -/

/-- The values for a template: in order, or with names; values with names can also be taken once as
a whole. -/
inductive Values where
  | inOrder (vs : List Json)
  | named (ms : List (String × Json)) (taken : Bool)

/-- The next value, and those left. -/
def Values.next : Values → Except TemplateError (Json × Values)
  | .inOrder (v :: vs) => .ok (v, .inOrder vs)
  | .named ms false => .ok (.obj ms, .named ms true)
  | _ => .error .misfit

/-- The values for a directive alone, and those that others can still take. A directive with a name
has the one value of that name, and then the values as a whole are taken. -/
def Values.for (vs : Values) (d : Directive) : Except TemplateError (Values × Option Values) :=
  match d.name, vs with
  | none, vs => .ok (vs, none)
  | some _, .inOrder _ => .error .misfit
  | some name, .named ms _ =>
    match (Json.obj ms).get? name with
    | some v => .ok (.inOrder [v], some (.named ms true))
    | none => .error (.missingName name)

/-- The greatest width and precision that can be laid out. -/
def extentLimit : Nat := 1000000000

/-- A number of a directive, taken from the values if it asks for that. -/
def Extent.resolve (e : Extent) (what : String) (vs : Values) :
    Except TemplateError (Option Int × Values) :=
  match e with
  | .unstated => .ok (none, vs)
  | .given n => if extentLimit < n then .error (.tooBig what) else .ok (some n, vs)
  | .fromValues => do
    match ← vs.next with
    | (.int n, vs) =>
      if extentLimit < n.natAbs then .error (.tooBigValue what) else .ok (some n, vs)
    | (.bool b, vs) => .ok (some (if b then 1 else 0), vs)
    | _ => .error .misfit

/-- A double without its fraction. -/
def truncated (x : Float) : Except TemplateError Int :=
  if Binary64.isNaN x then .error .noInteger
  else if !Binary64.isFinite x then .error .infiniteInteger
  else
    let r := Binary64.rank x
    let n : Int := (Binary64.numerator r / Binary64.denominator r : Nat)
    .ok (if Binary64.isNegative x then -n else n)

/-- A value as an integer; a double only if its fraction may be cut. -/
def integerOf (cut : Bool) : Json → Except TemplateError Int
  | .int n => .ok n
  | .bool b => .ok (if b then 1 else 0)
  | .float x => if cut then truncated x else .error .misfit
  | _ => .error .misfit

/-- A value as a double. -/
def floatOf : Json → Except TemplateError Float
  | .float x => .ok x
  | .bool b => .ok (if b then 1.0 else 0.0)
  | .int n =>
    let x := Binary64.ofInt n
    if Binary64.isFinite x then .ok x else .error .integerTooLarge
  | _ => .error .misfit

/-! ## Layout -/

/-- A text with its characters beyond ASCII by their code points. -/
def asciiOnly (cs : List Char) : List Char :=
  cs.flatMap fun c => if c.toNat < 128 then [c] else Text.codeEscape c

/-- The text that a value is, or that names it. -/
def plainText : Json → List Char
  | .str s => s.toList
  | v => v.displayChars

/-- A text set to a width. -/
def pad (toLeft : Bool) (width : Nat) (cs : List Char) : List Char :=
  let blanks := List.replicate (width - cs.length) ' '
  if toLeft then cs ++ blanks else blanks ++ cs

/-- A number set to a width: its sign, the mark of its base and its digits, zeros between them if
they are asked for. -/
def padNumber (d : Directive) (toLeft : Bool) (width : Nat) (negative : Bool)
    (mark digits : List Char) : List Char :=
  let sign := if negative then ['-'] else if d.withSign then ['+'] else
    if d.withBlank then [' '] else []
  let front := sign ++ mark
  if d.zeros && !toLeft then
    front ++ List.replicate (width - front.length - digits.length) '0' ++ digits
  else pad toLeft width (front ++ digits)

/-- The digits of an integer in a base, filled with zeros to a number of digits. -/
def integerDigits (base : Nat) (precision : Option Nat) (n : Int) : List Char :=
  let ds := Nat.toDigits base n.natAbs
  List.replicate (precision.getD 0 - ds.length) '0' ++ ds

/-- The digits of a double for one of the three kinds of text that doubles become. -/
def floatDigits (kind : Char) (alternate : Bool) (precision : Nat) (x : Float) : List Char :=
  if Binary64.isNaN x then "nan".toList
  else if !Binary64.isFinite x then "inf".toList
  else
    let r := Binary64.rank x
    let num := Binary64.numerator r
    let den := Binary64.denominator r
    if kind = 'f' then Places.fixed alternate precision num den
    else if kind = 'e' then Places.scientific alternate precision num den
    else Places.general alternate precision num den

/-- A character: of a number, or the only one of a text. -/
def characterOf : Json → Except TemplateError Char
  | .int n =>
    if 0 ≤ n ∧ n < 0x110000 then .ok (Char.ofNat n.toNat) else .error .noSuchCharacter
  | .bool b => .ok (Char.ofNat (if b then 1 else 0))
  | .str s =>
    match s.toList with
    | [c] => .ok c
    | _ => .error .misfit
  | _ => .error .misfit

/-- A value laid out as a directive asks. -/
def layOut (d : Directive) (toLeft : Bool) (width : Nat) (precision : Option Nat) (v : Json) :
    Except TemplateError (List Char) := do
  let clipped (cs : List Char) : List Char := match precision with
    | some n => pad toLeft width (cs.take n)
    | none => pad toLeft width cs
  let float (kind : Char) (shape : List Char → List Char) : Except TemplateError (List Char) := do
    let x ← floatOf v
    return padNumber d toLeft width (Binary64.isNegative x && !Binary64.isNaN x) []
      (shape (floatDigits kind d.alternate (precision.getD 6) x))
  let upper (cs : List Char) : List Char := cs.map Char.toUpper
  match d.kind with
  | 's' => return clipped (plainText v)
  | 'r' => return clipped v.displayChars
  | 'a' => return clipped (asciiOnly v.displayChars)
  | 'c' => return pad toLeft width [← characterOf v]
  | 'd' | 'i' | 'u' =>
    let n ← integerOf true v
    return padNumber d toLeft width (n < 0) [] (integerDigits 10 precision n)
  | 'o' =>
    let n ← integerOf false v
    return padNumber d toLeft width (n < 0) (if d.alternate then ['0', 'o'] else [])
      (integerDigits 8 precision n)
  | 'x' =>
    let n ← integerOf false v
    return padNumber d toLeft width (n < 0) (if d.alternate then ['0', 'x'] else [])
      (integerDigits 16 precision n)
  | 'X' =>
    let n ← integerOf false v
    return padNumber d toLeft width (n < 0) (if d.alternate then ['0', 'X'] else [])
      (upper (integerDigits 16 precision n))
  | 'f' => float 'f' id
  | 'F' => float 'f' upper
  | 'e' => float 'e' id
  | 'E' => float 'e' upper
  | 'g' => float 'g' id
  | 'G' => float 'g' upper
  | c => .error (.unknownKind c d.index)

/-- A directive carried out: its text, and the values left. -/
def carryOut (d : Directive) (all : Values) : Except TemplateError (List Char × Values) := do
  let (vs, others) ← all.for d
  let (width, vs) ← d.width.resolve "width" vs
  let (precision, vs) ← d.precision.resolve "precision" vs
  let (v, vs) ← vs.next
  let toLeft := d.toLeft || decide (width.getD 0 < 0)
  let text ← layOut d toLeft (width.getD 0).natAbs (precision.map Int.toNat) v
  return (text, others.getD vs)

/-- Pieces filled with values, none of which in order may be left. A name that never ends is only
looked at when there are names at all. -/
def fillPieces : List Piece → Values → Except TemplateError (List Char)
  | [], .inOrder (_ :: _) => .error .misfit
  | [], _ => .ok []
  | .plain c :: ps, vs => do return c :: (← fillPieces ps vs)
  | .broken .incompleteName :: _, .inOrder _ => .error .misfit
  | .broken e :: _, _ => .error e
  | .place d :: ps, vs => do
    let (text, vs) ← carryOut d vs
    return text ++ (← fillPieces ps vs)

/-- A template filled with values. A single object that is not empty gives values with names. -/
def fill (template : String) (values : List Json) : Except TemplateError String :=
  let vs : Values := match values with
    | [.obj (m :: ms)] => .named (m :: ms) false
    | vs => .inOrder vs
  (fillPieces (pieces template.toList) vs).map String.ofList

end Template

end CostCatalog
