import CostCatalog.Enumeration
import CostCatalog.Number.Decimal
import CostCatalog.Text.Blank
import CostCatalog.Text.Digit
import CostCatalog.Wire.Checked

/-!
# Scalars on the wire

The checks of texts, truth values and numbers. Texts must be texts. Truth values and numbers are
read generously: a number may stand for a truth value, a text may spell any of them, and each
reading has its own grammar, given here.
-/

namespace CostCatalog.Wire

/-! ## Texts -/

/-- Any text. -/
def text : Check String
  | .str s => .ok s
  | _ => .flaw .notText

/-- A text whose length, in characters, has bounds. -/
def textOf (least : Nat) (most : Option Nat) : Check String
  | .str s =>
    if s.length < least then .flaw (.tooShort least)
    else match most with
      | some m => if m < s.length then .flaw (.tooLong m) else .ok s
      | none => .ok s
  | _ => .flaw .notText

/-- A text of three decimal digits, of any script. -/
def threeDigits : Check String
  | .str s =>
    if s.length = 3 && s.toList.all Text.isDigit then .ok s
    else .flaw (.patternMismatch "^\\d\x7b3\x7d$")
  | _ => .flaw .notText

/-- The text of a member of a closed set. -/
def oneOf (α : Type) [Enumeration α] : Check α := fun v =>
  match Enumeration.ofJson? v with
  | some a => .ok a
  | none => .flaw (.notMember ((Enumeration.members (α := α)).map Enumeration.text))

/-! ## Integers -/

/-- The magnitude `2^63`, from which on a double no longer stands for an integer. -/
def integerRange : Nat := 0x8000000000000000

/-- The integer that a double stands for. -/
def integerOfFloat (x : Float) : Except Flaw Int :=
  if !Binary64.isFinite x then .error .notFinite
  else match Binary64.toInt? x with
    | none => .error .fractionalInteger
    | some n => if n.natAbs < integerRange then .ok n else .error .hugeInteger

/-- A text with its zeros in front taken away: nothing unless it starts with a digit or a minus
sign. Behind a first zero, zeros and underscores are dropped up to another digit, which is kept, or
to a point, which keeps one zero. -/
def dropZeros : List Char → Option (List Char)
  | '0' :: cs =>
    let rec go (last : Char) : List Char → Option (List Char)
      | [] => some [last]
      | c :: cs =>
        if c = '0' || c = '_' then go c cs
        else if c.isDigit then some (c :: cs)
        else if c = '.' then some (last :: c :: cs)
        else none
    go '0' cs
  | c :: cs => if c.isDigit || c = '-' then some (c :: cs) else none
  | [] => none

/-- Two underscores side by side. -/
def hasDoubleUnderscore : List Char → Bool
  | '_' :: '_' :: _ => true
  | _ :: cs => hasDoubleUnderscore cs
  | [] => false

/-- A text without its underscores, if it has any, all of them single and none at an end. -/
def dropUnderscores? (cs : List Char) : Option (List Char) :=
  if cs.head? = some '_' || cs.getLast? = some '_' || !cs.contains '_' || hasDoubleUnderscore cs
  then none
  else some (cs.filter (· != '_'))

/-- A text cut off at its first point, if only zeros stand behind it. -/
def dropZeroFraction (cs : List Char) : List Char :=
  match cs.dropWhile (· != '.') with
  | '.' :: rest => if rest.all (· == '0') then cs.takeWhile (· != '.') else cs
  | _ => cs

/-- The integer that plain digits spell: no zero in front of others, perhaps a minus sign. -/
def integerOfDigits? (cs : List Char) : Option Int :=
  let (negative, ds) := match cs with
    | '-' :: ds => (true, ds)
    | ds => (false, ds)
  if ds.isEmpty || !ds.all Char.isDigit || (ds.length ≠ 1 && ds.head? = some '0') then none
  else
    let n : Int := Decimal.ofDigits ds
    some (if negative then -n else n)

/-- The greatest length of a text that is read as an integer. -/
def integerTextLimit : Nat := 4300

/-- The integer that a text spells: blanks at the ends, a plus sign, zeros in front, a fraction of
zeros and single underscores between digits do not count. -/
def integerOfText (s : String) : Except Flaw Int :=
  let cs := Text.trim s.toList
  let unsigned := match cs with
    | '+' :: '-' :: _ => none
    | '+' :: rest => some rest
    | cs => some cs
  match unsigned.bind dropZeros with
  | none => .error .unreadableInteger
  | some cs =>
    let cs := dropZeroFraction cs
    let cs := (dropUnderscores? cs).getD cs
    if integerTextLimit < cs.length then .error .hugeInteger
    else match integerOfDigits? cs with
      | some n => .ok n
      | none => .error .unreadableInteger

/-- An integer. -/
def integer : Check Int
  | .int n => .ok n
  | .bool b => .ok (if b then 1 else 0)
  | .float x => match integerOfFloat x with
    | .ok n => .ok n
    | .error f => .flaw f
  | .str s => match integerOfText s with
    | .ok n => .ok n
    | .error f => .flaw f
  | _ => .flaw .notInteger

/-! ## Truth values -/

/-- The texts for "no". -/
def noTexts : List String := ["0", "off", "f", "false", "n", "no"]

/-- The texts for "yes". -/
def yesTexts : List String := ["1", "on", "t", "true", "y", "yes"]

/-- A truth value. A text must be one of the texts for "yes" or "no", in any case of ASCII; a number
must be zero or one. -/
def flag : Check Bool
  | .bool b => .ok b
  | .int n => ofInt n
  | .float x =>
    match integerOfFloat x with
    | .ok n => ofSmall n
    | .error _ => .flaw .notFlag
  | .str s =>
    let t := s.map Char.toLower
    if noTexts.contains t then .ok false
    else if yesTexts.contains t then .ok true
    else .flaw .unreadableFlag
  | _ => .flaw .notFlag
where
  /-- Zero or one. -/
  ofSmall (n : Int) : Checked Bool :=
    if n = 0 then .ok false else if n = 1 then .ok true else .flaw .unreadableFlag
  /-- Zero or one, among the integers of sixty-four bits. -/
  ofInt (n : Int) : Checked Bool :=
    if -(integerRange : Int) ≤ n && n < (integerRange : Int) then ofSmall n else .flaw .notFlag

/-! ## Numbers -/

/-- Digits, a point and digits, at least one digit in all; and what follows. -/
def scanDecimal? (cs : List Char) : Option (Nat × Nat × List Char) :=
  let whole := cs.takeWhile Char.isDigit
  let rest := cs.dropWhile Char.isDigit
  let (fraction, rest) := match rest with
    | '.' :: r => (r.takeWhile Char.isDigit, r.dropWhile Char.isDigit)
    | r => ([], r)
  if whole.isEmpty && fraction.isEmpty then none
  else some (Decimal.ofDigits (whole ++ fraction), fraction.length, rest)

/-- The whole of a text as an exponent: nothing, or an `e`, perhaps a sign, and digits. -/
def exponent? : List Char → Option Int
  | [] => some 0
  | c :: cs =>
    if c = 'e' || c = 'E' then
      let (negative, ds) := match cs with
        | '-' :: ds => (true, ds)
        | '+' :: ds => (false, ds)
        | ds => (false, ds)
      if ds.isEmpty || !ds.all Char.isDigit then none
      else
        let n : Int := Decimal.ofDigits ds
        some (if negative then -n else n)
    else none

/-- The double that the whole of a text spells: a decimal with at least one digit, or the name of an
infinity or of no number, in any case of ASCII; perhaps a sign in front. -/
def floatOfChars? (cs : List Char) : Option Float :=
  let (negative, body) := match cs with
    | '-' :: r => (true, r)
    | '+' :: r => (false, r)
    | r => (false, r)
  let word := String.ofList (body.map Char.toLower)
  if word = "inf" || word = "infinity" then
    some (Binary64.ofRank negative Binary64.infinityRank)
  else if word = "nan" then some (0.0 / 0.0)
  else do
    let (digits, places, rest) ← scanDecimal? body
    let e ← exponent? rest
    some (Decimal.toFloat negative ⟨digits, e - places⟩)

/-- The double that a text spells: as it is with the blanks at its ends taken away, or else with
single underscores between its characters left out. -/
def floatOfText? (s : String) : Option Float :=
  (floatOfChars? (Text.trim s.toList)).orElse fun _ =>
    (dropUnderscores? s.toList).bind floatOfChars?

/-- A number. An integer stands for the double nearest to it, if there is a finite one. -/
def number : Check Float
  | .float x => .ok x
  | .int n =>
    let x := Binary64.ofInt n
    if Binary64.isFinite x then .ok x else .flaw .notNumber
  | .bool b => .ok (if b then 1.0 else 0.0)
  | .str s =>
    match floatOfText? s with
    | some x => .ok x
    | none => .flaw .unreadableNumber
  | _ => .flaw .notNumber

end CostCatalog.Wire
