import CostCatalog.Timestamp.Basic
import CostCatalog.Text.Quoted

/-!
# Timestamps as text

Writing is canonical: `YYYY-MM-DDTHH:MM:SS`, six digits of fraction unless they are all zero, and
the offset as `+HH:MM`, with seconds and their fraction only when there are any. Reading accepts
every such text and a good deal more of the calendar notations: dates without hyphens, dates by
week, times cut short or without colons, fractions of any length, `Z`, and any character at all
between date and time.
-/

namespace CostCatalog.Timestamp

/-! ## Writing -/

/-- A number in decimal, filled with zeros or cut to `width` digits. -/
def padded : Nat → Nat → List Char
  | 0, _ => []
  | width + 1, n => padded width (n / 10) ++ [Nat.digitChar (n % 10)]

/-- The date of a reading. -/
def dateChars (d : Calendar.Date) : List Char :=
  padded 4 d.year ++ '-' :: (padded 2 d.month ++ '-' :: padded 2 d.day)

/-- Hours, minutes and seconds. -/
def clockChars (hour minute second : Nat) : List Char :=
  padded 2 hour ++ ':' :: (padded 2 minute ++ ':' :: padded 2 second)

/-- A fraction of a second, left out when zero. -/
def fractionChars (micros : Nat) : List Char :=
  if micros = 0 then [] else '.' :: padded 6 micros

/-- An offset. -/
def offsetChars (o : Int) : List Char :=
  let n := o.natAbs
  let seconds := n / 1000000
  let micros := n % 1000000
  let short := padded 2 (seconds / 3600) ++ ':' :: padded 2 (seconds / 60 % 60)
  let long :=
    if seconds % 60 = 0 ∧ micros = 0 then [] else ':' :: padded 2 (seconds % 60)
  (if o < 0 then '-' else '+') :: (short ++ long ++ fractionChars micros)

/-- The characters of a reading. -/
def isoChars (t : Timestamp) : List Char :=
  dateChars t.date ++ 'T' :: (clockChars t.hour t.minute t.second ++
    fractionChars t.microsecond ++ (t.offset.map offsetChars).getD [])

/-- The text of a reading. -/
def toIso (t : Timestamp) : String := String.ofList t.isoChars

/-! ## Errors -/

/-- Why a text or a set of fields is no reading. -/
inductive ReadError where
  /-- The text is in no form that is read. -/
  | text (s : String)
  /-- A field is outside its range. -/
  | year (n : Nat)
  | month
  | day
  | hour
  | minute
  | second
  /-- The offset, in seconds and microseconds, is a day or more. -/
  | offset (seconds micros : Int)
deriving DecidableEq, Repr

/-- A span of time named in a message: days, then seconds and microseconds that are not negative,
each left out when zero. -/
def spanText (micros : Int) : String :=
  let day : Int := microsPerDay
  let days := micros.fdiv day
  let rest := micros.fmod day
  let seconds := rest / 1000000
  let fraction := rest % 1000000
  let part (name : String) (n : Int) : List String :=
    if n = 0 then [] else [name ++ "=" ++ toString n]
  let parts := part "days" days ++ part "seconds" seconds ++ part "microseconds" fraction
  "datetime.timedelta(" ++ (if parts.isEmpty then "0" else ", ".intercalate parts) ++ ")"

/-- The wording of an error. -/
def ReadError.message : ReadError → String
  | .text s => "Invalid isoformat string: " ++ Text.quote s
  | .year n => "year " ++ toString n ++ " is out of range"
  | .month => "month must be in 1..12"
  | .day => "day is out of range for month"
  | .hour => "hour must be in 0..23"
  | .minute => "minute must be in 0..59"
  | .second => "second must be in 0..59"
  | .offset s m =>
    "offset must be a timedelta strictly between -timedelta(hours=24) and timedelta(hours=24), not "
      ++ spanText (s * 1000000 + m) ++ "."

/-! ## Reading the date -/

/-- The value of one decimal digit. -/
def digit? (c : Char) : Option Nat := if c.isDigit then some (c.toNat - '0'.toNat) else none

/-- A number of exactly `count` digits off the front of a text. -/
def scanNumber : Nat → Nat → List Char → Option (Nat × List Char)
  | 0, n, cs => some (n, cs)
  | _ + 1, _, [] => none
  | count + 1, n, c :: cs => do scanNumber count (10 * n + (← digit? c)) cs

/-- Two digits off the front of a text. -/
def scanTwo (cs : List Char) : Option (Nat × List Char) := scanNumber 2 0 cs

/-- The length of the date in front of a text, told by its fifth and sixth characters: a hyphen
says that the parts are hyphenated, a `W` that the date is one of a week. A week date may or may
not have a day; the characters that follow decide, and where both readings are possible a hyphen
is taken to stand between date and time. -/
def dateLength (cs : List Char) : Option Nat :=
  let at? (i : Nat) : Char := cs[i]?.getD '\x00'
  let n := cs.length
  if n = 7 then some 7
  else if at? 4 = '-' then
    if at? 5 = 'W' then
      if n < 8 then none
      else if 8 < n && at? 8 = '-' then
        if n = 9 then none
        else if 10 < n && (at? 10).isDigit then some 8
        else some 10
      else some 8
    else some 10
  else if at? 4 = 'W' then
    let digits := ((cs.drop 7).takeWhile Char.isDigit).length
    let stop := 7 + digits
    if stop < 9 then some stop else if stop % 2 = 0 then some 7 else some 8
  else some 8

/-- The date that a year, a week and a weekday name, if that week exists. It may lie in the year
after 9999. One before year 1 is given a month of zero, which no check lets pass. -/
def dateOfWeek? (year week weekday : Nat) : Option Calendar.Date :=
  if week = 0 || 53 < week || (week = 53 && !Calendar.hasWeek53 year) ||
      weekday = 0 || 7 < weekday then none
  else
    let n := Calendar.firstMonday year + ((week : Int) - 1) * 7 + ((weekday : Int) - 1)
    some (if year = 0 || n < 0 then ⟨1, 0, 0⟩ else Calendar.Date.ofNumber n.toNat)

/-- The rest of a text behind an expected character. -/
def expect (want : Char) : List Char → Option (List Char)
  | c :: cs => if c = want then some cs else none
  | [] => none

/-- The date in the first `length` characters of a text, its fields unchecked. -/
def scanDate (length : Nat) (cs : List Char) : Option Calendar.Date := do
  let (year, r₁) ← scanNumber 4 0 cs
  let hyphens := r₁.head? = some '-'
  let r₂ := if hyphens then r₁.drop 1 else r₁
  match r₂ with
  | 'W' :: r₃ =>
    let (week, r₄) ← scanTwo r₃
    let weekday ←
      if cs.length - r₄.length < length then do
        let r₅ ← if hyphens then expect '-' r₄ else some r₄
        let (d, _) ← scanNumber 1 0 r₅
        some d
      else some 1
    dateOfWeek? year week weekday
  | _ =>
    let (month, r₃) ← scanTwo r₂
    let r₄ ← if hyphens then expect '-' r₃ else some r₃
    let (day, r₅) ← scanTwo r₄
    if cs.length - r₅.length = length then some ⟨year, month, day⟩ else none

/-! ## Reading the time -/

/-- Hours, minutes, seconds and microseconds, unchecked. -/
structure ClockFields where
  hour : Nat
  minute : Nat
  second : Nat
  micro : Nat
deriving DecidableEq, Repr, Inhabited

/-- The fields with one of them set: the hours, the minutes or the seconds. -/
def ClockFields.set (f : ClockFields) (index n : Nat) : ClockFields :=
  match index with
  | 0 => { f with hour := n }
  | 1 => { f with minute := n }
  | _ => { f with second := n }

/-- How a time of day ended: at the end of its text, or before a character that was not used. -/
inductive Ending where
  | clean
  | trailing
deriving DecidableEq, Repr

/-- The digits of a fraction, read to six places: `left` characters belong to it, of which at most
six count. Digits beyond them are dropped. -/
def scanFraction (left : Nat) (cs : List Char) : Option (Nat × Ending) := do
  let count := min left 6
  let (n, r) ← scanNumber count 0 cs
  let micro := n * Nat.pow 10 (6 - count)
  match r.dropWhile Char.isDigit with
  | [] => some (micro, .clean)
  | c :: _ => some (micro, if c = '\x00' then .clean else .trailing)

/-- The fields of a time from field `index` on. `left` counts the characters that belong to the
time; behind them the text may go on with an offset. `colons` tells whether the fields are set
apart by colons, which the first separator decides. A field that ends the time may be followed by
one character that is not looked at. -/
def scanFields (index left : Nat) (colons : Bool) (f : ClockFields) (cs : List Char) :
    Nat → Option (ClockFields × Ending)
  | 0 => do
    let (micro, e) ← scanFraction left cs
    some ({ f with micro := micro }, e)
  | fuel + 1 => do
    let (n, r) ← scanTwo cs
    let f := f.set index n
    let c := r.head?.getD '\x00'
    let colons := if index = 0 then c = ':' else colons
    if left ≤ 3 && c.toNat < 128 then
      some (f, if c = '\x00' then .clean else .trailing)
    else if colons && c = ':' then scanFields (index + 1) (left - 3) colons f (r.drop 1) fuel
    else if c = '.' || c = ',' then do
      let (micro, e) ← scanFraction (left - 3) (r.drop 1)
      some ({ f with micro := micro }, e)
    else if !colons then scanFields (index + 1) (left - 2) colons f r fuel
    else none

/-- A time of day in the first `left` characters of a text. -/
def scanClock (left : Nat) (cs : List Char) : Option (ClockFields × Ending) :=
  scanFields 0 left true ⟨0, 0, 0, 0⟩ cs 3

/-- An offset as written: its seconds and its microseconds, or the letter for UTC. -/
abbrev WrittenOffset := Int × Int

/-- A character with which an offset starts. -/
def startsOffset (c : Char) : Bool := c = '+' || c = '-' || c = 'Z'

/-- A time of day and an offset. The offset starts at the first sign or `Z` of the text, which is
never its first character alone: the search looks at one character at least. -/
def scanTime (cs : List Char) : Option (ClockFields × Option WrittenOffset) := do
  let clock := cs.takeWhile fun c => !startsOffset c
  let (f, ending) ← scanClock clock.length cs
  match cs.drop clock.length with
  | [] => if ending = .trailing then none else some (f, none)
  | 'Z' :: r => if (r.head?.getD '\x00') = '\x00' then some (f, some (0, 0)) else none
  | sign :: r => do
    let (o, e) ← scanClock r.length r
    if e = .trailing then none
    else
      let seconds : Int := o.hour * 3600 + o.minute * 60 + o.second
      let k : Int := if sign = '-' then -1 else 1
      some (f, some (k * seconds, k * o.micro))

/-! ## Readings -/

/-- The offset written, checked. An offset of no whole second is UTC, whatever its fraction. -/
def checkOffset : Option WrittenOffset → Except ReadError (Option Int)
  | none => .ok none
  | some (seconds, micros) =>
    if seconds = 0 then .ok (some 0)
    else
      let o := seconds * 1000000 + micros
      if o.natAbs < microsPerDay then .ok (some o) else .error (.offset seconds micros)

/-- The reading with the given fields, or the first field that is out of range. -/
def ofFields (d : Calendar.Date) (f : ClockFields) (offset : Option Int) :
    Except ReadError Timestamp :=
  if d.year < 1 || 9999 < d.year then .error (.year d.year)
  else if d.month < 1 || 12 < d.month then .error .month
  else if d.day < 1 || Calendar.daysInMonth d.year d.month < d.day then .error .day
  else if 23 < f.hour then .error .hour
  else if 59 < f.minute then .error .minute
  else if 59 < f.second then .error .second
  else
    let wall := d.number * microsPerDay +
      ((f.hour * 60 + f.minute) * 60 + f.second) * 1000000 + f.micro
    if h : wall < wallLimit ∧ ∀ o ∈ offset, o.natAbs < microsPerDay then
      .ok ⟨wall, offset, h.1, h.2⟩
    else .error .day

/-- The fields a text spells, unchecked. -/
def scanAll (cs : List Char) :
    Option (Calendar.Date × ClockFields × Option WrittenOffset) := do
  let length ← dateLength cs
  let date ← scanDate length cs
  match cs.drop length with
  | [] => some (date, ⟨0, 0, 0, 0⟩, none)
  | _ :: rest => do
    let (f, o) ← scanTime rest
    some (date, f, o)

/-- The reading a text spells, or why it spells none. -/
def ofIso (s : String) : Except ReadError Timestamp :=
  match scanAll s.toList with
  | none => .error (.text s)
  | some (date, f, o) => do ofFields date f (← checkOffset o)

end CostCatalog.Timestamp
