/-!
# Glob patterns

The patterns by which cache keys are dropped. A star stands for any characters, a question mark for
any one, a set in brackets for one of its members and every other character for itself. A set that
starts with `!` is the complement of the rest; a `]` at its front is a member; a bracket that is
never closed is a plain character; backslash and caret have no meaning of their own.

Inside a set a hyphen between two characters makes a range. A range whose ends are in the wrong
order is empty, and what is left of the set goes on without it.
-/

namespace CostCatalog.Glob

/-- A part of a pattern. -/
inductive Token where
  | any
  | star
  | only (c : Char)
  /-- One character that lies in one of the ranges, or in none of them. -/
  | range (negated : Bool) (ranges : List (Char × Char))
deriving DecidableEq, Repr

/-- Whether a character lies in one of some ranges. -/
def inRanges (ranges : List (Char × Char)) (c : Char) : Bool :=
  ranges.any fun r => r.1 ≤ c && c ≤ r.2

/-- Whether a part that stands for one character stands for this one. -/
def Token.accepts : Token → Char → Bool
  | .any, _ => true
  | .star, _ => true
  | .only d, c => d == c
  | .range negated ranges, c => inRanges ranges c != negated

/-! ## Sets -/

/-- A set cut at its hyphens. A hyphen cuts only behind `least` characters of its piece: it is a
plain member at the front, and so is one that follows a range at once. -/
def cut : Nat → Nat → List Char → List (List Char)
  | 0, _, cs => [cs]
  | fuel + 1, least, cs =>
    let front := cs.take least
    let rest := cs.drop least
    match rest.dropWhile (· != '-') with
    | [] => [cs]
    | _ :: behind => (front ++ rest.takeWhile (· != '-')) :: cut fuel 2 behind

/-- The pieces of a set, with a hyphen at its end put back as a member. -/
def pieces (cs : List Char) : List (List Char) :=
  let ps := cut cs.length (if cs.head? = some '!' then 2 else 1) cs
  match ps.reverse with
  | [] :: p :: front => ((p ++ ['-']) :: front).reverse
  | _ => ps

/-- The pieces with the empty ranges between them taken out, from the last to the first: the two
ends go, and what is left of the two pieces becomes one. -/
def dropEmpty : List (List Char) → List (List Char)
  | [] => []
  | p :: ps =>
    match p.getLast?, dropEmpty ps with
    | some lo, (hi :: rest) :: more =>
      if hi < lo then (p.dropLast ++ rest) :: more else p :: (hi :: rest) :: more
    | _, more => p :: more

/-- The ranges from the end of one piece to the start of the next. -/
def bridges : List (List Char) → List (Char × Char)
  | p :: q :: ps =>
    match p.getLast?, q.head? with
    | some lo, some hi => (lo, hi) :: bridges (q :: ps)
    | _, _ => bridges (q :: ps)
  | _ => []

/-- The set of some pieces: their characters, and the ranges between them. -/
def rangesOf (ps : List (List Char)) : List (Char × Char) :=
  ps.flatten.map (fun c => (c, c)) ++ bridges ps

/-- The part that a set in brackets stands for. -/
def setToken (body : List Char) : Token :=
  match dropEmpty (pieces body) with
  | ('!' :: p) :: ps => .range true (rangesOf (p :: ps))
  | ps => .range false (rangesOf ps)

/-- The text of a set and what follows its closing bracket, from behind the opening one. -/
def scanSet? (cs : List Char) : Option (List Char × List Char) :=
  let bang := if cs.head? = some '!' then 1 else 0
  let least := if (cs.drop bang).head? = some ']' then bang + 1 else bang
  let more := (cs.drop least).takeWhile (· != ']')
  match (cs.drop least).dropWhile (· != ']') with
  | [] => none
  | _ :: rest => some (cs.take least ++ more, rest)

/-! ## Patterns -/

/-- The parts of a pattern. The fuel is the length of the pattern. -/
def tokens : Nat → List Char → List Token
  | 0, _ => []
  | _ + 1, [] => []
  | fuel + 1, c :: cs =>
    if c = '*' then .star :: tokens fuel cs
    else if c = '?' then .any :: tokens fuel cs
    else if c = '[' then
      match scanSet? cs with
      | some (body, rest) => setToken body :: tokens fuel rest
      | none => .only c :: tokens fuel cs
    else .only c :: tokens fuel cs

/-- The parts of a pattern. -/
def ofPattern (cs : List Char) : List Token := tokens cs.length cs

/-- Whether parts stand for a whole text. -/
def covers : List Token → List Char → Bool
  | [], [] => true
  | [], _ :: _ => false
  | .star :: ts, [] => covers ts []
  | .star :: ts, c :: cs => covers ts (c :: cs) || covers (.star :: ts) cs
  | _ :: _, [] => false
  | t :: ts, c :: cs => t.accepts c && covers ts cs
termination_by ts cs => ts.length + cs.length

/-- Whether a text matches a pattern. -/
def isMatch (pattern text : String) : Bool := covers (ofPattern pattern.toList) text.toList

end CostCatalog.Glob
