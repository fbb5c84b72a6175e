import CostCatalog.Fault.Basic

/-!
# Codes

The identifier of an entry: a capital letter of ASCII, then capitals, digits and underscores, up to
a length that its kind sets. A code is always well formed; a text that is not is refused, with no
case folded and nothing trimmed.
-/

namespace CostCatalog

/-- The greatest length of a code. -/
def Kind.codeLimit : Kind → Nat
  | .uom => 20
  | .parameter => 50

namespace Code

/-- A capital letter of ASCII. -/
def isCapital (c : Char) : Bool := 'A' ≤ c && c ≤ 'Z'

/-- A character that may stand behind the first. -/
def isTail (c : Char) : Bool := isCapital c || c.isDigit || c == '_'

/-- Whether characters make a code of a kind. -/
def isWellFormed (k : Kind) : List Char → Bool
  | [] => false
  | c :: cs => isCapital c && cs.all isTail && cs.length < k.codeLimit

end Code

/-- The code of an entry of a kind. -/
structure Code (k : Kind) where
  text : String
  wellFormed : Code.isWellFormed k text.toList = true
deriving DecidableEq

namespace Code

variable {k : Kind}

/-- The code with a text, if the text is well formed. -/
def ofText? (k : Kind) (s : String) : Option (Code k) :=
  if h : isWellFormed k s.toList = true then some ⟨s, h⟩ else none

/-- The code that a value spells, or the rule it breaks. Only texts spell codes. -/
def parse (k : Kind) (v : Json) : Except Fault (Code k) :=
  match v.str?.bind (ofText? k) with
  | some c => .ok c
  | none => .error (.ofRule (.malformedCode k))

@[simp] theorem ofText?_text (c : Code k) : ofText? k c.text = some c := by
  simp [ofText?, c.wellFormed]

theorem text_of_ofText? {s : String} {c : Code k} (h : ofText? k s = some c) : c.text = s := by
  unfold ofText? at h
  split at h
  · cases h; rfl
  · cases h

/-- A code is determined by its text. -/
theorem ext_text {a b : Code k} (h : a.text = b.text) : a = b := by
  cases a; cases b; cases h; rfl

end Code

end CostCatalog
