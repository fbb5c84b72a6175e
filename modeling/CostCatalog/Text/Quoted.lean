import CostCatalog.Text.Printable

/-!
# Quoted texts

The form in which a text is named inside a message: between single quotes, or between double
quotes when it holds a single quote and no double one. The quote in use and the backslash are
escaped with a backslash, line breaks and tabs by their letters, and every other character that
does not print by its code point in two, four or eight hexadecimal digits.
-/

namespace CostCatalog.Text

/-- The lower-case hexadecimal digit of a number below sixteen. -/
def hexDigit (n : Nat) : Char := (Nat.digitChar n)

/-- A number in hexadecimal, cut or filled with zeros to `width` digits. -/
def hexPadded : Nat → Nat → List Char
  | 0, _ => []
  | width + 1, n => hexPadded width (n / 16) ++ [hexDigit (n % 16)]

/-- The code-point form of a character that does not print. -/
def codeEscape (c : Char) : List Char :=
  let n := c.toNat
  if n ≤ 0xFF then '\\' :: 'x' :: hexPadded 2 n
  else if n ≤ 0xFFFF then '\\' :: 'u' :: hexPadded 4 n
  else '\\' :: 'U' :: hexPadded 8 n

/-- One character inside a text quoted with `quote`. -/
def quoteChar (quote : Char) (c : Char) : List Char :=
  if c = quote || c = '\\' then ['\\', c]
  else if c = '\n' then ['\\', 'n']
  else if c = '\r' then ['\\', 'r']
  else if c = '\t' then ['\\', 't']
  else if isPrintable c then [c]
  else codeEscape c

/-- The quote a text is put between: the single one unless that costs an escape the double one
would not. -/
def quoteFor (cs : List Char) : Char :=
  if cs.contains '\'' && !cs.contains '"' then '"' else '\''

/-- A text between quotes. -/
def quoted (cs : List Char) : List Char :=
  let q := quoteFor cs
  q :: (cs.flatMap (quoteChar q) ++ [q])

/-- `quoted` on strings. -/
def quote (s : String) : String := String.ofList (quoted s.toList)

/-- Texts in a bracketed list, each one quoted: `['A', 'B']`. -/
def quotedList (xs : List String) : String :=
  "[" ++ ", ".intercalate (xs.map quote) ++ "]"

end CostCatalog.Text
