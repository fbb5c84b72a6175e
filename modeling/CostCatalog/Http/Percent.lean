import CostCatalog.Json.Reader
import CostCatalog.Text.Quoted
import CostCatalog.Text.Utf8

/-!
# Percent-encoding

Bytes that may not stand in an address, written as a percent sign and two hexadecimal digits.
Writing encodes every character outside a set; reading takes every percent sign that two digits
follow and leaves all others as they are.
-/

namespace CostCatalog.Http

/-- The bytes of a run of ASCII characters, with what is encoded in it decoded. -/
def percentBytes : List Char → List Nat
  | '%' :: a :: b :: cs =>
    match Json.hexValue? a, Json.hexValue? b with
    | some x, some y => (x * 16 + y) :: percentBytes cs
    | _, _ => '%'.toNat :: percentBytes (a :: b :: cs)
  | c :: cs => c.toNat :: percentBytes cs
  | [] => []

/-- Whether a character is one of ASCII. -/
def isAscii (c : Char) : Bool := c.toNat < 0x80

/-- A text with what is encoded in it decoded. The bytes of a run of ASCII characters are read as
UTF-8; a character beyond ASCII ends the run and stands for itself. `run` is the run so far, its
last character first. -/
def percentDecode (run : List Char) : List Char → List Char
  | [] => Text.decodeUtf8 (percentBytes run.reverse)
  | c :: cs =>
    if isAscii c then percentDecode (c :: run) cs
    else Text.decodeUtf8 (percentBytes run.reverse) ++ c :: percentDecode [] cs

/-- The digits of a byte behind a percent sign, in capitals. -/
def percentByte (b : Nat) : List Char := '%' :: (Text.hexPadded 2 b).map Char.toUpper

/-- The characters that are never encoded. -/
def isUnreserved (c : Char) : Bool :=
  c.isAlphanum || c == '_' || c == '.' || c == '-' || c == '~'

/-- A text with every character encoded that is neither unreserved nor among `safe`. -/
def percentEncode (safe : List Char) (cs : List Char) : List Char :=
  cs.flatMap fun c =>
    if isUnreserved c || safe.contains c then [c]
    else (Text.utf8Bytes c).flatMap percentByte

end CostCatalog.Http
