/-!
# Characters as bytes

The bytes of a character in UTF-8, and the characters of bytes that may not be UTF-8 at all. Where
the bytes do not go on as a character must, the part that was good so far becomes one U+FFFD and
reading starts afresh at the byte that was wrong.
-/

namespace CostCatalog.Text

/-- The bytes of a character. -/
def utf8Bytes (c : Char) : List Nat := (String.utf8EncodeChar c).map UInt8.toNat

/-- The character that stands for bytes that are none. -/
def replacement : Char := '\uFFFD'

/-- A character of which some bytes are still to come, the next one between `low` and `high`. -/
structure Unfinished where
  value : Nat
  left : Nat
  low : Nat := 0x80
  high : Nat := 0xBF
deriving DecidableEq, Repr

/-- What a byte is at the start of a character: the whole of it, a part, or wrong. The bounds on the
second byte rule out surrogates, numbers beyond the last character and spellings longer than need
be. -/
def firstByte (b : Nat) : Char ⊕ Unfinished :=
  if b < 0x80 then .inl (Char.ofNat b)
  else if b < 0xC2 then .inl replacement
  else if b < 0xE0 then .inr { value := b - 0xC0, left := 1 }
  else if b = 0xE0 then .inr { value := 0, left := 2, low := 0xA0 }
  else if b = 0xED then .inr { value := 0xD, left := 2, high := 0x9F }
  else if b < 0xF0 then .inr { value := b - 0xE0, left := 2 }
  else if b = 0xF0 then .inr { value := 0, left := 3, low := 0x90 }
  else if b < 0xF4 then .inr { value := b - 0xF0, left := 3 }
  else if b = 0xF4 then .inr { value := 4, left := 3, high := 0x8F }
  else .inl replacement

/-- The characters of some bytes, of which the first may go on with an unfinished one. -/
def decodeFrom : Option Unfinished → List Nat → List Char
  | none, [] => []
  | some _, [] => [replacement]
  | none, b :: bs =>
    match firstByte b with
    | .inl c => c :: decodeFrom none bs
    | .inr u => decodeFrom (some u) bs
  | some u, b :: bs =>
    if u.low ≤ b ∧ b ≤ u.high then
      let value := u.value * 64 + b % 64
      if u.left = 1 then Char.ofNat value :: decodeFrom none bs
      else decodeFrom (some { value, left := u.left - 1 }) bs
    else
      replacement ::
        match firstByte b with
        | .inl c => c :: decodeFrom none bs
        | .inr u => decodeFrom (some u) bs

/-- The characters of some bytes. -/
def decodeUtf8 (bs : List Nat) : List Char := decodeFrom none bs

end CostCatalog.Text
