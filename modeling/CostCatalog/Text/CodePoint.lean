/-!
# Texts of code points

A text is spelled by code points. Most code points are characters; the others are the halves of
surrogate pairs, which stand for no character, and in some texts they may stand all the same. A type
of texts is `Textual` when it says by which code points each text is spelled. There are two: strings,
which hold characters alone, and lists of any code points. What cannot stand in a text is spelled
with the replacement character in its place.
-/

namespace CostCatalog

/-- A code point: a character, or half of a surrogate pair, by its distance from U+D800. -/
inductive CodePoint where
  | char (c : Char)
  | half (n : Fin 0x800)
deriving DecidableEq, Repr

namespace CodePoint

/-- The number of a code point. -/
def toNat : CodePoint → Nat
  | .char c => c.toNat
  | .half n => 0xD800 + n

/-- The code point with a number below 0x110000. -/
def ofNat (n : Nat) : CodePoint :=
  if h : 0xD800 ≤ n ∧ n ≤ 0xDFFF then .half ⟨n - 0xD800, by omega⟩ else .char (Char.ofNat n)

/-- The first half of a pair. -/
def IsHigh (p : CodePoint) : Prop := 0xD800 ≤ p.toNat ∧ p.toNat ≤ 0xDBFF

/-- The second half of a pair. -/
def IsLow (p : CodePoint) : Prop := 0xDC00 ≤ p.toNat ∧ p.toNat ≤ 0xDFFF

instance (p : CodePoint) : Decidable p.IsHigh := inferInstanceAs (Decidable (_ ∧ _))

instance (p : CodePoint) : Decidable p.IsLow := inferInstanceAs (Decidable (_ ∧ _))

/-- Whether a code point is a character with a property. -/
def isChar (property : Char → Bool) : CodePoint → Bool
  | .char c => property c
  | .half _ => false

/-- The character that stands for a code point in a text of characters. -/
def toChar : CodePoint → Char
  | .char c => c
  | .half _ => '\uFFFD'

/-- Characters as code points. -/
abbrev ofChars (cs : List Char) : List CodePoint := cs.map .char

theorem not_isHigh_char (c : Char) : ¬ (char c).IsHigh := by
  have hvalid : c.toNat < 0xD800 ∨ 0xDFFF < c.toNat ∧ c.toNat < 0x110000 := c.valid
  simp only [IsHigh, toNat]
  omega

end CodePoint

/-- A type of texts. The code points of a text give it back, and the text that code points spell is
spelled by them if they are characters or stand in other texts of the type. -/
class Textual (τ : Type) where
  points : τ → List CodePoint
  ofPoints : List CodePoint → τ
  ofPoints_points : ∀ s, ofPoints (points s) = s
  points_ofPoints : ∀ ps, (∀ p ∈ ps, (∃ c, p = .char c) ∨ ∃ s, p ∈ points s) →
    points (ofPoints ps) = ps

namespace Textual

variable {τ : Type} [Textual τ]

/-- The text that characters spell. -/
def ofString (s : String) : τ := ofPoints (CodePoint.ofChars s.toList)

theorem points_ofString (s : String) :
    points (ofString s : τ) = CodePoint.ofChars s.toList :=
  points_ofPoints _ fun _ hp => by
    obtain ⟨c, -, rfl⟩ := List.mem_map.mp hp
    exact .inl ⟨c, rfl⟩

theorem ofString_injective {s t : String} (h : (ofString s : τ) = ofString t) : s = t := by
  have hpoints := congrArg points h
  rw [points_ofString, points_ofString] at hpoints
  exact String.toList_injective ((List.map_inj_right fun _ _ => CodePoint.char.inj).mp hpoints)

end Textual

/-- Texts of characters. -/
instance : Textual String where
  points s := CodePoint.ofChars s.toList
  ofPoints ps := String.ofList (ps.map CodePoint.toChar)
  ofPoints_points s := by
    have hchar : CodePoint.toChar ∘ CodePoint.char = id := rfl
    rw [List.map_map, hchar, List.map_id, String.ofList_toList]
  points_ofPoints ps h := by
    rw [String.toList_ofList, CodePoint.ofChars, List.map_map]
    refine (List.map_congr_left fun p hp => ?_).trans (List.map_id ps)
    rcases h p hp with ⟨c, rfl⟩ | ⟨s, hs⟩
    · rfl
    · obtain ⟨c, -, rfl⟩ := List.mem_map.mp hs
      rfl

/-- Texts of any code points. -/
abbrev CodeText := List CodePoint

instance : Textual CodeText where
  points s := s
  ofPoints ps := ps
  ofPoints_points _ := rfl
  points_ofPoints _ _ := rfl

end CostCatalog
