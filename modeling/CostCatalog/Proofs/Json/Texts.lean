import CostCatalog.Json.Printer
import CostCatalog.Json.Reader
import Mathlib.Data.List.Chain

/-!
# Quoted texts read back

What is written between quotes is read as the text it was written from. All that matters of an
escape is said of one code point and whatever follows it, `Escape.ReadsBack`; both ways of escaping
have that property, the surrogate pairs of the second included.

One thing is lost in ASCII. The two halves of a surrogate pair, written one behind the other as if
they were two code points, are what the character of the pair is written as, and are read as that
character. So a text comes back if no low half stands in it directly behind a high one; and without
ASCII every text comes back.
-/

namespace CostCatalog.Json

/-- Two code points that are not read as one: not the two halves of a pair in their order. -/
def Apart (p q : CodePoint) : Prop := p.IsHigh → ¬ q.IsLow

instance : DecidableRel Apart := fun _ _ => inferInstanceAs (Decidable (_ → _))

/-- Every code point is written as something, and read off the front of what follows as itself, if
that is not the second half of a pair of which it is the first. The escape of a code point that may
stand behind a first half is none. -/
structure Escape.ReadsBack (escape : Escape) (Follows : CodePoint → CodePoint → Prop) : Prop where
  ne_nil : ∀ p, escape p ≠ []
  scanText : ∀ (opened fuel : Nat) (p : CodePoint) (after : List CodePoint), after ≠ [] →
    (p.IsHigh → lowHalf? after = none) →
    scanText opened (fuel + 1) (escape p ++ after) =
      (scanText opened fuel after).map fun found => (p :: found.1, found.2)
  lowHalf? : ∀ (p q : CodePoint) (rest : List CodePoint), p.IsHigh → Follows p q →
    lowHalf? (escape q ++ rest) = none

/-! ## Code units -/

private theorem hexValue?_hexDigit : ∀ n < 16, hexValue? (Text.hexDigit n) = some n := by decide

/-- The four digits of a code unit. -/
private theorem hexPadded_four (n : Nat) : Text.hexPadded 4 n =
    [Text.hexDigit (n / 16 / 16 / 16 % 16), Text.hexDigit (n / 16 / 16 % 16),
      Text.hexDigit (n / 16 % 16), Text.hexDigit (n % 16)] := rfl

private theorem hexUnit?_hexDigit {n : Nat} (hn : n < 0x10000) :
    hexUnit? (Text.hexDigit (n / 16 / 16 / 16 % 16)) (Text.hexDigit (n / 16 / 16 % 16))
      (Text.hexDigit (n / 16 % 16)) (Text.hexDigit (n % 16)) = some n := by
  have hvalue (m : Nat) := hexValue?_hexDigit (m % 16) (Nat.mod_lt m (by decide))
  simp only [hexUnit?, hvalue]
  congr 1
  omega

/-- A code unit is read together with the low half behind it, if it is a high one. -/
private theorem scanText_unitEscape (opened fuel : Nat) {n : Nat} (hn : n < 0x10000)
    (q : CodePoint) (after : List CodePoint) :
    scanText opened (fuel + 1) (CodePoint.ofChars (unitEscape n) ++ q :: after) =
      match if 0xD800 ≤ n && n ≤ 0xDBFF then lowHalf? (q :: after) else none with
      | some (lo, rest) =>
        (scanText opened fuel rest).map fun found => (ofPair n lo :: found.1, found.2)
      | none => (scanText opened fuel (q :: after)).map fun found => (.ofNat n :: found.1, found.2)
    := by
  rw [unitEscape, hexPadded_four]
  simp only [CodePoint.ofChars, List.map_cons, List.map_nil, List.cons_append, List.nil_append,
    scanText, hexUnit?_hexDigit hn]
  generalize (if 0xD800 ≤ n && n ≤ 0xDBFF then lowHalf? (q :: after) else none) = low
  cases low with
  | none => cases scanText opened fuel (q :: after) <;> rfl
  | some low => cases h : scanText opened fuel low.2 <;> simp only [h] <;> rfl

/-- A code unit that no low half follows is read as its code point. -/
private theorem scanText_unit (opened fuel : Nat) {n : Nat} (hn : n < 0x10000) (q : CodePoint)
    (after : List CodePoint) (hlone : 0xD800 ≤ n ∧ n ≤ 0xDBFF → lowHalf? (q :: after) = none) :
    scanText opened (fuel + 1) (CodePoint.ofChars (unitEscape n) ++ q :: after) =
      (scanText opened fuel (q :: after)).map fun found => (.ofNat n :: found.1, found.2) := by
  have hnone : (if 0xD800 ≤ n && n ≤ 0xDBFF then lowHalf? (q :: after) else none) = none := by
    split
    · next h => exact hlone (by rwa [← Bool.decide_and, decide_eq_true_eq] at h)
    · rfl
  rw [scanText_unitEscape opened fuel hn, hnone]

/-- What the escape of a code unit says as the second half of a pair: itself, if it is one. -/
private theorem lowHalf?_unitEscape {n : Nat} (hn : n < 0x10000) (rest : List CodePoint) :
    lowHalf? (CodePoint.ofChars (unitEscape n) ++ rest) =
      if 0xDC00 ≤ n ∧ n ≤ 0xDFFF then rest.head?.map fun _ => (n, rest) else none := by
  rw [unitEscape, hexPadded_four]
  simp only [CodePoint.ofChars, List.map_cons, List.map_nil, List.cons_append, List.nil_append]
  cases rest with
  | nil => exact (ite_self _).symm
  | cons e rest =>
    simp only [lowHalf?, hexUnit?_hexDigit hn, Bool.and_eq_true, decide_eq_true_eq, List.head?_cons,
      Option.map_some]

/-- Two halves of a pair are read as the character of the pair. -/
private theorem scanText_pair (opened fuel : Nat) {hi lo : Nat} (hhi : 0xD800 ≤ hi ∧ hi ≤ 0xDBFF)
    (hlo : 0xDC00 ≤ lo ∧ lo ≤ 0xDFFF) (q : CodePoint) (after : List CodePoint) :
    scanText opened (fuel + 1)
        (CodePoint.ofChars (unitEscape hi) ++ (CodePoint.ofChars (unitEscape lo) ++ q :: after)) =
      (scanText opened fuel (q :: after)).map fun found => (ofPair hi lo :: found.1, found.2) := by
  have hhigh : (decide (0xD800 ≤ hi) && decide (hi ≤ 0xDBFF)) = true := by
    rw [← Bool.decide_and]
    exact decide_eq_true hhi
  have hread : lowHalf? (CodePoint.ofChars (unitEscape lo) ++ q :: after) =
      some (lo, q :: after) := by
    rw [lowHalf?_unitEscape (by omega), if_pos hlo]
    rfl
  have hcons : CodePoint.ofChars (unitEscape lo) ++ q :: after =
      .char '\\' :: (CodePoint.ofChars ('u' :: Text.hexPadded 4 lo) ++ q :: after) := rfl
  rw [hcons, scanText_unitEscape opened fuel (by omega), hhigh, if_pos rfl, ← hcons, hread]

/-! ## Characters -/

/-- A code point that may stand for itself is read as it is. -/
private theorem scanText_plain (opened fuel : Nat) {p : CodePoint} (hquote : p ≠ .char '"')
    (hslash : p ≠ .char '\\') (hcontrol : ¬ p.toNat < 32) (after : List CodePoint) :
    scanText opened (fuel + 1) (p :: after) =
      (scanText opened fuel after).map fun found => (p :: found.1, found.2) := by
  rw [scanText]
  · rw [if_neg hcontrol]
    cases scanText opened fuel after <;> rfl
  · exact fun h => hquote h
  · exact fun h => hslash h

/-- A character that is written with a letter behind a backslash is read by that letter. -/
private theorem scanText_letter (opened fuel : Nat) {c letter : Char} (hu : letter ≠ 'u')
    (h : escaped? letter = some c) (after : List CodePoint) :
    scanText opened (fuel + 1) (CodePoint.ofChars ['\\', letter] ++ after) =
      (scanText opened fuel after).map fun found => (.char c :: found.1, found.2) := by
  simp only [CodePoint.ofChars, List.map_cons, List.map_nil, List.cons_append, List.nil_append]
  rw [scanText, h]
  · cases scanText opened fuel after <;> rfl
  · exact fun _ _ _ _ _ _ _ heq => hu heq
  · exact hu

/-- The escapes of a character, one by one: a letter behind a backslash, a code unit, or the
character itself. -/
private theorem escapeChar_cases (c : Char) :
    (∃ letter, escapeChar c = ['\\', letter] ∧ letter ≠ 'u' ∧ escaped? letter = some c) ∨
      (escapeChar c = unitEscape c.toNat ∧ c.toNat < 32) ∨
      (escapeChar c = [c] ∧ c ≠ '"' ∧ c ≠ '\\' ∧ ¬ c.toNat < 32) := by
  have hletter (letter : Char) (hu : letter ≠ 'u') (h : escaped? letter = some c) :
      ∃ l, ['\\', letter] = ['\\', l] ∧ l ≠ 'u' ∧ escaped? l = some c := ⟨letter, rfl, hu, h⟩
  unfold escapeChar
  split
  · next h => exact .inl (hletter '"' (by decide) (by rw [h]; rfl))
  · next hquote =>
  split
  · next h => exact .inl (hletter '\\' (by decide) (by rw [h]; rfl))
  · next hslash =>
  split
  · next h => exact .inl (hletter 'n' (by decide) (h ▸ rfl))
  split
  · next h => exact .inl (hletter 'r' (by decide) (h ▸ rfl))
  split
  · next h => exact .inl (hletter 't' (by decide) (h ▸ rfl))
  split
  · next h => exact .inl (hletter 'b' (by decide) (h ▸ rfl))
  split
  · next h => exact .inl (hletter 'f' (by decide) (h ▸ rfl))
  split
  · next hlow => exact .inr (.inl ⟨rfl, hlow⟩)
  · next hcontrol => exact .inr (.inr ⟨rfl, hquote, hslash, hcontrol⟩)

private theorem escapeChar_ne_nil (c : Char) : escapeChar c ≠ [] := by
  rcases escapeChar_cases c with ⟨letter, h, -⟩ | ⟨h, -⟩ | ⟨h, -⟩ <;> rw [h] <;>
    exact List.cons_ne_nil _ _

private theorem scanText_escapeChar (opened fuel : Nat) (c : Char) (q : CodePoint)
    (after : List CodePoint) :
    scanText opened (fuel + 1) (CodePoint.ofChars (escapeChar c) ++ q :: after) =
      (scanText opened fuel (q :: after)).map fun found => (.char c :: found.1, found.2) := by
  rcases escapeChar_cases c with ⟨letter, h, hu, hmeans⟩ | ⟨h, hlow⟩ | ⟨h, hquote, hslash, hplain⟩
  · rw [h, scanText_letter opened fuel hu hmeans]
  · have hunit : CodePoint.ofNat c.toNat = .char c := by
      rw [CodePoint.ofNat, dif_neg (by omega), Char.ofNat_toNat]
    rw [h, scanText_unit opened fuel (by omega) q after (by omega), hunit]
  · rw [h]
    exact scanText_plain opened fuel (fun h => hquote (CodePoint.char.inj h))
      (fun h => hslash (CodePoint.char.inj h)) hplain (q :: after)

private theorem lowHalf?_escapeChar (c : Char) (rest : List CodePoint) :
    lowHalf? (CodePoint.ofChars (escapeChar c) ++ rest) = none := by
  rcases escapeChar_cases c with ⟨letter, h, hu, -⟩ | ⟨h, hlow⟩ | ⟨h, -, hslash, -⟩
  · rw [h]
    unfold lowHalf?
    split
    · next heq => cases heq; exact absurd rfl hu
    · rfl
  · rw [h, lowHalf?_unitEscape (by omega), if_neg (by omega)]
  · rw [h]
    unfold lowHalf?
    split
    · next heq => cases heq; exact absurd rfl hslash
    · rfl

theorem escapeControl_readsBack : Escape.ReadsBack escapeControl fun _ _ => True where
  ne_nil p := by
    cases p with
    | char c => exact fun h => escapeChar_ne_nil c (List.map_eq_nil_iff.mp h)
    | half n => exact List.cons_ne_nil _ _
  scanText opened fuel p after hafter _ := by
    obtain ⟨q, after, rfl⟩ := List.exists_cons_of_ne_nil hafter
    cases p with
    | char c => exact scanText_escapeChar opened fuel c q after
    | half n =>
      have hplain : ¬ (CodePoint.half n).toNat < 32 := by
        simp only [CodePoint.toNat]
        omega
      exact scanText_plain opened fuel CodePoint.noConfusion CodePoint.noConfusion hplain (q :: after)
  lowHalf? _ q rest _ _ := by
    cases q with
    | char c => exact lowHalf?_escapeChar c rest
    | half n => rfl

/-! ## ASCII -/

/-- The halves of a character beyond the first 65536 are a pair, and the pair is the character. -/
private theorem surrogates_spec {c : Char} (h : 0x10000 ≤ c.toNat) :
    (0xD800 ≤ (surrogates c).1 ∧ (surrogates c).1 ≤ 0xDBFF) ∧
      (0xDC00 ≤ (surrogates c).2 ∧ (surrogates c).2 ≤ 0xDFFF) ∧
      ofPair (surrogates c).1 (surrogates c).2 = .char c := by
  have hvalid : c.toNat < 0xD800 ∨ 0xDFFF < c.toNat ∧ c.toNat < 0x110000 := c.valid
  have hvalue : 0x10000 + ((surrogates c).1 - 0xD800) * 1024 + ((surrogates c).2 - 0xDC00) =
      c.toNat := by
    simp only [surrogates]
    omega
  refine ⟨?_, ?_, ?_⟩
  · simp only [surrogates]
    omega
  · simp only [surrogates]
    omega
  · rw [ofPair, hvalue, Char.ofNat_toNat]

/-- The escapes of a character in ASCII: that of any writer, its one code unit, or its two. -/
private theorem asciiChar_cases (c : Char) :
    asciiChar c = escapeChar c ∨
      (asciiChar c = unitEscape c.toNat ∧ c.toNat < 0x10000 ∧
        ¬ (0xD800 ≤ c.toNat ∧ c.toNat ≤ 0xDFFF)) ∨
      (asciiChar c = unitEscape (surrogates c).1 ++ unitEscape (surrogates c).2 ∧
        0x10000 ≤ c.toNat) := by
  have hvalid : c.toNat < 0xD800 ∨ 0xDFFF < c.toNat ∧ c.toNat < 0x110000 := c.valid
  unfold asciiChar
  split
  · exact .inl rfl
  · split
    · next hlt => exact .inr (.inl ⟨rfl, hlt, by omega⟩)
    · next hge => exact .inr (.inr ⟨rfl, Nat.le_of_not_lt hge⟩)

private theorem ofNat_half (n : Fin 0x800) : CodePoint.ofNat (0xD800 + n) = .half n := by
  have hhalf : 0xD800 ≤ 0xD800 + n.val ∧ 0xD800 + n.val ≤ 0xDFFF := by omega
  rw [CodePoint.ofNat, dif_pos hhalf]
  exact congrArg CodePoint.half (Fin.ext (Nat.add_sub_cancel_left ..))

theorem escapeAscii_readsBack : Escape.ReadsBack escapeAscii Apart where
  ne_nil p := by
    cases p with
    | char c =>
      refine fun h => absurd (List.map_eq_nil_iff.mp h) ?_
      rcases asciiChar_cases c with h | ⟨h, -⟩ | ⟨h, -⟩ <;> rw [h]
      · exact escapeChar_ne_nil c
      · exact List.cons_ne_nil _ _
      · exact List.cons_ne_nil _ _
    | half n => exact List.cons_ne_nil _ _
  scanText opened fuel p after hafter hlone := by
    obtain ⟨q, after, rfl⟩ := List.exists_cons_of_ne_nil hafter
    cases p with
    | char c =>
      rw [escapeAscii]
      rcases asciiChar_cases c with h | ⟨h, hlt, hchar⟩ | ⟨h, hge⟩
      · rw [h, scanText_escapeChar]
      · have hunit : CodePoint.ofNat c.toNat = .char c := by
          rw [CodePoint.ofNat, dif_neg hchar, Char.ofNat_toNat]
        rw [h, scanText_unit opened fuel hlt q after (by omega), hunit]
      · obtain ⟨hhi, hlo, hpair⟩ := surrogates_spec hge
        rw [h, CodePoint.ofChars, List.map_append, List.append_assoc,
          scanText_pair opened fuel hhi hlo, hpair]
    | half n =>
      have hunit : 0xD800 + n.val < 0x10000 := by omega
      rw [escapeAscii, scanText_unit opened fuel hunit q after hlone, ofNat_half]
  lowHalf? p q rest hp hfollows := by
    have hlow := hfollows hp
    cases q with
    | char c =>
      rw [escapeAscii]
      rcases asciiChar_cases c with h | ⟨h, hlt, hchar⟩ | ⟨h, hge⟩
      · rw [h, lowHalf?_escapeChar]
      · rw [h, lowHalf?_unitEscape hlt, if_neg (by omega)]
      · obtain ⟨hhi, -⟩ := surrogates_spec hge
        rw [h, CodePoint.ofChars, List.map_append, List.append_assoc,
          lowHalf?_unitEscape (by omega), if_neg (by omega)]
    | half n =>
      rw [escapeAscii, lowHalf?_unitEscape (by omega)]
      exact if_neg hlow

/-! ## Whole texts -/

section

variable {escape : Escape} {Follows : CodePoint → CodePoint → Prop}

/-- Up to the closing quote, by induction on the code points: each is followed by the escape of the
next one or by the quote, and neither completes a pair. -/
private theorem scanText_flatMap (h : escape.ReadsBack Follows) (opened : Nat)
    {ps : List CodePoint} (hps : ps.IsChain Follows) (rest : List CodePoint) (fuel : Nat)
    (hfuel : ps.length < fuel) :
    scanText opened fuel (ps.flatMap escape ++ .char '"' :: rest) = .ok (ps, rest) := by
  induction ps generalizing fuel with
  | nil =>
    obtain ⟨n, rfl⟩ : ∃ n, fuel = n + 1 := ⟨fuel - 1, by simp at hfuel; omega⟩
    rfl
  | cons p ps ih =>
    obtain ⟨n, rfl⟩ : ∃ n, fuel = n + 1 := ⟨fuel - 1, by omega⟩
    have hn : ps.length < n := by
      rw [List.length_cons] at hfuel
      omega
    have hne : ps.flatMap escape ++ .char '"' :: rest ≠ [] :=
      List.append_ne_nil_of_right_ne_nil _ (List.cons_ne_nil _ _)
    have hlone (hp : p.IsHigh) : lowHalf? (ps.flatMap escape ++ .char '"' :: rest) = none := by
      cases ps with
      | nil => rfl
      | cons q ps =>
        rw [List.flatMap_cons, List.append_assoc]
        exact h.lowHalf? p q _ hp (List.isChain_cons_cons.mp hps).1
    rw [List.flatMap_cons, List.append_assoc, h.scanText opened n p _ hne hlone,
      ih hps.tail n hn]
    rfl

private theorem length_le_flatMap (h : escape.ReadsBack Follows) (ps : List CodePoint) :
    ps.length ≤ (ps.flatMap escape).length := by
  induction ps with
  | nil => exact Nat.le_refl _
  | cons p ps ih =>
    have hpos : 0 < (escape p).length := List.length_pos_iff.mpr (h.ne_nil p)
    rw [List.flatMap_cons, List.length_append, List.length_cons]
    omega

/-- A text between quotes is read back. -/
theorem scanQuoted_flatMap {τ : Type} [Textual τ] (h : escape.ReadsBack Follows) {s : τ}
    (hs : (Textual.points s).IsChain Follows) (rest : List CodePoint) :
    scanQuoted ((Textual.points s).flatMap escape ++ .char '"' :: rest) = .ok (s, rest) := by
  have hfuel : (Textual.points s).length <
      ((Textual.points s).flatMap escape ++ .char '"' :: rest).length + 1 := by
    have := length_le_flatMap h (Textual.points s)
    rw [List.length_append]
    omega
  rw [scanQuoted, scanText_flatMap h _ hs _ _ hfuel]
  exact congrArg (fun t => Except.ok (t, rest)) (Textual.ofPoints_points s)

end

end CostCatalog.Json
