import CostCatalog.Proofs.Json.Tokens

/-!
# What a written value is made of

Words, digits and marks, none of them a control character, and the escapes of what its texts hold:
`forall_mem_spell` is the walk over a value that says so. Three things follow. However hostile its
texts, a value is written without any of the first thirty-two characters, a line break in particular
(`spell_noControl`). What is written can stand in a text of the type that the value's own texts have
(`points_print`), and in ASCII it is made of characters alone (`points_printAscii`).
-/

namespace CostCatalog.Json

variable {τ : Type} [Textual τ] {escape : Escape}

/-! ## The walk -/

section

variable {P : CodePoint → Prop}

/-- Characters that are no control characters have the property. -/
private abbrev Covers (P : CodePoint → Prop) : Prop := ∀ c : Char, 32 ≤ c.toNat → P (.char c)

private theorem forall_mem_ofChars (hP : Covers P) {cs : List Char} (hcs : IsRun cs) :
    ∀ q ∈ CodePoint.ofChars cs, P q := by
  intro q hq
  obtain ⟨c, hc, rfl⟩ := List.mem_map.mp hq
  exact hP c (hcs.noControl c hc)

private theorem forall_mem_quotePoints (hP : Covers P) {ps : List CodePoint}
    (hps : ∀ p ∈ ps, ∀ q ∈ escape p, P q) : ∀ q ∈ quotePoints escape ps, P q := by
  refine List.forall_mem_cons.mpr ⟨hP '"' (by decide), List.forall_mem_append.mpr ⟨?_, ?_⟩⟩
  · intro q hq
    obtain ⟨p, hp, hq⟩ := List.mem_flatMap.mp hq
    exact hps p hp q hq
  · exact List.forall_mem_singleton.mpr (hP '"' (by decide))

mutual

/-- A property of code points that all but the control characters have, and that the escapes in texts
have, is had by all that a value is written as. -/
theorem forall_mem_spell (hP : Covers P)
    (htext : ∀ s : τ, ∀ p ∈ Textual.points s, ∀ q ∈ escape p, P q) :
    ∀ v : Json τ, ∀ q ∈ spell escape v, P q
  | .null => forall_mem_ofChars hP (IsRun.of_all rfl)
  | .bool true => forall_mem_ofChars hP (IsRun.of_all rfl)
  | .bool false => forall_mem_ofChars hP (IsRun.of_all rfl)
  | .int n => forall_mem_ofChars hP (isRun_intChars n)
  | .float x => forall_mem_ofChars hP (isRun_floatText x)
  | .str s => forall_mem_quotePoints hP (htext s)
  | .arr items => List.forall_mem_cons.mpr ⟨hP '[' (by decide), List.forall_mem_append.mpr
      ⟨forall_mem_spellItems hP htext items, List.forall_mem_singleton.mpr (hP ']' (by decide))⟩⟩
  | .obj members => List.forall_mem_cons.mpr ⟨hP '{' (by decide), List.forall_mem_append.mpr
      ⟨forall_mem_spellMembers hP htext members,
        List.forall_mem_singleton.mpr (hP '}' (by decide))⟩⟩

private theorem forall_mem_spellItems (hP : Covers P)
    (htext : ∀ s : τ, ∀ p ∈ Textual.points s, ∀ q ∈ escape p, P q) :
    ∀ vs : List (Json τ), ∀ q ∈ spellItems escape vs, P q
  | [] => List.forall_mem_nil _
  | [v] => forall_mem_spell hP htext v
  | v :: w :: vs => List.forall_mem_append.mpr ⟨forall_mem_spell hP htext v,
      List.forall_mem_cons.mpr ⟨hP ',' (by decide), List.forall_mem_cons.mpr ⟨hP ' ' (by decide),
        forall_mem_spellItems hP htext (w :: vs)⟩⟩⟩

private theorem forall_mem_spellMembers (hP : Covers P)
    (htext : ∀ s : τ, ∀ p ∈ Textual.points s, ∀ q ∈ escape p, P q) :
    ∀ ms : List (τ × Json τ), ∀ q ∈ spellMembers escape ms, P q
  | [] => List.forall_mem_nil _
  | [(k, v)] => List.forall_mem_append.mpr ⟨forall_mem_quotePoints hP (htext k),
      List.forall_mem_cons.mpr ⟨hP ':' (by decide), List.forall_mem_cons.mpr ⟨hP ' ' (by decide),
        forall_mem_spell hP htext v⟩⟩⟩
  | (k, v) :: m :: ms => List.forall_mem_append.mpr ⟨forall_mem_quotePoints hP (htext k),
      List.forall_mem_cons.mpr ⟨hP ':' (by decide), List.forall_mem_cons.mpr ⟨hP ' ' (by decide),
        List.forall_mem_append.mpr ⟨forall_mem_spell hP htext v,
          List.forall_mem_cons.mpr ⟨hP ',' (by decide), List.forall_mem_cons.mpr ⟨hP ' ' (by decide),
            forall_mem_spellMembers hP htext (m :: ms)⟩⟩⟩⟩⟩⟩

end

end

/-! ## Control characters -/

private theorem le_toNat_hexDigit : ∀ n < 16, 32 ≤ (Text.hexDigit n).toNat := by decide

private theorem noControl_unitEscape (n : Nat) : ∀ c ∈ unitEscape n, 32 ≤ c.toNat := by
  have hdigit (n : Nat) := le_toNat_hexDigit (n % 16) (Nat.mod_lt n (by decide))
  have hpadded (width n : Nat) : ∀ c ∈ Text.hexPadded width n, 32 ≤ c.toNat := by
    induction width generalizing n with
    | zero => exact List.forall_mem_nil _
    | succ width ih =>
      exact List.forall_mem_append.mpr ⟨ih _, List.forall_mem_singleton.mpr (hdigit n)⟩
  exact List.forall_mem_cons.mpr ⟨by decide, List.forall_mem_cons.mpr ⟨by decide, hpadded 4 n⟩⟩

/-- What stands for itself is no control character, and what does not has an escape of letters. -/
private theorem noControl_escapeChar (c : Char) : ∀ d ∈ escapeChar c, 32 ≤ d.toNat := by
  have hpair (letter : Char) (hletter : 32 ≤ letter.toNat) : ∀ d ∈ ['\\', letter], 32 ≤ d.toNat :=
    List.forall_mem_cons.mpr ⟨by decide, List.forall_mem_singleton.mpr hletter⟩
  unfold escapeChar
  split
  · exact hpair '"' (by decide)
  split
  · exact hpair '\\' (by decide)
  split
  · exact hpair 'n' (by decide)
  split
  · exact hpair 'r' (by decide)
  split
  · exact hpair 't' (by decide)
  split
  · exact hpair 'b' (by decide)
  split
  · exact hpair 'f' (by decide)
  split
  · exact noControl_unitEscape _
  · next hplain => exact List.forall_mem_singleton.mpr (Nat.le_of_not_lt hplain)

/-- A value is written without control characters, so on one line. -/
theorem spell_noControl (v : Json τ) : ∀ q ∈ spell escapeControl v, 32 ≤ q.toNat := by
  refine forall_mem_spell (fun c hc => hc) (fun _ p _ q hq => ?_) v
  cases p with
  | char c =>
    obtain ⟨d, hd, rfl⟩ := List.mem_map.mp hq
    exact noControl_escapeChar c d hd
  | half n =>
    rw [List.mem_singleton.mp hq]
    simp only [CodePoint.toNat]
    omega

/-! ## The texts of values -/

/-- The text of a value is spelled as the value is written. -/
theorem points_print (v : Json τ) : Textual.points v.print = spell escapeControl v := by
  refine Textual.points_ofPoints _ ?_
  refine forall_mem_spell (fun c _ => .inl ⟨c, rfl⟩) (fun s p hp q hq => ?_) v
  cases p with
  | char c =>
    obtain ⟨d, -, rfl⟩ := List.mem_map.mp hq
    exact .inl ⟨d, rfl⟩
  | half n =>
    rw [List.mem_singleton.mp hq]
    exact .inr ⟨s, hp⟩

/-- In ASCII a value is written in characters alone, whatever its texts. -/
theorem points_printAscii (v : Json τ) : Textual.points v.printAscii = spell escapeAscii v := by
  refine Textual.points_ofPoints _ ?_
  refine forall_mem_spell (fun c _ => .inl ⟨c, rfl⟩) (fun _ p _ q hq => ?_) v
  cases p with
  | char c =>
    obtain ⟨d, -, rfl⟩ := List.mem_map.mp hq
    exact .inl ⟨d, rfl⟩
  | half n =>
    obtain ⟨d, -, rfl⟩ := List.mem_map.mp hq
    exact .inl ⟨d, rfl⟩

end CostCatalog.Json
