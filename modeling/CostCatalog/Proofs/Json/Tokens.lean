import CostCatalog.Json.Printer
import CostCatalog.Json.Reader
import CostCatalog.Proofs.Number.Digits

/-!
# Words and numbers as runs of characters

A word or a number is written in characters that nothing else around it is written in, so the run of
them at the front of a text is that word or number (`tokenChars_append`). What may follow a value
inside a text starts with none of them.
-/

namespace CostCatalog.Json

/-- All characters are ones of which words and numbers are made. -/
def IsRun (cs : List Char) : Prop := ∀ c ∈ cs, isTokenChar c = true

namespace IsRun

variable {c : Char} {cs ds : List Char}

theorem nil : IsRun [] := fun _ h => by cases h

theorem cons (hc : isTokenChar c = true) (h : IsRun cs) : IsRun (c :: cs) :=
  List.forall_mem_cons.mpr ⟨hc, h⟩

theorem append (h : IsRun cs) (h' : IsRun ds) : IsRun (cs ++ ds) :=
  List.forall_mem_append.mpr ⟨h, h'⟩

theorem subset (h : IsRun cs) (hsub : ds ⊆ cs) : IsRun ds := fun d hd => h d (hsub hd)

/-- For a text that is given, by looking. -/
theorem of_all (h : cs.all isTokenChar = true) : IsRun cs := fun c hc => List.all_eq_true.mp h c hc

theorem toDigits (n : Nat) : IsRun (Nat.toDigits 10 n) := by
  intro c hc
  have hdigit := Decimal.isDigit_of_mem_toDigits hc
  simp only [isTokenChar, Char.isAlphanum, hdigit, Bool.or_true, Bool.true_or]

/-- A run has no control character. -/
theorem noControl (h : IsRun cs) : ∀ c ∈ cs, 32 ≤ c.toNat := by
  intro c hc
  by_contra hlow
  have hlt : c.toNat < 32 := Nat.lt_of_not_le hlow
  have hnone : ∀ n < 32, isTokenChar (Char.ofNat n) = false := by decide
  have hno := hnone c.toNat hlt
  rw [Char.ofNat_toNat, h c hc] at hno
  cases hno

end IsRun

/-! ## Numbers -/

private theorem isRun_pointed {ds : List Char} (h : IsRun ds) (place : Nat) :
    IsRun (Shortest.pointed ds place) :=
  (h.subset (List.take_subset ..)).append ((h.subset (List.drop_subset ..)).cons rfl)

private theorem isRun_zeros (n : Nat) : IsRun (List.replicate n '0') := fun c hc => by
  rw [List.eq_of_mem_replicate hc]
  rfl

private theorem isRun_exponentText (x : Int) : IsRun (Shortest.exponentText x) := by
  have hdigits := IsRun.toDigits x.natAbs
  refine IsRun.cons rfl (IsRun.cons (by split <;> rfl) ?_)
  split
  · exact hdigits.cons rfl
  · exact hdigits

private theorem isRun_decimalText (d : Decimal) : IsRun (Shortest.decimalText d) := by
  have hdigits := IsRun.toDigits d.digits
  unfold Shortest.decimalText
  dsimp only
  split
  · refine IsRun.append ?_ (isRun_exponentText _)
    split
    · exact hdigits
    · exact isRun_pointed hdigits 1
  split
  · exact (hdigits.append (isRun_zeros _)).append (IsRun.of_all rfl)
  split
  · exact isRun_pointed hdigits _
  · exact ((isRun_zeros _).append hdigits |>.cons rfl).cons rfl

theorem isRun_floatText (x : Float) : IsRun (Shortest.floatText floatNames x) := by
  unfold Shortest.floatText
  split
  · exact IsRun.of_all rfl
  · have hbody : IsRun (if Binary64.isFinite x then
        Shortest.decimalText (Shortest.ofRank (Binary64.rank x)) else floatNames.infinity.toList) := by
      split
      · exact isRun_decimalText _
      · exact IsRun.of_all rfl
    dsimp only
    split
    · exact hbody.cons rfl
    · exact hbody

theorem isRun_intChars (n : Int) : IsRun (intChars n) := by
  unfold intChars
  split
  · exact (IsRun.toDigits _).cons rfl
  · exact IsRun.toDigits _

/-! ## What follows a value -/

/-- What may follow a value inside a text: nothing, or the mark that ends it. -/
def Ends : List CodePoint → Prop
  | [] => True
  | p :: _ => p = .char ',' ∨ p = .char ']' ∨ p = .char '}'

theorem Ends.tokenChars {ps : List CodePoint} (h : Ends ps) : tokenChars ps = [] := by
  cases ps with
  | nil => rfl
  | cons p ps => rcases h with rfl | rfl | rfl <;> rfl

/-- A run with its end behind it is found as it is. -/
theorem tokenChars_append {cs : List Char} (hcs : IsRun cs) {rest : List CodePoint}
    (hrest : Ends rest) : Json.tokenChars (CodePoint.ofChars cs ++ rest) = cs := by
  induction cs with
  | nil => exact hrest.tokenChars
  | cons c cs ih =>
    have hrun := List.forall_mem_cons.mp hcs
    rw [CodePoint.ofChars, List.map_cons, List.cons_append, Json.tokenChars, if_pos hrun.1,
      ih hrun.2]

end CostCatalog.Json
