import CostCatalog.Proofs.Number.FloatBits
import CostCatalog.Number.Decimal
import Mathlib.Tactic.Ring

/-!
# Rounding to the nearest double

Two facts on `Binary64.nearest`: it is a function of the quotient, not of the two numbers that write
it (`nearest_mul_right`), and it gives a double's own value back (`nearest_value`). Both come from
what the exponent step of a quotient says of its size, `raisedStep_spec`, because that decides the
step (`raisedStep_unique`).
-/

namespace CostCatalog.Binary64

/-! ## Nearest integers -/

theorem roundHalfEven_mul_right {num den : Nat} {c : Nat} (hc : 0 < c) :
    roundHalfEven (num * c) (den * c) = roundHalfEven num den := by
  have htwice : 2 * (num % den * c) = 2 * (num % den) * c := (Nat.mul_assoc ..).symm
  have hlow : 2 * (num % den) * c < den * c ↔ 2 * (num % den) < den :=
    Nat.mul_lt_mul_right hc
  have hhigh : den * c < 2 * (num % den) * c ↔ den < 2 * (num % den) :=
    Nat.mul_lt_mul_right hc
  simp only [roundHalfEven, Nat.mul_div_mul_right _ _ hc, Nat.mul_mod_mul_right, htwice, hlow,
    hhigh]

private theorem roundHalfEven_mul_self (n : Nat) {den : Nat} (hden : 0 < den) :
    roundHalfEven (n * den) den = n := by
  simp only [roundHalfEven, Nat.mul_mod_left, Nat.mul_div_cancel _ hden, Nat.mul_zero, hden,
    if_true]

/-! ## The exponent step of a quotient -/

private theorem shift_eq : shift = 1126 := rfl

/-- What a step says of a quotient: it is below the next power of two and, unless the step is the
least one, not below its own. -/
def IsStep (num den step : Nat) : Prop :=
  num * 2 ^ shift < den * 2 ^ (step + 105) ∧
    (step = 0 ∨ den * 2 ^ (step + 104) ≤ num * 2 ^ shift)

theorem isStep_unique {num den s t : Nat} (hden : 0 < den) (hs : IsStep num den s)
    (ht : IsStep num den t) : s = t := by
  have hle {a b : Nat} (ha : IsStep num den a) (hb : IsStep num den b) : a ≤ b := by
    rcases ha.2 with rfl | hlow
    · exact Nat.zero_le _
    · have hlt : den * 2 ^ (a + 104) < den * 2 ^ (b + 105) := Nat.lt_of_le_of_lt hlow hb.1
      have hpow : 2 ^ (a + 104) < 2 ^ (b + 105) := (Nat.mul_lt_mul_left hden).mp hlt
      have := (Nat.pow_lt_pow_iff_right (by decide)).mp hpow
      omega
  exact Nat.le_antisymm (hle hs ht) (hle ht hs)

private theorem raisedStep_eq (num den : Nat) : raisedStep num den =
    (if num * Nat.pow 2 shift < den * Nat.pow 2 (num.log2 + shift - den.log2)
      then num.log2 + shift - den.log2 - 1 else num.log2 + shift - den.log2) - 104 := rfl

/-- The step that is worked out from logarithms is the quotient's. -/
theorem raisedStep_isStep {num den : Nat} (hnum : 0 < num) (hden : 0 < den) :
    IsStep num den (raisedStep num den) := by
  have hnlow : 2 ^ num.log2 ≤ num := Nat.log2_self_le hnum.ne'
  have hnhigh : num < 2 ^ (num.log2 + 1) := Nat.lt_log2_self
  have hdlow : 2 ^ den.log2 ≤ den := Nat.log2_self_le hden.ne'
  have hdhigh : den < 2 ^ (den.log2 + 1) := Nat.lt_log2_self
  unfold IsStep
  rw [raisedStep_eq]
  generalize shift = shift
  obtain ⟨E, hE⟩ : ∃ E, num.log2 + shift - den.log2 = E := ⟨_, rfl⟩
  rw [hE, Nat.pow_eq, Nat.pow_eq]
  split
  · next hlt =>
    have hbelow : E ≤ E - 1 - 104 + 105 := by omega
    have hpow : 2 ^ E ≤ 2 ^ (E - 1 - 104 + 105) := Nat.pow_le_pow_right (by decide) hbelow
    refine ⟨Nat.lt_of_lt_of_le hlt (Nat.mul_le_mul_left den hpow), ?_⟩
    apply or_iff_not_imp_left.mpr
    intro hstep
    have hplace : E - 1 - 104 + 104 = E - 1 := by omega
    have hsum : den.log2 + 1 + (E - 1) = num.log2 + shift := by omega
    calc den * 2 ^ (E - 1 - 104 + 104)
        ≤ 2 ^ (den.log2 + 1) * 2 ^ (E - 1) := by
          rw [hplace]
          exact Nat.mul_le_mul_right _ hdhigh.le
      _ = 2 ^ num.log2 * 2 ^ shift := by rw [← Nat.pow_add, hsum, Nat.pow_add]
      _ ≤ num * 2 ^ shift := Nat.mul_le_mul_right _ hnlow
  · next hge =>
    have habove : num.log2 + 1 + shift ≤ den.log2 + (E - 104 + 105) := by omega
    refine ⟨?_, or_iff_not_imp_left.mpr fun hstep => ?_⟩
    · calc num * 2 ^ shift
          < 2 ^ (num.log2 + 1) * 2 ^ shift :=
            (Nat.mul_lt_mul_right (Nat.pow_pos (by decide))).mpr hnhigh
        _ ≤ 2 ^ den.log2 * 2 ^ (E - 104 + 105) := by
            rw [← Nat.pow_add, ← Nat.pow_add]
            exact Nat.pow_le_pow_right (by decide) habove
        _ ≤ den * 2 ^ (E - 104 + 105) := Nat.mul_le_mul_right _ hdlow
    · have hplace : E - 104 + 104 = E := by omega
      rw [hplace]
      exact Nat.le_of_not_lt hge

private theorem raisedStep_mul_right {num den c : Nat} (hnum : 0 < num) (hden : 0 < den)
    (hc : 0 < c) : raisedStep (num * c) (den * c) = raisedStep num den := by
  have hscaled := raisedStep_isStep (Nat.mul_pos hnum hc) (Nat.mul_pos hden hc)
  refine isStep_unique hden ⟨?_, ?_⟩ (raisedStep_isStep hnum hden)
  · apply (Nat.mul_lt_mul_right hc).mp
    rw [Nat.mul_right_comm, Nat.mul_right_comm den]
    exact hscaled.1
  · refine hscaled.2.imp_right fun h => Nat.le_of_mul_le_mul_right ?_ hc
    rw [Nat.mul_right_comm, Nat.mul_right_comm num]
    exact h

/-! ## The nearest double -/

/-- The nearest double depends on the quotient alone. -/
theorem nearest_mul_right {num den c : Nat} (hden : 0 < den) (hc : 0 < c) :
    nearest (num * c) (den * c) = nearest num den := by
  rcases Nat.eq_zero_or_pos num with rfl | hnum
  · simp only [Nat.zero_mul, nearest, if_true]
  · have hzero : num * c ≠ 0 := (Nat.mul_pos hnum hc).ne'
    simp only [nearest, hzero, hnum.ne', if_false, raisedStep_mul_right hnum hden hc,
      Nat.mul_right_comm _ c, roundHalfEven_mul_right hc]

theorem mantissa_pos {r : Nat} (hr : 0 < r) : 0 < mantissa r := by
  have hblock : 0 < blockSize := by decide
  unfold mantissa
  split <;> omega

theorem mantissa_lt (r : Nat) : mantissa r < 2 ^ 53 := by
  have hblock : blockSize = 2 ^ 52 := rfl
  have hmod : r % blockSize < blockSize := Nat.mod_lt r (by decide)
  unfold mantissa
  split <;> omega

/-- Beyond the first block a mantissa has its leading bit. -/
theorem le_mantissa {r : Nat} (h : raisedExponent r ≠ 0) : 2 ^ 52 ≤ mantissa r := by
  have hlarge : ¬ r < blockSize := fun hlt => h (by rw [raisedExponent, Nat.div_eq_of_lt hlt])
  rw [mantissa, if_neg hlarge]
  exact Nat.le_add_right ..

/-- The value of a rank lies in the block that the rank's exponent names. -/
private theorem raisedStep_value {r : Nat} (hr : 0 < r) :
    raisedStep (numerator r) (denominator r) = raisedExponent r := by
  have hden : 0 < denominator r := Nat.pow_pos (by decide)
  have hnum : 0 < numerator r := Nat.mul_pos (mantissa_pos hr) (Nat.pow_pos (by decide))
  apply isStep_unique hden (raisedStep_isStep hnum hden)
  -- Both sides of the comparisons that make a step, with their powers of two gathered.
  have hleft : numerator r * 2 ^ shift =
      mantissa r * 2 ^ (raisedExponent r - 1074 + shift) := by
    rw [numerator, Nat.pow_eq, Nat.mul_assoc, ← Nat.pow_add]
  have hright (n : Nat) : denominator r * 2 ^ n = 2 ^ (1074 - raisedExponent r + n) := by
    rw [denominator, Nat.pow_eq, ← Nat.pow_add]
  have hplace : 1074 - raisedExponent r + (raisedExponent r + 104) =
      52 + (raisedExponent r - 1074 + shift) := by
    rw [shift_eq]
    omega
  have hnext : 1074 - raisedExponent r + (raisedExponent r + 105) =
      53 + (raisedExponent r - 1074 + shift) := by
    rw [shift_eq]
    omega
  refine ⟨?_, or_iff_not_imp_left.mpr fun hstep => ?_⟩
  · calc numerator r * 2 ^ shift
        < 2 ^ 53 * 2 ^ (raisedExponent r - 1074 + shift) := by
          rw [hleft]
          exact (Nat.mul_lt_mul_right (Nat.pow_pos (by decide))).mpr (mantissa_lt r)
      _ = denominator r * 2 ^ (raisedExponent r + 105) := by
          rw [hright, hnext, ← Nat.pow_add]
  · calc denominator r * 2 ^ (raisedExponent r + 104)
        = 2 ^ 52 * 2 ^ (raisedExponent r - 1074 + shift) := by
          rw [hright, hplace, Nat.pow_add]
      _ ≤ numerator r * 2 ^ shift := by
          rw [hleft]
          exact Nat.mul_le_mul_right _ (le_mantissa hstep)

/-- A rank is its exponent's block and its place there. -/
theorem raisedExponent_add_mantissa (r : Nat) :
    raisedExponent r * blockSize + mantissa r = r := by
  have hsplit := Nat.div_add_mod r blockSize
  unfold raisedExponent mantissa
  split
  · next h =>
    rw [Nat.div_eq_of_lt h]
    omega
  · next h =>
    have hpos : 0 < r / blockSize := Nat.div_pos (Nat.le_of_not_lt h) (by decide)
    obtain ⟨b, hb⟩ := Nat.exists_eq_add_of_lt hpos
    rw [Nat.zero_add] at hb
    rw [hb, Nat.mul_succ, Nat.mul_comm] at hsplit
    rw [hb, Nat.add_sub_cancel]
    omega

/-- A double is nearest to its own value. -/
theorem nearest_value {r : Nat} (hr : 0 < r) (hfin : r < infinityRank) :
    nearest (numerator r) (denominator r) = r := by
  have hnum : numerator r ≠ 0 := (Nat.mul_pos (mantissa_pos hr) (Nat.pow_pos (by decide))).ne'
  have hexact : numerator r * Nat.pow 2 (1074 - raisedExponent r) =
      mantissa r * (denominator r * Nat.pow 2 (raisedExponent r - 1074)) := by
    unfold numerator denominator
    ring
  have hpos : 0 < denominator r * Nat.pow 2 (raisedExponent r - 1074) :=
    Nat.mul_pos (Nat.pow_pos (by decide)) (Nat.pow_pos (by decide))
  simp only [nearest, hnum, if_false, raisedStep_value hr, hexact, roundHalfEven_mul_self _ hpos,
    raisedExponent_add_mantissa]
  exact Nat.min_eq_right hfin.le

end CostCatalog.Binary64
