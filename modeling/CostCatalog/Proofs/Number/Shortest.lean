import CostCatalog.Number.Shortest
import CostCatalog.Proofs.Number.Digits

/-!
# Shortest digits read back

The decimal that `Shortest` finds for a finite double means that double again (`rank_ofRank`). What
the search finds does so because it is looked at before it is taken; what stands behind the search
does so because it is the value itself, and because no double is of a size that is settled without
looking at the digits.
-/

namespace CostCatalog.Shortest

open Binary64

/-! ## The value in full -/

private theorem raisedExponent_lt {r : Nat} (hfin : r < infinityRank) : raisedExponent r < 2046 := by
  have h : r / blockSize < 0x7FF := Nat.div_lt_of_lt_mul (Nat.mul_comm .. ▸ hfin)
  unfold raisedExponent
  omega

theorem numerator_pos {r : Nat} (hr : 0 < r) : 0 < numerator r :=
  Nat.mul_pos (mantissa_pos hr) (Nat.pow_pos (by decide))

private theorem numerator_lt {r : Nat} (hfin : r < infinityRank) : numerator r < 10 ^ 310 := by
  have hplaces : 53 + (raisedExponent r - 1074) ≤ 1024 := by
    have := raisedExponent_lt hfin
    omega
  have hbound : 2 ^ 1024 ≤ 10 ^ 310 := by decide +kernel
  calc numerator r = mantissa r * 2 ^ (raisedExponent r - 1074) := rfl
    _ < 2 ^ 53 * 2 ^ (raisedExponent r - 1074) :=
      (Nat.mul_lt_mul_right (Nat.pow_pos (by decide))).mpr (mantissa_lt r)
    _ = 2 ^ (53 + (raisedExponent r - 1074)) := (Nat.pow_add ..).symm
    _ ≤ 2 ^ 1024 := pow_le_pow_right₀ (by decide) hplaces
    _ ≤ 10 ^ 310 := hbound

/-- No finite double is so large that its decimal is taken for infinite. -/
private theorem digitCount_exact_le {r : Nat} (hfin : r < infinityRank) :
    Decimal.digitCount (exact r).digits ≤ 310 + (1074 - raisedExponent r) := by
  apply (Decimal.digitCount_le_iff (by omega)).mpr
  calc numerator r * 5 ^ (1074 - raisedExponent r)
      < 10 ^ 310 * 5 ^ (1074 - raisedExponent r) :=
        (Nat.mul_lt_mul_right (Nat.pow_pos (by decide))).mpr (numerator_lt hfin)
    _ ≤ 10 ^ 310 * 10 ^ (1074 - raisedExponent r) :=
        Nat.mul_le_mul_left _ (Nat.pow_le_pow_left (by decide) _)
    _ = 10 ^ (310 + (1074 - raisedExponent r)) := (pow_add ..).symm

/-- No double above zero is so small that its decimal is taken for zero. -/
private theorem le_digitCount_exact {r : Nat} (hr : 0 < r) :
    1074 - raisedExponent r ≤ 330 + Decimal.digitCount (exact r).digits := by
  apply Nat.le_of_not_lt
  intro hfew
  obtain ⟨j, hj⟩ : ∃ j, 1074 - raisedExponent r = 331 + j :=
    Nat.exists_eq_add_of_le (by have := Decimal.digitCount_pos (exact r).digits; omega)
  have hjpos : 0 < j := by
    have := Decimal.digitCount_pos (exact r).digits
    omega
  have hjle : j ≤ 743 := by omega
  have hlt : (exact r).digits < 10 ^ j := (Decimal.digitCount_le_iff hjpos).mp (by omega)
  have hbound : 2 ^ 743 ≤ 5 ^ 331 := by decide +kernel
  apply Nat.not_le_of_lt hlt
  calc 10 ^ j = 2 ^ j * 5 ^ j := Nat.mul_pow 2 5 j
    _ ≤ 2 ^ 743 * 5 ^ j := Nat.mul_le_mul_right _ (pow_le_pow_right₀ (by decide) hjle)
    _ ≤ 5 ^ 331 * 5 ^ j := Nat.mul_le_mul_right _ hbound
    _ = 5 ^ (1074 - raisedExponent r) := by rw [hj, Nat.pow_add]
    _ ≤ numerator r * 5 ^ (1074 - raisedExponent r) := Nat.le_mul_of_pos_left _ (numerator_pos hr)

/-- The value written out in full means its rank. -/
private theorem rank_exact {r : Nat} (hr : 0 < r) (hfin : r < infinityRank) : (exact r).rank = r := by
  have hdigits : 0 < (exact r).digits := Nat.mul_pos (numerator_pos hr) (Nat.pow_pos (by decide))
  have hmany := digitCount_exact_le hfin
  have hfew := le_digitCount_exact hr
  have hexp : (exact r).exponent = -((1074 - raisedExponent r : Nat) : Int) := rfl
  rw [Decimal.rank_of_size hdigits (by omega) (by omega), hexp]
  cases hk : 1074 - raisedExponent r with
  | zero =>
    have hden : denominator r = 1 := by rw [denominator, hk]
    have hnum : (exact r).digits * 10 ^ 0 = numerator r := by
      rw [exact, hk, Nat.pow_zero, Nat.mul_one]
      exact Nat.mul_one (numerator r)
    calc nearest ((exact r).digits * 10 ^ 0) 1 = nearest (numerator r) (denominator r) := by
          rw [hnum, hden]
      _ = r := nearest_value hr hfin
  | succ j =>
    have hden : denominator r * 5 ^ (j + 1) = 10 ^ (j + 1) := by
      rw [denominator, hk]
      exact (Nat.mul_pow 2 5 (j + 1)).symm
    have hnum : (exact r).digits = numerator r * 5 ^ (j + 1) := by
      rw [exact, hk]
      rfl
    calc nearest (exact r).digits (10 ^ (j + 1))
        = nearest (numerator r * 5 ^ (j + 1)) (denominator r * 5 ^ (j + 1)) := by rw [hnum, hden]
      _ = nearest (numerator r) (denominator r) :=
        nearest_mul_right (Nat.pow_pos (by decide)) (Nat.pow_pos (by decide))
      _ = r := nearest_value hr hfin

/-! ## The search -/

/-- What one length offers has been looked at. -/
private theorem rank_of_ofLength? {r length : Nat} {d : Decimal} (h : ofLength? r length = some d) :
    d.rank = r := by
  unfold ofLength? at h
  simp only at h
  split at h
  · next hlo hhi =>
    cases h
    split
    · exact beq_iff_eq.mp hlo
    · exact beq_iff_eq.mp hhi
  · next hlo hhi => cases h; exact beq_iff_eq.mp hlo
  · next hlo hhi => cases h; exact beq_iff_eq.mp hhi
  · cases h

private theorem rank_search {r : Nat} (hr : 0 < r) (hfin : r < infinityRank) (fuel length : Nat) :
    (search r fuel length).rank = r := by
  induction fuel generalizing length with
  | zero => exact rank_exact hr hfin
  | succ fuel ih =>
    unfold search
    cases h : ofLength? r length with
    | none => exact ih (length + 1)
    | some d => exact rank_of_ofLength? h

/-- The shortest digits of a finite rank mean that rank. -/
theorem rank_ofRank {r : Nat} (hfin : r < infinityRank) : (ofRank r).rank = r := by
  unfold ofRank
  split
  · next hzero => rw [hzero, Decimal.rank_zero]
  · next hpos => exact rank_search (Nat.pos_of_ne_zero hpos) hfin 17 1

/-- Only zero has the digit zero, and it has no exponent. -/
theorem ofRank_exponent_of_zero {r : Nat} (hfin : r < infinityRank) (h : (ofRank r).digits = 0) :
    (ofRank r).exponent = 0 := by
  have hrank := rank_ofRank hfin
  rw [Decimal.rank, if_pos h] at hrank
  rw [ofRank, if_pos hrank.symm]

end CostCatalog.Shortest
