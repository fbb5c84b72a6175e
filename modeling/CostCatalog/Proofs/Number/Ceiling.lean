import CostCatalog.Number.Quotient
import CostCatalog.Proofs.Number.Nearest
import Mathlib.Algebra.Order.Floor.Div

/-!
# Ceilings of rounded quotients

Up to `2^53` the ceiling of a rounded quotient is the ceiling of the quotient itself,
`roundedCeiling?_of_le`: a quotient that is no integer is so far from the next one below that
rounding does not reach it. Both ceilings are least among the integers at or above, so it is enough
that the quotient and its double have the same integers above them.

Above that a ceiling can still be told as long as the quotient is within the range of the doubles,
`exists_roundedCeiling?`.
-/

namespace CostCatalog

namespace Quotient

open Binary64

/-! ## Quotients within the range of the doubles -/

/-- A power of two below a quotient has a smaller exponent than one above it. -/
private theorem lt_of_pow_le {num den a b n : Nat} (hnum : num < 2 ^ a) (hden : 0 < den)
    (h : den * 2 ^ n ≤ num * 2 ^ b) : n < a + b := by
  apply (Nat.pow_lt_pow_iff_right (by decide : 1 < 2)).mp
  calc 2 ^ n ≤ den * 2 ^ n := Nat.le_mul_of_pos_left _ hden
    _ ≤ num * 2 ^ b := h
    _ < 2 ^ a * 2 ^ b := (Nat.mul_lt_mul_right (Nat.pow_pos (by decide))).mpr hnum
    _ = 2 ^ (a + b) := (Nat.pow_add ..).symm

/-- A quotient of integers below `2^1000` is within the range of the doubles. -/
theorem nearest_lt_infinityRank {num den : Nat} (hnum : num < 2 ^ 1000) (hden : 0 < den) :
    nearest num den < infinityRank := by
  rcases Nat.eq_zero_or_pos num with rfl | hpos
  · have hzero : nearest 0 den = 0 := if_pos rfl
    rw [hzero]
    decide
  obtain ⟨s, hnearest, hlow, hhigh⟩ := nearest_eq_min hpos hden
  have hs : s < 2022 := by
    rcases hlow with rfl | hlow
    · decide
    · obtain ⟨e, he⟩ : ∃ e, e = 1074 := ⟨_, rfl⟩
      rw [Nat.mul_assoc, show blockSize = 2 ^ 52 from rfl, ← Nat.pow_add, stepsInOne_eq he] at hlow
      have := lt_of_pow_le hnum hden hlow
      omega
  have hm := roundHalfEven_le hhigh
  generalize roundHalfEven (num * stepsInOne) (den * 2 ^ s) = m at hnearest hm
  rw [hnearest]
  refine Nat.lt_of_le_of_lt (Nat.min_le_right ..) ?_
  have hscaled : s * blockSize ≤ 2021 * blockSize := Nat.mul_le_mul_right _ (by omega)
  unfold infinityRank
  unfold blockSize at hscaled hm ⊢
  omega

theorem nearest_lt_infinityRank_of_le {num den : Nat} (hnum : num ≤ 2 ^ 53) (hden : 0 < den) :
    nearest num den < infinityRank := by
  have hpow {n : Nat} (hn : 53 < n) : 2 ^ 53 < 2 ^ n := Nat.pow_lt_pow_right (by decide) hn
  exact nearest_lt_infinityRank (hnum.trans_lt (hpow (by decide))) hden

/-! ## Integers above a quotient -/

/-- On a grid of binary places on which the quotient has 53 digits, rounding passes no integer and
reaches none from above. -/
private theorem roundHalfEven_le_iff {num den t : Nat} (hnum : num ≤ 2 ^ 53) (hden : 0 < den)
    (hden' : den ≤ 2 ^ 53) (hlow : den * 2 ^ 52 ≤ num * 2 ^ t) (c : Nat) :
    roundHalfEven (num * 2 ^ t) den ≤ 2 ^ t * c ↔ num ≤ den * c := by
  constructor
  · intro hle
    by_contra hlt
    obtain ⟨r, hr⟩ : ∃ r, num = den * c + r := ⟨num - den * c, by omega⟩
    have hmove : den * (2 ^ t * c) + r * 2 ^ t ≤ num * 2 ^ t := by
      rw [hr]
      apply le_of_eq
      ring
    refine absurd hle (Nat.not_le.mpr (lt_roundHalfEven hmove ?_ hden))
    have hbound : num * 2 ^ t ≤ 2 ^ 53 * 2 ^ t := Nat.mul_le_mul_right _ hnum
    have hgap : den ≤ 2 * 2 ^ t := by omega
    rcases Nat.lt_or_ge 1 r with hmany | hfew
    · have hscaled : 2 * 2 ^ t ≤ r * 2 ^ t := Nat.mul_le_mul_right _ hmany
      have hpos : 0 < 2 ^ t := Nat.pow_pos (by decide)
      omega
    · have hone : r = 1 := by omega
      subst hone
      rw [Nat.one_mul]
      refine Nat.lt_of_le_of_ne hgap fun htie => ?_
      -- A gap of exactly a half would make the quotient a power of two, and so an integer.
      have htie' : den = 2 ^ (t + 1) := by rw [htie, Nat.pow_succ, Nat.mul_comm]
      have hfull : num = 2 ^ 53 := by
        apply Nat.le_antisymm hnum
        apply Nat.le_of_mul_le_mul_right _ (Nat.pow_pos (by decide) : 0 < 2 ^ t)
        omega
      have ht : t + 1 ≤ 53 := (Nat.pow_le_pow_iff_right (by decide)).mp (htie' ▸ hden')
      have hdvd : den ∣ num := by
        rw [hfull, htie']
        exact Nat.pow_dvd_pow 2 ht
      have hdvd' : den ∣ 1 := (Nat.dvd_add_right (Nat.dvd_mul_right den c)).mp (hr ▸ hdvd)
      have hpos : 0 < 2 ^ t := Nat.pow_pos (by decide)
      have := Nat.dvd_one.mp hdvd'
      omega
  · intro hle
    apply roundHalfEven_le
    calc num * 2 ^ t ≤ den * c * 2 ^ t := Nat.mul_le_mul_right _ hle
      _ = den * (2 ^ t * c) := by ring

/-- A quotient of integers up to `2^53` other than `2^53` itself: its double is not subnormal, and
lies on a grid of binary places. -/
private theorem step_bounds {num den s : Nat} (hpos : 0 < num) (hnum : num ≤ 2 ^ 53)
    (hden : 0 < den) (hden' : den ≤ 2 ^ 53) (hlarge : ¬ (num = 2 ^ 53 ∧ den = 1))
    (hlow : s = 0 ∨ den * 2 ^ s * blockSize ≤ num * stepsInOne) :
    s ≤ 1074 ∧ den * 2 ^ s * blockSize ≤ num * stepsInOne := by
  have htwo (n : Nat) : 0 < 2 ^ n := Nat.pow_pos (by decide)
  rcases hlow with rfl | hlow
  · obtain ⟨k, hk⟩ : ∃ k, 105 + k = 1074 := ⟨969, rfl⟩
    refine ⟨Nat.zero_le _, ?_⟩
    calc den * 2 ^ 0 * blockSize ≤ 2 ^ 53 * 2 ^ 0 * blockSize :=
          Nat.mul_le_mul_right _ (Nat.mul_le_mul_right _ hden')
      _ = 2 ^ 105 := rfl
      _ ≤ 2 ^ 105 * 2 ^ k := Nat.le_mul_of_pos_right _ (htwo k)
      _ = stepsInOne := pow_mul_pow_of_add hk
      _ ≤ num * stepsInOne := Nat.le_mul_of_pos_left _ hpos
  · refine ⟨?_, hlow⟩
    by_contra hs
    obtain ⟨e, he⟩ : ∃ e, e = 1074 := ⟨_, rfl⟩
    obtain ⟨k, rfl⟩ : ∃ k, s = 1 + k + e := ⟨s - e - 1, by omega⟩
    have hwhole : den * (2 ^ (1 + k) * blockSize) ≤ num := by
      apply Nat.le_of_mul_le_mul_right _ (htwo e)
      rwa [stepsInOne_eq he, Nat.pow_add 2 (1 + k), ← Nat.mul_assoc, Nat.mul_right_comm,
        Nat.mul_assoc den] at hlow
    have htwice : 2 * blockSize ≤ 2 ^ (1 + k) * blockSize := by
      rw [Nat.pow_add]
      exact Nat.mul_le_mul_right _ (Nat.le_mul_of_pos_right _ (htwo k))
    have hle : den * 2 ^ 53 ≤ num := (Nat.mul_le_mul_left den htwice).trans hwhole
    exact hlarge (by omega)

/-- The double nearest to a quotient of integers up to `2^53` has the same integers above it. -/
private theorem nearest_le_iff {num den : Nat} (hpos : 0 < num) (hnum : num ≤ 2 ^ 53)
    (hden : 0 < den) (hden' : den ≤ 2 ^ 53) (hlarge : ¬ (num = 2 ^ 53 ∧ den = 1))
    (hfinite : nearest num den < infinityRank) (c : Nat) :
    numerator (nearest num den) ≤ denominator (nearest num den) * c ↔ num ≤ den * c := by
  obtain ⟨s, hrank, hlow, hhigh⟩ := nearest_parts hpos hden hfinite
  obtain ⟨hs, hlow⟩ := step_bounds hpos hnum hden hden' hlarge hlow
  have htwo : 0 < 2 ^ s := Nat.pow_pos (by decide)
  obtain ⟨t, hst⟩ : ∃ t, s + t = 1074 := ⟨1074 - s, by omega⟩
  have hsteps : num * stepsInOne = num * 2 ^ t * 2 ^ s := by
    rw [← pow_mul_pow_of_add hst, Nat.mul_comm (2 ^ s), Nat.mul_assoc]
  have hplaces : den * 2 ^ 52 ≤ num * 2 ^ t := by
    apply Nat.le_of_mul_le_mul_right _ htwo
    rw [← hsteps, Nat.mul_right_comm]
    exact hlow
  have hround := roundHalfEven_le_iff hnum hden hden' hplaces c
  have hmantissa : s = 0 ∨ blockSize ≤ roundHalfEven (num * stepsInOne) (den * 2 ^ s) :=
    Or.inr (le_roundHalfEven hlow (Nat.mul_pos hden htwo))
  have hunits := units_of_parts hmantissa (roundHalfEven_le hhigh)
  rw [← hrank, hsteps, roundHalfEven_mul_right htwo] at hunits
  rw [numerator_le_iff, hunits, ← hround, ← pow_mul_pow_of_add hst, Nat.mul_comm (2 ^ s),
    Nat.mul_right_comm, Nat.mul_le_mul_right_iff htwo]

/-- Within the range of the doubles the ceiling is that of the nearest one. -/
theorem roundedCeiling?_of_finite {num den : Nat} (hfinite : nearest num den < infinityRank) :
    roundedCeiling? (num : Int) den =
      some ((numerator (nearest num den) ⌈/⌉ denominator (nearest num den) : Nat) : Int) := by
  have hsign : ¬ (num : Int) < 0 := Int.not_lt.mpr (Int.natCast_nonneg num)
  rw [roundedCeiling?, Int.natAbs_natCast, Nat.ceilDiv_eq_add_pred_div]
  generalize nearest num den = rank at hfinite ⊢
  exact (if_neg (Nat.not_le.mpr hfinite)).trans (congrArg some (if_neg hsign))

/-- Up to `2^53` the ceiling of a rounded quotient is that of the quotient. -/
theorem roundedCeiling?_of_le {num den : Nat} (hnum : num ≤ 2 ^ 53) (hden : 0 < den)
    (hden' : den ≤ 2 ^ 53) :
    roundedCeiling? (num : Int) den = some ((num ⌈/⌉ den : Nat) : Int) := by
  by_cases hlarge : num = 2 ^ 53 ∧ den = 1
  · obtain ⟨rfl, rfl⟩ := hlarge
    rw [ceilDiv_one]
    decide +kernel
  have hfinite := nearest_lt_infinityRank_of_le hnum hden
  have habove (c : Nat) :
      numerator (nearest num den) ≤ denominator (nearest num den) * c ↔ num ≤ den * c := by
    rcases Nat.eq_zero_or_pos num with rfl | hpos
    · have hzero : nearest 0 den = 0 := if_pos rfl
      have hnumerator : numerator 0 = 0 := Nat.zero_mul _
      rw [hzero, hnumerator]
      exact iff_of_true (Nat.zero_le _) (Nat.zero_le _)
    · exact nearest_le_iff hpos hnum hden hden' hlarge hfinite c
  rw [roundedCeiling?_of_finite hfinite]
  refine congrArg (fun n : Nat => some (n : Int)) (eq_of_forall_ge_iff fun c => ?_)
  rw [ceilDiv_le_iff_le_mul (denominator_pos _), ceilDiv_le_iff_le_mul hden]
  exact habove c

/-- The ceiling of a quotient of integers below `2^1000` can be told. -/
theorem exists_roundedCeiling? {num den : Nat} (hnum : num < 2 ^ 1000) (hden : 0 < den) :
    ∃ n, roundedCeiling? (num : Int) den = some n :=
  ⟨_, roundedCeiling?_of_finite (nearest_lt_infinityRank hnum hden)⟩

end Quotient

end CostCatalog
