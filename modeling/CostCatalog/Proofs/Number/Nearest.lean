import CostCatalog.Proofs.Number.Rounding
import Mathlib.Algebra.Group.Nat.Even
import Mathlib.Algebra.Order.AbsoluteValue.Basic
import Mathlib.Algebra.Order.Field.Basic
import Mathlib.Algebra.Order.Field.Rat
import Mathlib.Order.Monotone.Basic
import Mathlib.Tactic.Ring

/-!
# Correct rounding

The double that `Binary64.nearest` finds for a quotient is the correctly rounded one,
`nearest_roundsTo`: no double is nearer to the quotient, and when another one is as near the even
one is taken. Values are compared as whole numbers of the least step `2^(-1074)`, `units`. Where
the doubles lie apart by the step of the quotient their units are the multiples of one power of
two, and among the multiples the nearest integer decides, `roundHalfEven_closest`; every double
below those is further away than the first of them.
-/

namespace CostCatalog.Binary64

/-! ## Nearest integers -/

/-- An integer above a quotient is not passed by rounding. -/
theorem roundHalfEven_le {num den n : Nat} (h : num ≤ den * n) : roundHalfEven num den ≤ n := by
  rcases Nat.eq_zero_or_pos den with rfl | hden
  · have hnum : num = 0 := by omega
    subst hnum
    simp only [roundHalfEven, Nat.zero_div, Nat.zero_mod, Nat.mul_zero, Nat.lt_irrefl, if_false,
      Nat.zero_add, Nat.zero_le]
  have hsplit := Nat.div_add_mod num den
  have hmod := Nat.mod_lt num hden
  unfold roundHalfEven
  dsimp only
  rcases Nat.lt_or_ge (num / den) n with hlt | hge
  · split
    · omega
    · split <;> omega
  · -- The quotient is `n` itself, so there is nothing to round.
    have hle : den * n ≤ den * (num / den) := Nat.mul_le_mul_left den hge
    have hexact : num % den = 0 := by omega
    have heq : num / den = n := Nat.le_antisymm (Nat.div_le_of_le_mul h) hge
    rw [if_pos (by omega), heq]

/-- A quotient that is more than a half above an integer is not rounded down to it. -/
theorem lt_roundHalfEven {num den n r : Nat} (h : den * n + r ≤ num) (hr : den < 2 * r)
    (hden : 0 < den) : n < roundHalfEven num den := by
  have hsplit := Nat.div_add_mod num den
  have hmod := Nat.mod_lt num hden
  have hge : n ≤ num / den := (Nat.le_div_iff_mul_le hden).mpr (by rw [Nat.mul_comm]; omega)
  unfold roundHalfEven
  dsimp only
  rcases Nat.lt_or_ge n (num / den) with hlt | hle
  · split
    · exact hlt
    · split <;> omega
  · have heq : num / den = n := Nat.le_antisymm hle hge
    rw [heq] at hsplit ⊢
    rw [if_neg (by omega), if_pos (by omega)]
    exact Nat.lt_succ_self n

theorem le_roundHalfEven {num den n : Nat} (h : den * n ≤ num) (hden : 0 < den) :
    n ≤ roundHalfEven num den := by
  have hge : n ≤ num / den := (Nat.le_div_iff_mul_le hden).mpr (by rwa [Nat.mul_comm])
  unfold roundHalfEven
  dsimp only
  split
  · exact hge
  · split <;> omega

/-- A quotient below a half is rounded down and one above it up; at a half the even integer is
taken. -/
private theorem roundHalfEven_cases (num den : Nat) :
    roundHalfEven num den = num / den ∧ 2 * (num % den) < den ∨
      roundHalfEven num den = num / den + 1 ∧ den < 2 * (num % den) ∨
      (roundHalfEven num den = num / den ∨ roundHalfEven num den = num / den + 1) ∧
        2 * (num % den) = den ∧ Even (roundHalfEven num den) := by
  unfold roundHalfEven
  dsimp only
  split
  · next hless => exact Or.inl ⟨rfl, hless⟩
  split
  · next hmore => exact Or.inr (Or.inl ⟨rfl, hmore⟩)
  · refine Or.inr (Or.inr ⟨by omega, by omega, Nat.even_iff.mpr (by omega)⟩)

/-- No integer is nearer to a quotient than the rounded one, and when another is as near the
rounded one is even. -/
theorem roundHalfEven_closest (num : Nat) {den : Nat} (hden : 0 < den) (n : Nat) :
    ((num : ℤ) - den * roundHalfEven num den).natAbs ≤ ((num : ℤ) - den * n).natAbs ∧
      (n ≠ roundHalfEven num den →
        ((num : ℤ) - den * n).natAbs = ((num : ℤ) - den * roundHalfEven num den).natAbs →
          Even (roundHalfEven num den)) := by
  have hsplit := Nat.div_add_mod num den
  have hmod := Nat.mod_lt num hden
  have hround := roundHalfEven_cases num den
  generalize roundHalfEven num den = m at hround ⊢
  generalize num / den = q at hround hsplit
  have hnext : den * (q + 1) = den * q + den := Nat.mul_succ den q
  -- An integer other than the two around the quotient is a whole divisor further away.
  have hplace : n = q ∧ den * n = den * q ∨ n = q + 1 ∧ den * n = den * q + den ∨
      den * n + den ≤ den * q ∨ den * q + den + den ≤ den * n := by
    have hbelow (h : n + 1 ≤ q) : den * n + den ≤ den * q := Nat.mul_le_mul_left den h
    have habove (h : q + 1 + 1 ≤ n) : den * (q + 1) + den ≤ den * n := Nat.mul_le_mul_left den h
    rcases lt_trichotomy n q with h | rfl | h
    · exact Or.inr (Or.inr (Or.inl (hbelow h)))
    · exact Or.inl ⟨rfl, rfl⟩
    · rcases eq_or_lt_of_le (Nat.succ_le_of_lt h) with rfl | h
      · exact Or.inr (Or.inl ⟨rfl, hnext⟩)
      · exact Or.inr (Or.inr (Or.inr (hnext ▸ habove h)))
  have hrounded : m = q ∧ den * m = den * q ∨ m = q + 1 ∧ den * m = den * q + den := by
    rcases hround with ⟨rfl, -⟩ | ⟨rfl, -⟩ | ⟨rfl | rfl, -⟩
    · exact Or.inl ⟨rfl, rfl⟩
    · exact Or.inr ⟨rfl, hnext⟩
    · exact Or.inl ⟨rfl, rfl⟩
    · exact Or.inr ⟨rfl, hnext⟩
  rw [← Nat.cast_mul, ← Nat.cast_mul]
  generalize den * n = x at hplace ⊢
  generalize den * m = y at hrounded ⊢
  generalize den * q = z at hplace hrounded hsplit
  constructor
  · omega
  · intro hne heq
    refine (hround.resolve_left ?_).resolve_left ?_ |>.2.2 <;> omega

/-! ## Values in whole steps -/

/-- How many of the least steps `2^(-1074)` make one. -/
def stepsInOne : Nat := denominator 0

theorem denominator_pos (r : Nat) : 0 < denominator r := Nat.pow_pos (by decide)

theorem stepsInOne_pos : 0 < stepsInOne := denominator_pos 0

theorem stepsInOne_eq {e : Nat} (h : e = 1074) : stepsInOne = 2 ^ e := by
  have hplaces : e = 1074 - raisedExponent 0 := h
  rw [hplaces, stepsInOne, denominator, Nat.pow_eq]

theorem pow_mul_pow_of_add {e k : Nat} (h : e + k = 1074) : 2 ^ e * 2 ^ k = stepsInOne := by
  rw [← Nat.pow_add, stepsInOne_eq h]

/-- The value of a rank in least steps. -/
def units (r : Nat) : Nat := mantissa r * 2 ^ raisedExponent r

/-- The value of a rank. -/
def value (r : Nat) : ℚ := numerator r / denominator r

theorem numerator_mul_stepsInOne (r : Nat) :
    numerator r * stepsInOne = units r * denominator r := by
  have hplaces : 1074 - raisedExponent r + (raisedExponent r - (raisedExponent r - 1074)) =
      1074 := by omega
  have hexponent : raisedExponent r - 1074 + (raisedExponent r - (raisedExponent r - 1074)) =
      raisedExponent r := by omega
  rw [← pow_mul_pow_of_add hplaces, units, numerator, denominator, Nat.pow_eq, Nat.pow_eq]
  calc mantissa r * 2 ^ (raisedExponent r - 1074) *
        (2 ^ (1074 - raisedExponent r) * 2 ^ (raisedExponent r - (raisedExponent r - 1074)))
      = mantissa r * 2 ^ (raisedExponent r - 1074 +
          (raisedExponent r - (raisedExponent r - 1074))) * 2 ^ (1074 - raisedExponent r) := by
        rw [Nat.pow_add]
        ring
    _ = mantissa r * 2 ^ raisedExponent r * 2 ^ (1074 - raisedExponent r) := by rw [hexponent]

/-- The integers above a value, by its units. -/
theorem numerator_le_iff (r c : Nat) :
    numerator r ≤ denominator r * c ↔ units r ≤ stepsInOne * c := by
  rw [← Nat.mul_le_mul_right_iff stepsInOne_pos, numerator_mul_stepsInOne, Nat.mul_comm (units r),
    Nat.mul_assoc, Nat.mul_le_mul_left_iff (denominator_pos r), Nat.mul_comm c]

private theorem value_eq_units (r : Nat) : value r = units r / stepsInOne := by
  have hdenominator : (denominator r : ℚ) ≠ 0 := by exact_mod_cast (denominator_pos r).ne'
  have hsteps : (stepsInOne : ℚ) ≠ 0 := by exact_mod_cast stepsInOne_pos.ne'
  rw [value, div_eq_div_iff hdenominator hsteps]
  exact_mod_cast numerator_mul_stepsInOne r

/-- The units of the rank with an exponent and a mantissa; a mantissa of `2^53` carries. -/
theorem units_of_parts {s m : Nat} (hlow : s = 0 ∨ blockSize ≤ m) (hhigh : m ≤ 2 * blockSize) :
    units (s * blockSize + m) = m * 2 ^ s := by
  have hblock : 0 < blockSize := by decide
  have hexponent : raisedExponent (s * blockSize + m) = s + m / blockSize - 1 := by
    rw [raisedExponent, Nat.mul_comm s, Nat.mul_add_div hblock]
  have hparts := raisedExponent_add_mantissa (s * blockSize + m)
  unfold units
  rcases Nat.lt_or_ge m (2 * blockSize) with hlt | hge
  · have hsame : raisedExponent (s * blockSize + m) = s := by
      rcases Nat.lt_or_ge m blockSize with hsmall | hlarge
      · obtain rfl := hlow.resolve_right (Nat.not_le.mpr hsmall)
        rw [hexponent, Nat.div_eq_of_lt hsmall]
      · have hone : m / blockSize = 1 := Nat.div_eq_of_lt_le (by omega) (by omega)
        rw [hexponent, hone, Nat.add_sub_cancel]
    rw [hsame] at hparts ⊢
    rw [Nat.add_left_cancel hparts]
  · obtain rfl : m = 2 * blockSize := Nat.le_antisymm hhigh hge
    rw [Nat.mul_div_cancel _ hblock] at hexponent
    have hcarried : raisedExponent (s * blockSize + 2 * blockSize) = s + 1 := hexponent
    rw [hcarried, Nat.succ_mul] at hparts
    rw [hcarried, show mantissa (s * blockSize + 2 * blockSize) = blockSize by omega]
    ring

theorem units_strictMono : StrictMono units := by
  refine strictMono_nat_of_lt_succ fun r => ?_
  have hlow : raisedExponent r = 0 ∨ blockSize ≤ mantissa r :=
    or_iff_not_imp_left.mpr le_mantissa
  have hhigh : mantissa r < 2 * blockSize := mantissa_lt r
  have hparts := raisedExponent_add_mantissa r
  have hnext : units (r + 1) = (mantissa r + 1) * 2 ^ raisedExponent r := by
    rw [← units_of_parts (hlow.imp_right Nat.le_succ_of_le) hhigh, Nat.succ_eq_add_one,
      ← Nat.add_assoc, hparts]
  rw [hnext]
  exact (Nat.mul_lt_mul_right (Nat.pow_pos (by decide))).mpr (Nat.lt_succ_self _)

/-- The doubles from a step's first one on lie whole steps apart. -/
private theorem exists_units_eq {s r : Nat} (h : s = 0 ∨ s * blockSize + blockSize ≤ r) :
    ∃ n, units r = n * 2 ^ s := by
  have hstep : s ≤ raisedExponent r := by
    rcases h with rfl | hle
    · exact Nat.zero_le _
    · rw [← Nat.succ_mul] at hle
      have hblock : s + 1 ≤ r / blockSize := (Nat.le_div_iff_mul_le (by decide)).mpr hle
      exact Nat.le_sub_one_of_lt hblock
  refine ⟨mantissa r * 2 ^ (raisedExponent r - s), ?_⟩
  rw [units, Nat.mul_assoc, ← Nat.pow_add, Nat.sub_add_cancel hstep]

/-- The doubles before a step's first one are less. -/
private theorem units_lt_of_lt {s r : Nat} (h : r < s * blockSize + blockSize) :
    units r < blockSize * 2 ^ s := by
  rw [← units_of_parts (Or.inr le_rfl) (by decide)]
  exact units_strictMono h

/-- Of two numbers below a third the lesser is further away from it. -/
private theorem natAbs_sub_lt {a b c : Nat} (hab : a < b) (hbc : b ≤ c) :
    ((c : ℤ) - b).natAbs < ((c : ℤ) - a).natAbs := by omega

/-- How far the value of a rank is from a quotient, in least steps divided by the divisor. -/
def distance (num den r : Nat) : Nat :=
  (((num * stepsInOne : Nat) : ℤ) - (den * units r : Nat)).natAbs

theorem abs_sub_value {num den : Nat} (hden : 0 < den) (r : Nat) :
    |(num : ℚ) / den - value r| = distance num den r / (den * stepsInOne : Nat) := by
  have hden' : (den : ℚ) ≠ 0 := by exact_mod_cast hden.ne'
  have hsteps : (stepsInOne : ℚ) ≠ 0 := by exact_mod_cast stepsInOne_pos.ne'
  have hdifference : (num : ℚ) / den - value r =
      ((((num * stepsInOne : Nat) : ℤ) - (den * units r : Nat) : ℤ) : ℚ) /
        (den * stepsInOne : Nat) := by
    rw [value_eq_units, div_sub_div _ _ hden' hsteps]
    push_cast
    ring
  rw [hdifference, abs_div, Nat.abs_cast, distance, Nat.cast_natAbs, Int.cast_abs]

/-! ## The double of a quotient -/

/-- A rank is that of the double to which a number is correctly rounded: none is nearer, and
another one is as near only if this one is even. -/
structure RoundsTo (x : ℚ) (rank : Nat) : Prop where
  isFinite : rank < infinityRank
  nearest : ∀ r < infinityRank, |x - value rank| ≤ |x - value r|
  even : ∀ r < infinityRank, r ≠ rank → |x - value r| = |x - value rank| → Even rank

/-- What the nearest double is made of: the step of the quotient, and the integer to which the
quotient is rounded there. -/
theorem nearest_eq_min {num den : Nat} (hnum : 0 < num) (hden : 0 < den) :
    ∃ s, nearest num den = min infinityRank
        (s * blockSize + roundHalfEven (num * stepsInOne) (den * 2 ^ s)) ∧
      (s = 0 ∨ den * 2 ^ s * blockSize ≤ num * stepsInOne) ∧
      num * stepsInOne ≤ den * 2 ^ s * (2 * blockSize) := by
  obtain ⟨hupper, hlower⟩ := raisedStep_isStep hnum hden
  have hmin : nearest num den = min infinityRank (raisedStep num den * blockSize +
      roundHalfEven (num * Nat.pow 2 (1074 - raisedStep num den))
        (den * Nat.pow 2 (raisedStep num den - 1074))) := by
    rw [nearest, if_neg hnum.ne']
  generalize raisedStep num den = s at hupper hlower hmin
  have hscaled : roundHalfEven (num * Nat.pow 2 (1074 - s)) (den * Nat.pow 2 (s - 1074)) =
      roundHalfEven (num * stepsInOne) (den * 2 ^ s) := by
    have htwo : 0 < 2 ^ (1074 - (1074 - s)) := pow_pos two_pos _
    have hstep : s - 1074 + (1074 - (1074 - s)) = s := by omega
    rw [← roundHalfEven_mul_right htwo, Nat.pow_eq, Nat.pow_eq, Nat.mul_assoc, Nat.mul_assoc,
      ← Nat.pow_add 2 (s - 1074), hstep, pow_mul_pow_of_add (by omega)]
  have hshift : 2 ^ shift = stepsInOne * 2 ^ 52 := by
    have hsum : shift = 1074 - raisedExponent 0 + 52 := rfl
    rw [hsum, Nat.pow_add, stepsInOne, denominator, Nat.pow_eq]
  have htwo : 0 < 2 ^ 52 := pow_pos two_pos _
  refine ⟨s, hscaled ▸ hmin, hlower.imp_right fun hlow => ?_, ?_⟩
  · apply Nat.le_of_mul_le_mul_right _ htwo
    calc den * 2 ^ s * blockSize * 2 ^ 52 = den * 2 ^ (s + 104) := by
          rw [Nat.pow_add, show (2 : Nat) ^ 104 = blockSize * 2 ^ 52 from rfl]
          ring
      _ ≤ num * 2 ^ shift := hlow
      _ = num * stepsInOne * 2 ^ 52 := by rw [hshift, Nat.mul_assoc]
  · apply Nat.le_of_mul_le_mul_right _ htwo
    calc num * stepsInOne * 2 ^ 52 = num * 2 ^ shift := by rw [hshift, Nat.mul_assoc]
      _ ≤ den * 2 ^ (s + 105) := hupper.le
      _ = den * 2 ^ s * (2 * blockSize) * 2 ^ 52 := by
          rw [Nat.pow_add, show (2 : Nat) ^ 105 = 2 * blockSize * 2 ^ 52 from rfl]
          ring

/-- Within the range of the doubles nothing is cut off. -/
theorem nearest_parts {num den : Nat} (hnum : 0 < num) (hden : 0 < den)
    (hfinite : nearest num den < infinityRank) :
    ∃ s, nearest num den = s * blockSize + roundHalfEven (num * stepsInOne) (den * 2 ^ s) ∧
      (s = 0 ∨ den * 2 ^ s * blockSize ≤ num * stepsInOne) ∧
      num * stepsInOne ≤ den * 2 ^ s * (2 * blockSize) := by
  obtain ⟨s, hmin, hbounds⟩ := nearest_eq_min hnum hden
  refine ⟨s, ?_, hbounds⟩
  rcases min_choice infinityRank (s * blockSize + roundHalfEven (num * stepsInOne) (den * 2 ^ s))
    with hcut | hrank
  · exact absurd (hmin.trans hcut) hfinite.ne
  · exact hmin.trans hrank

/-- A quotient within the range of the doubles is rounded correctly. -/
theorem nearest_roundsTo {num den : Nat} (hden : 0 < den)
    (hfinite : nearest num den < infinityRank) : RoundsTo (num / den) (nearest num den) := by
  suffices hunits : ∀ r, distance num den (nearest num den) ≤ distance num den r ∧
      (r ≠ nearest num den → distance num den r = distance num den (nearest num den) →
        Even (nearest num den)) by
    have hscale : (0 : ℚ) < (den * stepsInOne : Nat) := by
      exact_mod_cast Nat.mul_pos hden stepsInOne_pos
    refine ⟨hfinite, fun r _ => ?_, fun r _ hr htie => ?_⟩
    · rw [abs_sub_value hden, abs_sub_value hden, div_le_div_iff_of_pos_right hscale]
      exact_mod_cast (hunits r).1
    · rw [abs_sub_value hden, abs_sub_value hden, div_left_inj' hscale.ne'] at htie
      exact (hunits r).2 hr (by exact_mod_cast htie)
  intro r
  rcases Nat.eq_zero_or_pos num with rfl | hnum
  · have hzero : nearest 0 den = 0 := if_pos rfl
    have hdistance : distance 0 den 0 = 0 := by
      rw [distance, units, mantissa, if_pos (by decide)]
      simp
    rw [hzero, hdistance]
    exact ⟨Nat.zero_le _, fun _ _ => Even.zero⟩
  obtain ⟨s, hrank, hlow, hhigh⟩ := nearest_parts hnum hden hfinite
  have hstep : 0 < den * 2 ^ s := Nat.mul_pos hden (pow_pos two_pos _)
  have hmantissa : s = 0 ∨ blockSize ≤ roundHalfEven (num * stepsInOne) (den * 2 ^ s) :=
    hlow.imp_right fun h => le_roundHalfEven h hstep
  have hrounded := units_of_parts hmantissa (roundHalfEven_le hhigh)
  rw [← hrank] at hrounded
  have hnear := fun n => roundHalfEven_closest (num * stepsInOne) hstep n
  generalize roundHalfEven (num * stepsInOne) (den * 2 ^ s) = m at hrank hmantissa hrounded hnear
  have hown : distance num den (nearest num den) =
      (((num * stepsInOne : Nat) : ℤ) - (den * 2 ^ s : Nat) * m).natAbs := by
    rw [distance, hrounded]
    push_cast
    ring_nf
  by_cases hgrid : s = 0 ∨ s * blockSize + blockSize ≤ r
  · obtain ⟨n, hn⟩ := exists_units_eq hgrid
    have hother : distance num den r =
        (((num * stepsInOne : Nat) : ℤ) - (den * 2 ^ s : Nat) * n).natAbs := by
      rw [distance, hn]
      push_cast
      ring_nf
    rw [hown, hother]
    refine ⟨(hnear n).1, fun hr htie => ?_⟩
    have hne : n ≠ m := by
      rintro rfl
      exact hr (units_strictMono.injective (hn.trans hrounded.symm))
    have hblock : Even blockSize := by decide
    rw [hrank]
    exact (hblock.mul_left s).add ((hnear n).2 hne htie)
  · -- Before its first double the step's multiples are no measure, but all of it is further away.
    obtain ⟨hpositive, hbelow⟩ := not_or.mp hgrid
    have hfar := Nat.mul_lt_mul_of_pos_left (units_lt_of_lt (Nat.not_le.mp hbelow)) hden
    have hfirst := (hnear blockSize).1
    have hstart := hlow.resolve_left hpositive
    have hfurther : distance num den (nearest num den) < distance num den r := by
      rw [Nat.mul_comm blockSize, ← Nat.mul_assoc] at hfar
      rw [hown, distance]
      rw [← Nat.cast_mul (den * 2 ^ s) blockSize] at hfirst
      exact lt_of_le_of_lt hfirst (natAbs_sub_lt hfar hstart)
    exact ⟨hfurther.le, fun _ htie => absurd htie hfurther.ne'⟩

end CostCatalog.Binary64
