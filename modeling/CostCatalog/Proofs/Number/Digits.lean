import CostCatalog.Number.Decimal
import CostCatalog.Proofs.Number.Rounding

/-!
# Decimal digits

The digits of a number spell that number, with zeros before them as without, and multiplying by ten
adds one. A decimal may be written with more digits and a smaller exponent: the double that it means
is the same (`rank_scaled`).
-/

namespace CostCatalog.Decimal

/-! ## The digits of a number -/

theorem ofDigits_eq (cs : List Char) : ofDigits cs = Nat.ofDigitChars 10 cs 0 :=
  Nat.ofDigitChars_eq_foldl.symm

theorem ofDigits_toDigits (n : Nat) : ofDigits (Nat.toDigits 10 n) = n := by
  rw [ofDigits_eq, Nat.ofDigitChars_ten_toDigits]

/-- Zeros in front count nothing. -/
theorem ofDigits_replicate_append (k : Nat) (cs : List Char) :
    ofDigits (List.replicate k '0' ++ cs) = ofDigits cs := by
  rw [ofDigits_eq, ofDigits_eq, Nat.ofDigitChars_append, Nat.ofDigitChars_replicate_zero,
    Nat.mul_zero]

/-- Every zero at the end multiplies by ten. -/
theorem ofDigits_append_replicate (cs : List Char) (k : Nat) :
    ofDigits (cs ++ List.replicate k '0') = ofDigits cs * 10 ^ k := by
  rw [ofDigits_eq, ofDigits_eq, Nat.ofDigitChars_append, Nat.ofDigitChars_replicate_zero,
    Nat.mul_comm]

theorem isDigit_of_mem_toDigits {n : Nat} {c : Char} (h : c ∈ Nat.toDigits 10 n) :
    c.isDigit = true :=
  Nat.isDigit_of_mem_toDigits (by decide) (by decide) h

theorem digitCount_pos (n : Nat) : 0 < digitCount n := Nat.length_toDigits_pos

theorem digitCount_le_iff {n k : Nat} (hk : 0 < k) : digitCount n ≤ k ↔ n < 10 ^ k :=
  Nat.length_toDigits_le_iff (by decide) hk

theorem isShort_iff {n : Int} : isShort n = true ↔ n.natAbs < 10 ^ maxDigits := by
  rw [isShort, decide_eq_true_iff]
  exact digitCount_le_iff (by decide)

/-- A power of ten has one digit more than its exponent says. -/
theorem isShort_pow_iff {k : Nat} : isShort (10 ^ k) = true ↔ k < maxDigits := by
  have habs : ((10 : Int) ^ k).natAbs = 10 ^ k := Int.natAbs_pow 10 k
  rw [isShort_iff, habs]
  exact Nat.pow_lt_pow_iff_right (by decide)

private theorem toDigits_mul_ten {n : Nat} (hn : 0 < n) :
    Nat.toDigits 10 (n * 10) = Nat.toDigits 10 n ++ ['0'] := by
  have h := Nat.toDigits_append_toDigits (b := 10) (d := 0) (by decide) hn (by decide)
  rw [Nat.toDigits_zero] at h
  rw [h, Nat.mul_comm, Nat.add_zero]

private theorem digitCount_scaled {n : Nat} (hn : 0 < n) (k : Nat) :
    digitCount (n * 10 ^ k) = digitCount n + k := by
  induction k with
  | zero => rw [Nat.pow_zero, Nat.mul_one, Nat.add_zero]
  | succ k ih =>
    have hpos : 0 < n * 10 ^ k := Nat.mul_pos hn (Nat.pow_pos (by decide))
    rw [Nat.pow_succ, ← Nat.mul_assoc, digitCount, toDigits_mul_ten hpos, List.length_append]
    exact congrArg (· + 1) ih

/-- Only zero is written with a zero in front. -/
theorem toDigits_head_ne_zero {n : Nat} (hn : 0 < n) :
    ∃ c cs, Nat.toDigits 10 n = c :: cs ∧ c ≠ '0' := by
  induction n using Nat.strongRecOn with
  | ind n ih =>
    rw [Nat.toDigits_eq_if (by decide)]
    split
    · next hlt =>
      refine ⟨_, [], rfl, fun h => ?_⟩
      have hvalue := Nat.toNat_digitChar_sub_48_of_lt_ten hlt
      rw [h] at hvalue
      have hzero : '0'.toNat - 48 = 0 := by decide
      omega
    · next hge =>
      obtain ⟨c, cs, hcs, hc⟩ := ih (n / 10) (by omega) (by omega)
      exact ⟨c, cs ++ [(n % 10).digitChar], by rw [hcs]; rfl, hc⟩

/-! ## The double of a decimal -/

theorem rank_zero (x : Int) : rank ⟨0, x⟩ = 0 := rfl

/-- Within the range of sizes that are not settled at once, the double is that of the quotient. -/
theorem rank_of_size {d : Decimal} (hd : 0 < d.digits)
    (hhigh : d.exponent + digitCount d.digits ≤ 310)
    (hlow : -330 ≤ d.exponent + digitCount d.digits) :
    rank d = match d.exponent with
      | .ofNat e => Binary64.nearest (d.digits * 10 ^ e) 1
      | .negSucc e => Binary64.nearest d.digits (10 ^ (e + 1)) := by
  rw [rank, if_neg hd.ne', if_neg (by omega), if_neg (by omega)]
  rfl

/-- A whole number written out with a zero behind the point means the same double. -/
theorem rank_scaled (n e : Nat) : rank ⟨n * 10 ^ (e + 1), -1⟩ = rank ⟨n, e⟩ := by
  rcases Nat.eq_zero_or_pos n with rfl | hn
  · rw [Nat.zero_mul, rank_zero, rank_zero]
  · have hpos : n * 10 ^ (e + 1) ≠ 0 := (Nat.mul_pos hn (Nat.pow_pos (by decide))).ne'
    have hsize : (-1 : Int) + digitCount (n * 10 ^ (e + 1)) = (e : Int) + digitCount n := by
      rw [digitCount_scaled hn]
      omega
    have hvalue : Binary64.nearest (n * 10 ^ (e + 1)) (1 * 10) =
        Binary64.nearest (n * Nat.pow 10 e) 1 := by
      rw [Nat.pow_succ, ← Nat.mul_assoc]
      exact Binary64.nearest_mul_right Nat.one_pos (by decide)
    unfold rank
    simp only [hpos, hn.ne', hsize, if_false]
    congr 2

end CostCatalog.Decimal
