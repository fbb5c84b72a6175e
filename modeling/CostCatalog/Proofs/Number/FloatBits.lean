import CostCatalog.Number.Binary64
import Mathlib.Data.Prod.Lex
import Mathlib.Tactic.NormNum
import Mathlib.Data.Nat.Log

/-!
# Doubles and their bits

A double is its bit pattern, and all NaNs are one double. So a sign and a rank determine a double,
and the readers and writers of numbers may speak of ranks alone: `ofRank_rank` and `eq_nan` are what
they need to know of doubles. Clocks and what ends at a time need that the order is transitive,
`Binary64.le_trans`.
-/

namespace CostCatalog.Binary64

open Float.Model Float.Model.UnpackedFloat

/-! ## The parts of a bit pattern -/

private theorem toNat_append_eq {m n : Nat} (x : BitVec m) (y : BitVec n) :
    (x ++ y).toNat = x.toNat * 2 ^ n + y.toNat := by
  rw [BitVec.toNat_append, ← Nat.shiftLeft_add_eq_or_of_lt y.isLt, Nat.shiftLeft_eq]

private theorem toNat_unpackSign (b : BitVec Format.binary64.numBits) :
    (unpackSign b).toNat = b.toNat / 2 ^ 63 := by
  have h : b.toNat < 2 ^ 64 := b.isLt
  have hsign : (unpackSign b).toNat = b.toNat >>> 63 % 2 ^ 1 := BitVec.extractLsb_toNat 63 63 b
  rw [hsign, Nat.shiftRight_eq_div_pow]
  omega

private theorem toNat_unpackExponent (b : BitVec Format.binary64.numBits) :
    (unpackExponent b).toNat = b.toNat / 2 ^ 52 % 2 ^ 11 := by
  simp only [unpackExponent, BitVec.toNat_cast, BitVec.extractLsb_toNat,
    Nat.shiftRight_eq_div_pow]

private theorem toNat_unpackMantissa (b : BitVec Format.binary64.numBits) :
    (unpackMantissa b).toNat = b.toNat % 2 ^ 52 := by
  simp only [unpackMantissa, BitVec.toNat_cast, BitVec.extractLsb_toNat, Nat.shiftRight_zero]

/-- Sign, exponent and mantissa put side by side are the whole pattern. -/
private theorem packComponents_unpack (b : BitVec Format.binary64.numBits) :
    packComponents Format.binary64 (Sign.ofBitVec (unpackSign b)) (unpackExponent b)
      (unpackMantissa b) = b := by
  have hsign (s : BitVec 1) : (Sign.ofBitVec s).toBitVec = s := by revert s; decide
  have h : b.toNat < 2 ^ 64 := b.isLt
  apply BitVec.eq_of_toNat_eq
  unfold packComponents
  rw [toNat_append_eq, toNat_append_eq, hsign, toNat_unpackSign, toNat_unpackExponent,
    toNat_unpackMantissa]
  dsimp only
  omega

/-! ## Packing what was unpacked -/

private theorem pack_normal (s : Sign) {m : Nat} (hm : 0 < m) {e : Nat} (he : e < 2047)
    (hlog : m.log2 = 52) :
    UnpackedFloat.pack Format.binary64 (.finite s m (e - (1023 + 52 : Nat)) hm) =
      packComponents Format.binary64 s (BitVec.ofNat 11 e) (BitVec.ofNat 52 m) := by
  have hbits : Format.mantissaBits Format.binary64 = 52 + 1 := rfl
  have hback : ((e : Int) - (1023 + 52 : Nat) + (Format.exponentBias Format.binary64 : Nat) +
      (52 : Nat)).toNat = e := by
    have hbias : Format.exponentBias Format.binary64 = 1023 := rfl
    omega
  unfold UnpackedFloat.pack
  dsimp only
  rw [hback, hlog]
  rw [if_neg (by omega), if_pos hbits.symm]

private theorem pack_subnormal (s : Sign) {m : Nat} (hm : 0 < m) (hlog : m.log2 < 52) :
    UnpackedFloat.pack Format.binary64 (.finite s m (-1074) hm) =
      packComponents Format.binary64 s 0#11 (BitVec.ofNat 52 m) := by
  have hbits : Format.mantissaBits Format.binary64 = 53 := rfl
  unfold UnpackedFloat.pack
  dsimp only
  rw [hbits]
  rw [if_neg (by decide), if_neg (by omega)]

/-- A pattern that is in use is packed from what it unpacks to. The cases are the kinds of doubles:
an exponent of ones is an infinity or NaN, one of zeros a zero or a subnormal. -/
private theorem pack_unpack (b : BitVec Format.binary64.numBits) (hb : Format.binary64.Valid b) :
    UnpackedFloat.pack Format.binary64 (UnpackedFloat.unpack Format.binary64 b) = b := by
  have hjoin := packComponents_unpack b
  have hmant : (unpackMantissa b).toNat < 2 ^ 52 := (unpackMantissa b).isLt
  have hexp : (unpackExponent b).toNat < 2 ^ 11 := (unpackExponent b).isLt
  unfold UnpackedFloat.unpack
  dsimp only
  by_cases hones : unpackExponent b = -1#_
  · rw [if_pos hones]
    by_cases hzero : unpackMantissa b = 0#_
    · rw [if_pos hzero]
      rw [hones, hzero] at hjoin
      exact hjoin
    · rw [if_neg hzero]
      exact (hb.eq_packedNaN hones hzero).symm
  · rw [if_neg hones]
    have hlt : (unpackExponent b).toNat ≠ 2047 := fun h => hones (BitVec.eq_of_toNat_eq h)
    by_cases hsub : unpackExponent b = 0#_
    · rw [if_pos hsub]
      by_cases hzero : unpackMantissa b = 0#_
      · rw [dif_pos hzero]
        rw [hsub, hzero] at hjoin
        exact hjoin
      · rw [dif_neg hzero]
        have hpos : (unpackMantissa b).toNat ≠ 0 := fun h => hzero (BitVec.eq_of_toNat_eq h)
        have hlog : (unpackMantissa b).toNat.log2 < 52 := (Nat.log2_lt hpos).mpr hmant
        rw [hsub] at hjoin ⊢
        refine (pack_subnormal _ (Nat.pos_of_ne_zero hpos) hlog).trans ?_
        rw [BitVec.ofNat_toNat, BitVec.setWidth_eq]
        exact hjoin
    · rw [if_neg hsub]
      have hsplit : (1#1 ++ unpackMantissa b).toNat = 2 ^ 52 + (unpackMantissa b).toNat := by
        rw [toNat_append_eq]
        rfl
      have hlog : (1#1 ++ unpackMantissa b).toNat.log2 = 52 := by
        rw [hsplit, Nat.log2_eq_iff (by omega)]
        omega
      -- The bit that a normal number leaves unwritten is beyond the mantissa's width.
      have hclear : BitVec.ofNat 52 (1#1 ++ unpackMantissa b).toNat = unpackMantissa b := by
        apply BitVec.eq_of_toNat_eq
        rw [BitVec.toNat_ofNat, hsplit, Nat.add_mod_left, Nat.mod_eq_of_lt hmant]
      refine (pack_normal _ _ (by omega) hlog).trans ?_
      rw [hclear, BitVec.ofNat_toNat, BitVec.setWidth_eq]
      exact hjoin

/-! ## Doubles -/

/-- A double is determined by its bits. -/
theorem ofBits_toBits (x : Float) : Float.ofBits x.toBits = x := by
  obtain ⟨⟨bits, hvalid⟩⟩ := x
  unfold Float.ofBits Float.toBits Float.Model.ofBits Float.Model.pack
  congr 2
  rw [pack_unpack _ hvalid]

/-- A double is determined by its sign and its rank. -/
theorem ofRank_rank (x : Float) : ofRank (isNegative x) (rank x) = x := by
  have hlt : x.toBits.toNat < 2 ^ 64 := x.toBits.toNat_lt
  have hbits : (if isNegative x then signBit + rank x else rank x) = x.toBits.toNat := by
    unfold isNegative rank signBit
    split
    · next h =>
      have := of_decide_eq_true h
      omega
    · next h =>
      have : ¬ _ := fun hle => h (decide_eq_true hle)
      omega
  rw [ofRank, hbits, UInt64.ofNat_toNat, ofBits_toBits]

/-- There is one NaN. -/
theorem eq_nan {x : Float} (h : isNaN x = true) : x = 0.0 / 0.0 := by
  have hrank : infinityRank < x.toBits.toNat % signBit := of_decide_eq_true h
  obtain ⟨⟨bits, hvalid⟩⟩ := x
  have hrank : infinityRank < bits.toBitVec.toNat % signBit := hrank
  unfold infinityRank blockSize signBit at hrank
  have hexp : @unpackExponent Format.binary64 bits.toBitVec = -1#11 := by
    apply BitVec.eq_of_toNat_eq
    rw [toNat_unpackExponent]
    have hones : (-1#11).toNat = 2047 := rfl
    omega
  have hmant : @unpackMantissa Format.binary64 bits.toBitVec ≠ 0#52 := by
    intro hzero
    have := congrArg BitVec.toNat hzero
    rw [toNat_unpackMantissa] at this
    have hz : (0#52).toNat = 0 := rfl
    omega
  have hcanon := hvalid.eq_packedNaN hexp hmant
  have hquotient : ((0.0 / 0.0 : Float).toModel.toBits).toBitVec =
      packedNaN Format.binary64 := by decide
  have hsame : bits = (0.0 / 0.0 : Float).toModel.toBits :=
    UInt64.toBitVec_inj.mp (hcanon.trans hquotient.symm)
  generalize (0.0 / 0.0 : Float) = y at hsame
  obtain ⟨⟨bits', hvalid'⟩⟩ := y
  cases hsame
  rfl

/-- Nothing is at most NaN. -/
theorem not_le_nan (x : Float) : ¬ x ≤ 0.0 / 0.0 := by
  have hnan : (0.0 / 0.0 : Float).toModel.unpack = .notANumber := rfl
  intro h
  have hle : (x.toModel.unpack.le (0.0 / 0.0 : Float).toModel.unpack) = true := of_decide_eq_true h
  rw [hnan] at hle
  cases hx : x.toModel.unpack <;> rw [hx] at hle <;> cases hle

/-- Only a NaN is unpacked to no number. -/
theorem isNaN_of_unpack {x : Float} (h : x.toModel.unpack = .notANumber) : isNaN x = true := by
  obtain ⟨⟨bits, hvalid⟩⟩ := x
  change UnpackedFloat.unpack Format.binary64 bits.toBitVec = .notANumber at h
  have hparts : @unpackExponent Format.binary64 bits.toBitVec = -1#11 ∧
      @unpackMantissa Format.binary64 bits.toBitVec ≠ 0#52 := by
    unfold UnpackedFloat.unpack at h
    dsimp only at h
    by_cases hexp : @unpackExponent Format.binary64 bits.toBitVec = -1#_
    · rw [if_pos hexp] at h
      refine ⟨hexp, fun hzero => ?_⟩
      rw [if_pos hzero] at h
      cases h
    · rw [if_neg hexp] at h
      by_cases hsub : @unpackExponent Format.binary64 bits.toBitVec = 0#_
      · rw [if_pos hsub] at h
        by_cases hzero : @unpackMantissa Format.binary64 bits.toBitVec = 0#_
        · rw [dif_pos hzero] at h
          cases h
        · rw [dif_neg hzero] at h
          cases h
      · rw [if_neg hsub] at h
        cases h
  obtain ⟨hexp, hmant⟩ := hparts
  have hexponent := toNat_unpackExponent bits.toBitVec
  have hmantissa := toNat_unpackMantissa bits.toBitVec
  rw [hexp] at hexponent
  have hones : (-1#11).toNat = 2047 := rfl
  have hpos : (@unpackMantissa Format.binary64 bits.toBitVec).toNat ≠ 0 := fun hzero =>
    hmant (BitVec.eq_of_toNat_eq hzero)
  have hlt : bits.toBitVec.toNat < 2 ^ 64 := bits.toBitVec.isLt
  have hrank : infinityRank < bits.toBitVec.toNat % signBit := by
    unfold infinityRank blockSize signBit
    omega
  exact decide_eq_true hrank

/-- Every number is equal to itself. -/
theorem beq_self {x : Float} (h : isNaN x = false) : (x == x) = true := by
  have hunpack : x.toModel.unpack ≠ .notANumber := fun hnan =>
    Bool.noConfusion ((isNaN_of_unpack hnan).symm.trans h)
  show (x.toModel.unpack.compare x.toModel.unpack == some .eq) = true
  cases hx : x.toModel.unpack with
  | notANumber => exact absurd hx hunpack
  | infinity s => cases s <;> rfl
  | zero s => cases s <;> rfl
  | finite s m e hm =>
    have hsame : (compare e e).then (compare m m) = .eq := by
      rw [Std.ReflOrd.compare_self, Std.ReflOrd.compare_self]
      rfl
    cases s with
    | positive =>
      change (some ((compare e e).then (compare m m)) == some .eq) = true
      rw [hsame]
      rfl
    | negative =>
      change (some ((compare e e).then (compare m m)).swap == some .eq) = true
      rw [hsame]
      rfl

/-! ## Order -/

/-- Where a double stands among the numbers: by its class from the negative infinity to the positive
one, then by exponent and mantissa. A NaN stands nowhere. -/
private def place : UnpackedFloat → Option (Int ×ₗ Int ×ₗ Int)
  | .notANumber => none
  | .infinity .negative => some (toLex (-2, toLex (0, 0)))
  | .finite .negative m e _ => some (toLex (-1, toLex (-e, -m)))
  | .zero _ => some (toLex (0, toLex (0, 0)))
  | .finite .positive m e _ => some (toLex (1, toLex (e, m)))
  | .infinity .positive => some (toLex (2, toLex (0, 0)))

private theorem le_iff_place (a b : UnpackedFloat) :
    a.le b = true ↔ ∃ p q, place a = some p ∧ place b = some q ∧ p ≤ q := by
  have hle (e e' : Int) (m m' : Nat) : ((compare e e').then (compare m m')).isLE = true ↔
      e < e' ∨ e = e' ∧ m ≤ m' := by
    rw [Ordering.isLE_then_iff_or, compare_lt_iff_lt, compare_eq_iff_eq, Nat.isLE_compare]
  have hge (e e' : Int) (m m' : Nat) : ((compare e e').then (compare m m')).isGE = true ↔
      e' < e ∨ e = e' ∧ m' ≤ m := by
    rcases lt_trichotomy e e' with h | rfl | h
    · simp [compare_lt_iff_lt.mpr h, h.ne, h.not_gt]
    · simp [Nat.isGE_compare]
    · simp [compare_gt_iff_gt.mpr h, h]
  rcases a with (_ | _) | _ | _ | ⟨_ | _, m, e, hm⟩ <;>
    rcases b with (_ | _) | _ | _ | ⟨_ | _, m', e', hm'⟩ <;>
    dsimp only [place, UnpackedFloat.le, UnpackedFloat.compare] <;>
    simp +decide [Prod.Lex.toLex_le_toLex, hle, hge]

private theorem lt_iff_place (a b : UnpackedFloat) :
    a.lt b = true ↔ ∃ p q, place a = some p ∧ place b = some q ∧ p < q := by
  have hlt (e e' : Int) (m m' : Nat) : (compare e e').then (compare m m') = .lt ↔
      e < e' ∨ e = e' ∧ m < m' := by
    rw [Ordering.then_eq_lt, compare_lt_iff_lt, compare_eq_iff_eq, Nat.compare_eq_lt]
  have hgt (e e' : Int) (m m' : Nat) : (compare e e').then (compare m m') = .gt ↔
      e' < e ∨ e = e' ∧ m' < m := by
    rw [Ordering.then_eq_gt, compare_gt_iff_gt, compare_eq_iff_eq, Nat.compare_eq_gt]
  rcases a with (_ | _) | _ | _ | ⟨_ | _, m, e, hm⟩ <;>
    rcases b with (_ | _) | _ | _ | ⟨_ | _, m', e', hm'⟩ <;>
    dsimp only [place, UnpackedFloat.lt, UnpackedFloat.compare] <;>
    simp +decide [Prod.Lex.toLex_lt_toLex, hlt, hgt]

private theorem exists_place_iff (x : Float) :
    (∃ p, place x.toModel.unpack = some p) ↔ isNaN x = false := by
  constructor
  · rintro ⟨p, hp⟩
    rw [← Bool.not_eq_true]
    intro h
    rw [eq_nan h] at hp
    cases hp
  · intro h
    have hnumber : x.toModel.unpack ≠ .notANumber := fun hnan =>
      Bool.noConfusion ((isNaN_of_unpack hnan).symm.trans h)
    generalize x.toModel.unpack = u at hnumber ⊢
    rcases u with (_ | _) | _ | _ | ⟨_ | _, m, e, hm⟩
    case notANumber => exact absurd rfl hnumber
    all_goals exact ⟨_, rfl⟩

private theorem le_iff_exists_place {x y : Float} : x ≤ y ↔ ∃ p q,
    place x.toModel.unpack = some p ∧ place y.toModel.unpack = some q ∧ p ≤ q :=
  ⟨fun h => (le_iff_place _ _).mp (of_decide_eq_true h),
    fun h => decide_eq_true ((le_iff_place _ _).mpr h)⟩

private theorem lt_iff_exists_place {x y : Float} : x < y ↔ ∃ p q,
    place x.toModel.unpack = some p ∧ place y.toModel.unpack = some q ∧ p < q :=
  ⟨fun h => (lt_iff_place _ _).mp (of_decide_eq_true h),
    fun h => decide_eq_true ((lt_iff_place _ _).mpr h)⟩

/-- The order of doubles is transitive, though not reflexive. -/
protected theorem le_trans {x y z : Float} (hxy : x ≤ y) (hyz : y ≤ z) : x ≤ z := by
  obtain ⟨p, q, hx, hy, hpq⟩ := le_iff_exists_place.mp hxy
  obtain ⟨q', r, hy', hz, hqr⟩ := le_iff_exists_place.mp hyz
  obtain rfl : q = q' := by simpa [hy] using hy'
  exact le_iff_exists_place.mpr ⟨p, r, hx, hz, hpq.trans hqr⟩

/-- A double is at most another exactly if both are numbers and it is not above the other. -/
theorem le_iff_not_lt {x y : Float} :
    x ≤ y ↔ isNaN x = false ∧ isNaN y = false ∧ ¬ y < x := by
  rw [le_iff_exists_place, lt_iff_exists_place, ← exists_place_iff, ← exists_place_iff]
  constructor
  · rintro ⟨p, q, hx, hy, hpq⟩
    refine ⟨⟨p, hx⟩, ⟨q, hy⟩, ?_⟩
    rintro ⟨q', p', hy', hx', hqp⟩
    obtain rfl : p = p' := by simpa [hx] using hx'
    obtain rfl : q = q' := by simpa [hy] using hy'
    exact absurd hpq hqp.not_ge
  · rintro ⟨⟨p, hx⟩, ⟨q, hy⟩, hnot⟩
    exact ⟨p, q, hx, hy, not_lt.mp fun hqp => hnot ⟨q, p, hy, hx, hqp⟩⟩

/-- NaN is above and below nothing. -/
theorem not_lt_of_isNaN {x y : Float} (h : isNaN x = true ∨ isNaN y = true) : ¬ x < y := by
  rw [lt_iff_exists_place]
  rintro ⟨p, q, hx, hy, -⟩
  have hxnumber := (exists_place_iff x).mp ⟨p, hx⟩
  have hynumber := (exists_place_iff y).mp ⟨q, hy⟩
  simp [hxnumber, hynumber] at h

end CostCatalog.Binary64
