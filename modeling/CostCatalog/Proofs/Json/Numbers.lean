import CostCatalog.Proofs.Json.Tokens
import CostCatalog.Proofs.Number.FloatBits
import CostCatalog.Proofs.Number.Shortest

/-!
# Numbers read back

The text of a number is read as that number: `scanScalar_intChars` and `scanScalar_floatText` say so
of a number inside a text, with what may follow a value behind it. An integer comes back digit by
digit, unless there are too many of them; a double comes back because its digits are the shortest that
mean it, and all NaNs are one.
-/

namespace CostCatalog.Json

open Decimal (ofDigits ofDigits_toDigits isDigit_of_mem_toDigits)

variable {τ : Type}

/-! ## Runs of digits -/

/-- The text does not go on with a digit. -/
def NoDigit : List Char → Prop
  | [] => True
  | c :: _ => c.isDigit = false

theorem spanDigits_append {ds rest : List Char} (hds : ∀ c ∈ ds, c.isDigit = true)
    (hrest : NoDigit rest) : spanDigits (ds ++ rest) = (ds, rest) := by
  have htake : rest.takeWhile Char.isDigit = [] := by
    cases rest with
    | nil => rfl
    | cons c cs => exact List.takeWhile_cons_of_neg (Bool.eq_false_iff.mp hrest)
  have hdrop : rest.dropWhile Char.isDigit = rest := by
    cases rest with
    | nil => rfl
    | cons c cs => exact List.dropWhile_cons_of_neg (Bool.eq_false_iff.mp hrest)
  rw [spanDigits, List.takeWhile_append_of_pos hds, List.dropWhile_append_of_pos hds, htake, hdrop,
    List.append_nil]

private theorem spanDigits_self {ds : List Char} (hds : ∀ c ∈ ds, c.isDigit = true) :
    spanDigits ds = (ds, []) := by
  have hspan := spanDigits_append hds (show NoDigit [] from trivial)
  rwa [List.append_nil] at hspan

/-- The digits of a whole number: a zero alone, or a first digit that is none. -/
def Whole : List Char → Prop
  | [] => False
  | c :: cs => (∀ d ∈ c :: cs, d.isDigit = true) ∧ (c = '0' → cs = [])

theorem Whole.isDigit {ds : List Char} (h : Whole ds) : ∀ c ∈ ds, c.isDigit = true := by
  cases ds with
  | nil => exact h.elim
  | cons c cs => exact h.1

theorem Whole.take {ds : List Char} (h : Whole ds) {n : Nat} (hn : 0 < n) : Whole (ds.take n) := by
  cases ds with
  | nil => exact h.elim
  | cons c cs =>
    obtain ⟨m, rfl⟩ : ∃ m, n = m + 1 := ⟨n - 1, by omega⟩
    refine ⟨fun d hd => h.1 d (List.take_subset (m + 1) _ hd), fun hc => ?_⟩
    rw [h.2 hc, List.take_nil]

theorem whole_toDigits (n : Nat) : Whole (Nat.toDigits 10 n) := by
  rcases Nat.eq_zero_or_pos n with rfl | hn
  · exact ⟨fun d hd => isDigit_of_mem_toDigits (n := 0) hd, fun _ => rfl⟩
  · obtain ⟨c, cs, hcs, hc⟩ := Decimal.toDigits_head_ne_zero hn
    have hdigits : ∀ d ∈ c :: cs, d.isDigit = true := fun d hd =>
      isDigit_of_mem_toDigits (hcs ▸ hd)
    rw [hcs]
    exact ⟨hdigits, fun h => absurd h hc⟩

theorem scanWhole?_append {ds rest : List Char} (hds : Whole ds) (hrest : NoDigit rest) :
    scanWhole? (ds ++ rest) = some (ds, rest) := by
  cases ds with
  | nil => exact hds.elim
  | cons c cs =>
    obtain ⟨hdigits, hzero⟩ := hds
    by_cases hc : c = '0'
    · rw [hzero hc, hc]
      rfl
    · have hspan := spanDigits_append hdigits hrest
      have hfirst : c.isDigit = true := hdigits c (List.mem_cons_self ..)
      rw [List.cons_append] at hspan ⊢
      unfold scanWhole?
      split
      · next h => cases h; exact absurd rfl hc
      · next h => cases h; rw [if_pos hfirst, hspan]
      · next h => cases h

private theorem scanWhole?_self {ds : List Char} (hds : Whole ds) :
    scanWhole? ds = some (ds, []) := by
  have hscan := scanWhole?_append hds (show NoDigit [] from trivial)
  rwa [List.append_nil] at hscan

private theorem scanFraction_append {ds rest : List Char} (hne : ds ≠ [])
    (hds : ∀ c ∈ ds, c.isDigit = true) (hrest : NoDigit rest) :
    scanFraction ('.' :: (ds ++ rest)) = (ds, rest) := by
  cases ds with
  | nil => exact absurd rfl hne
  | cons c cs =>
    have hspan := spanDigits_append hds hrest
    have hfirst : c.isDigit = true := hds c (List.mem_cons_self ..)
    rw [List.cons_append] at hspan ⊢
    rw [scanFraction, if_pos hfirst, hspan]

/-- The digits of an exponent, at least two of them. -/
private theorem exponent_digits (n : Nat) :
    ∃ ds, (if (Nat.toDigits 10 n).length < 2 then '0' :: Nat.toDigits 10 n
        else Nat.toDigits 10 n) = ds ∧
      (∀ c ∈ ds, c.isDigit = true) ∧ ds.isEmpty = false ∧ ofDigits ds = n := by
  have hdigits : ∀ c ∈ Nat.toDigits 10 n, c.isDigit = true := fun c => isDigit_of_mem_toDigits
  split
  · refine ⟨_, rfl, fun c hc => ?_, rfl, ?_⟩
    · rcases List.mem_cons.mp hc with rfl | hc
      · rfl
      · exact hdigits c hc
    · have hzero := Decimal.ofDigits_replicate_append 1 (Nat.toDigits 10 n)
      rw [ofDigits_toDigits] at hzero
      exact hzero
  · exact ⟨_, rfl, hdigits, List.isEmpty_eq_false_iff.mpr Nat.toDigits_ne_nil, ofDigits_toDigits n⟩

theorem scanExponent?_exponentText (x : Int) :
    scanExponent? (Shortest.exponentText x) = some (x, []) := by
  obtain ⟨ds, hds, hdigits, hsome, hvalue⟩ := exponent_digits x.natAbs
  have hspan := spanDigits_self hdigits
  simp only [Shortest.exponentText, hds]
  split
  · have hx : -((x.natAbs : Nat) : Int) = x := by omega
    simp only [scanExponent?, decide_true, Bool.true_or, if_true, scanSigned, hspan, hsome, hvalue,
      hx, Bool.false_eq_true, if_false]
  · have hx : ((x.natAbs : Nat) : Int) = x := by omega
    simp only [scanExponent?, decide_true, Bool.true_or, if_true, scanSigned, hspan, hsome, hvalue,
      hx, Bool.false_eq_true, if_false]

/-! ## Numbers without their sign -/

theorem scanMagnitude?_whole (negative : Bool) (n : Nat) :
    scanMagnitude? (τ := τ) negative (Nat.toDigits 10 n) =
      some (.int (if negative then -n else n), []) := by
  have hfraction : scanFraction [] = ([], []) := rfl
  have hexponent : scanExponent? [] = none := rfl
  simp only [scanMagnitude?, scanWhole?_self (whole_toDigits n), Option.map_some, hfraction,
    hexponent, ofDigits_toDigits]

/-- Digits with a point among them are read as a double, whose exponent is what an exponent behind
them says less the number of places behind the point. -/
theorem scanMagnitude?_fraction (negative : Bool) {whole fraction after : List Char}
    (hwhole : Whole whole) (hne : fraction ≠ []) (hfraction : ∀ c ∈ fraction, c.isDigit = true)
    (hafter : NoDigit after) {x : Int} {rest : List Char}
    (hexp : (scanExponent? after).getD (0, after) = (x, rest)) :
    scanMagnitude? (τ := τ) negative (whole ++ '.' :: (fraction ++ after)) =
      some (.float (Decimal.toFloat negative ⟨ofDigits (whole ++ fraction), x - fraction.length⟩),
        rest) := by
  have hpoint : NoDigit ('.' :: (fraction ++ after)) := rfl
  simp only [scanMagnitude?, scanWhole?_append hwhole hpoint, Option.map_some,
    scanFraction_append hne hfraction hafter]
  cases fraction with
  | nil => exact absurd rfl hne
  | cons c cs => simp only [hexp]

/-- A digit with an exponent behind it is read as a double. -/
private theorem scanMagnitude?_exponent (negative : Bool) {whole : List Char} (hwhole : Whole whole)
    (x : Int) :
    scanMagnitude? (τ := τ) negative (whole ++ Shortest.exponentText x) =
      some (.float (Decimal.toFloat negative ⟨ofDigits whole, x⟩), []) := by
  have hletter : NoDigit (Shortest.exponentText x) := rfl
  have hnone : scanFraction (Shortest.exponentText x) = ([], Shortest.exponentText x) := rfl
  simp only [scanMagnitude?, scanWhole?_append hwhole hletter, Option.map_some, hnone,
    scanExponent?_exponentText x, Option.getD_some, List.append_nil, List.length_nil]
  simp only [Int.ofNat_zero, Int.sub_zero]

/-- Digits with a point among them, whatever the place of the point. -/
theorem scanMagnitude?_pointed (negative : Bool) {ds after : List Char} (hds : Whole ds)
    {place : Nat} (hpos : 0 < place) (hlt : place < ds.length) (hafter : NoDigit after)
    {x : Int} {rest : List Char} (hexp : (scanExponent? after).getD (0, after) = (x, rest)) :
    scanMagnitude? (τ := τ) negative (Shortest.pointed ds place ++ after) =
      some (.float (Decimal.toFloat negative ⟨ofDigits ds, x - (ds.length - place : Nat)⟩),
        rest) := by
  have hne : ds.drop place ≠ [] := List.ne_nil_of_length_pos (by rw [List.length_drop]; omega)
  have hdigits : ∀ c ∈ ds.drop place, c.isDigit = true := fun c hc =>
    hds.isDigit c (List.mem_of_mem_drop hc)
  have hread := scanMagnitude?_fraction (τ := τ) negative (hds.take hpos) hne hdigits hafter hexp
  rw [List.take_append_drop, List.length_drop] at hread
  rw [Shortest.pointed, List.append_assoc]
  exact hread

/-- Digits with zeros behind them make a whole number, unless they are a zero alone. -/
private theorem whole_append_replicate {ds : List Char} (hds : Whole ds) {e : Nat}
    (hzero : ds = ['0'] → e = 0) : Whole (ds ++ List.replicate e '0') := by
  cases ds with
  | nil => exact hds.elim
  | cons c cs =>
    refine ⟨fun d hd => ?_, fun hc => ?_⟩
    · rcases List.mem_append.mp (List.cons_append ▸ hd) with hd | hd
      · exact hds.1 d hd
      · rw [(List.mem_replicate.mp hd).2]
        rfl
    · have hcs := hds.2 hc
      rw [hzero (by rw [hc, hcs]), hcs]
      rfl

/-- The text of a decimal is read as the double that the decimal means. -/
private theorem scanMagnitude?_decimalText (negative : Bool) {d : Decimal}
    (hzero : d.digits = 0 → d.exponent = 0) :
    scanMagnitude? (τ := τ) negative (Shortest.decimalText d) =
      some (.float (d.toFloat negative), []) := by
  obtain ⟨n, e⟩ := d
  have hwhole := whole_toDigits n
  have hvalue := ofDigits_toDigits n
  have hlength : 0 < (Nat.toDigits 10 n).length := Nat.length_toDigits_pos
  have hend : NoDigit [] := trivial
  have hnone : (scanExponent? []).getD (0, []) = (0, []) := rfl
  unfold Shortest.decimalText
  simp only
  generalize Nat.toDigits 10 n = ds at *
  split
  · -- With an exponent: the first digit alone, or with a point behind it.
    split
    · next hone =>
      have hlead : e + ds.length - 1 = e := by omega
      rw [hlead, scanMagnitude?_exponent negative hwhole e, hvalue]
    · next hmany =>
      have hplaces : e + ds.length - 1 - (ds.length - 1 : Nat) = e := by omega
      have hletter : NoDigit (Shortest.exponentText (e + ds.length - 1)) := rfl
      have hsome : (scanExponent? (Shortest.exponentText (e + ds.length - 1))).getD
          (0, Shortest.exponentText (e + ds.length - 1)) = (e + ds.length - 1, []) := by
        rw [scanExponent?_exponentText]
        rfl
      rw [scanMagnitude?_pointed negative hwhole Nat.one_pos (by omega) hletter hsome, hvalue,
        hplaces]
  · split
    · -- A whole number: its zeros, and one more behind the point.
      next hexp =>
      obtain ⟨k, rfl⟩ : ∃ k : Nat, e = k := Int.eq_ofNat_of_zero_le hexp
      have hfull : Whole (ds ++ List.replicate k '0') := by
        apply whole_append_replicate hwhole
        intro h
        have hn : n = 0 := by rw [← hvalue, h]; rfl
        exact Int.ofNat_eq_zero.mp (hzero hn)
      have hdigits : ∀ c ∈ ['0'], c.isDigit = true := List.forall_mem_singleton.mpr rfl
      have hscaled : ofDigits (ds ++ List.replicate k '0' ++ ['0']) = n * 10 ^ (k + 1) := by
        rw [List.append_assoc, ← List.replicate_succ', Decimal.ofDigits_append_replicate, hvalue]
      have hread := scanMagnitude?_fraction (τ := τ) negative hfull (by decide) hdigits hend hnone
      rw [hscaled] at hread
      have htext : ds ++ List.replicate (k : Int).toNat '0' ++ ['.', '0'] =
          ds ++ List.replicate k '0' ++ '.' :: (['0'] ++ []) := rfl
      rw [htext, hread, Decimal.toFloat, Decimal.toFloat, ← Decimal.rank_scaled n k]
      rfl
    · split
      · next hexp hlead =>
        have hplaces : (0 : Int) - (ds.length - ((e + ds.length - 1).toNat + 1) : Nat) = e := by
          omega
        have hread := scanMagnitude?_pointed (τ := τ) negative hwhole
          (Nat.succ_pos (e + ds.length - 1).toNat) (by omega) hend hnone
        rw [List.append_nil, hvalue, hplaces] at hread
        exact hread
      · -- Less than one: zeros behind the point, and then the digits.
        next hexp hlead =>
        generalize hk : (-(e + ds.length - 1) - 1).toNat = k
        have hfraction : ∀ c ∈ List.replicate k '0' ++ ds, c.isDigit = true := fun c hc => by
          rcases List.mem_append.mp hc with hc | hc
          · rw [(List.mem_replicate.mp hc).2]
            rfl
          · exact hwhole.isDigit c hc
        have hne : List.replicate k '0' ++ ds ≠ [] :=
          List.ne_nil_of_length_pos (by rw [List.length_append]; omega)
        have hfew : ofDigits (['0'] ++ (List.replicate k '0' ++ ds)) = n := by
          rw [← hvalue, ← Decimal.ofDigits_replicate_append (k + 1) ds]
          rfl
        have hplaces : (0 : Int) - (List.replicate k '0' ++ ds).length = e := by
          rw [List.length_append, List.length_replicate]
          omega
        have hnought : Whole ['0'] := whole_toDigits 0
        have hread := scanMagnitude?_fraction (τ := τ) negative hnought hne hfraction hend hnone
        rw [hfew, hplaces, List.append_nil] at hread
        exact hread

/-! ## Signs and words -/

/-- The text starts with a digit, so it is no word. -/
def StartsWithDigit : List Char → Prop
  | [] => False
  | c :: _ => c.isDigit = true

theorem Whole.startsWithDigit {ds : List Char} (h : Whole ds) : StartsWithDigit ds := by
  cases ds with
  | nil => exact h.elim
  | cons c cs => exact h.1 c (List.mem_cons_self ..)

theorem startsWithDigit_decimalText (d : Decimal) : StartsWithDigit (Shortest.decimalText d) := by
  have hwhole := whole_toDigits d.digits
  unfold Shortest.decimalText
  simp only
  generalize Nat.toDigits 10 d.digits = ds at *
  cases ds with
  | nil => exact hwhole.elim
  | cons c cs =>
    have hc : c.isDigit = true := hwhole.1 c (List.mem_cons_self ..)
    split
    · split <;> exact hc
    · split
      · exact hc
      · split
        · exact hc
        · rfl

/-- No word starts with a digit, not even behind a minus sign. -/
private theorem isPrefixOf_words {cs : List Char} (h : StartsWithDigit cs) :
    ∀ w ∈ words (τ := τ), w.1.isPrefixOf cs = false ∧ w.1.isPrefixOf ('-' :: cs) = false := by
  cases cs with
  | nil => exact h.elim
  | cons c cs =>
    have hother {d : Char} (hd : d.isDigit = false) : (d == c) = false := by
      apply beq_eq_false_iff_ne.mpr
      intro hdc
      rw [hdc, show c.isDigit = true from h] at hd
      cases hd
    intro w hw
    simp only [words, List.mem_cons, List.not_mem_nil, or_false] at hw
    rcases hw with rfl | rfl | rfl | rfl | rfl | rfl <;>
      simp [List.isPrefixOf, hother]

private theorem scanWord?_eq_none {cs : List Char} (h : StartsWithDigit cs) :
    scanWord? (τ := τ) cs = none := by
  refine List.findSome?_eq_none_iff.mpr fun w hw => ?_
  simp only [(isPrefixOf_words h w hw).1, Bool.false_eq_true, if_false]

private theorem scanWord?_minus_eq_none {cs : List Char} (h : StartsWithDigit cs) :
    scanWord? (τ := τ) ('-' :: cs) = none := by
  refine List.findSome?_eq_none_iff.mpr fun w hw => ?_
  simp only [(isPrefixOf_words h w hw).2, Bool.false_eq_true, if_false]

/-- A number with or without its sign. -/
theorem scanToken?_magnitude {cs rest : List Char} {v : Json τ} (hcs : StartsWithDigit cs)
    (h : scanMagnitude? false cs = some (v, rest)) : scanToken? cs = some (v, rest) := by
  cases cs with
  | nil => exact hcs.elim
  | cons c cs =>
    have hsign : c ≠ '-' := fun hc => by
      rw [hc] at hcs
      cases hcs
    rw [scanToken?, scanWord?_eq_none hcs]
    · exact h
    · exact fun _ heq => hsign (List.cons.inj heq).1

theorem scanToken?_minus {cs rest : List Char} {v : Json τ} (hcs : StartsWithDigit cs)
    (h : scanMagnitude? true cs = some (v, rest)) : scanToken? ('-' :: cs) = some (v, rest) := by
  rw [scanToken?, scanWord?_minus_eq_none hcs]
  exact h

/-- The text of an integer is that integer. -/
private theorem scanToken?_intChars (n : Int) :
    scanToken? (τ := τ) (intChars n) = some (.int n, []) := by
  unfold intChars
  split
  · next hneg =>
    have hread := scanMagnitude?_whole (τ := τ) true n.natAbs
    have hvalue : -((n.natAbs : Nat) : Int) = n := by omega
    rw [if_pos rfl, hvalue] at hread
    exact scanToken?_minus (whole_toDigits _).startsWithDigit hread
  · next hpos =>
    have hread := scanMagnitude?_whole (τ := τ) false n.natAbs
    have hvalue : ((n.natAbs : Nat) : Int) = n := by omega
    rw [if_neg Bool.false_ne_true, hvalue] at hread
    exact scanToken?_magnitude (whole_toDigits _).startsWithDigit hread

/-- The text of a finite double is that double. -/
private theorem scanToken?_finite {x : Float} (hfin : Binary64.rank x < Binary64.infinityRank) :
    scanToken? (τ := τ) (if Binary64.isNegative x
        then '-' :: Shortest.decimalText (Shortest.ofRank (Binary64.rank x))
        else Shortest.decimalText (Shortest.ofRank (Binary64.rank x))) = some (.float x, []) := by
  have hvalue := Binary64.ofRank_rank x
  have hstart := startsWithDigit_decimalText (Shortest.ofRank (Binary64.rank x))
  have hread := scanMagnitude?_decimalText (τ := τ) (Binary64.isNegative x)
    (Shortest.ofRank_exponent_of_zero hfin)
  rw [Decimal.toFloat, Shortest.rank_ofRank hfin, hvalue] at hread
  cases hneg : Binary64.isNegative x with
  | true =>
    rw [hneg] at hread
    exact scanToken?_minus hstart hread
  | false =>
    rw [hneg] at hread
    exact scanToken?_magnitude hstart hread

/-- The text of an infinity is that infinity. -/
private theorem scanToken?_infinite {x : Float} (hinf : Binary64.rank x = Binary64.infinityRank) :
    scanToken? (τ := τ) (if Binary64.isNegative x then '-' :: floatNames.infinity.toList
        else floatNames.infinity.toList) = some (.float x, []) := by
  have hvalue := Binary64.ofRank_rank x
  rw [hinf] at hvalue
  cases hneg : Binary64.isNegative x with
  | true => rw [← hvalue, hneg]; rfl
  | false => rw [← hvalue, hneg]; rfl

/-- The text of a double is that double. -/
private theorem scanToken?_floatText (x : Float) :
    scanToken? (τ := τ) (Shortest.floatText floatNames x) = some (.float x, []) := by
  unfold Shortest.floatText
  by_cases hnan : Binary64.isNaN x = true
  · rw [if_pos hnan, Binary64.eq_nan hnan]
    rfl
  · rw [if_neg hnan]
    by_cases hfin : Binary64.isFinite x = true
    · rw [if_pos hfin]
      exact scanToken?_finite (of_decide_eq_true hfin)
    · rw [if_neg hfin]
      have hle : Binary64.rank x ≤ Binary64.infinityRank :=
        Nat.le_of_not_lt fun h => hnan (decide_eq_true h)
      have hge : Binary64.infinityRank ≤ Binary64.rank x :=
        Nat.le_of_not_lt fun h => hfin (decide_eq_true h)
      exact scanToken?_infinite (Nat.le_antisymm hle hge)

/-! ## Inside a text -/

/-- A word or a number inside a text is read by its run. -/
theorem scanScalar_run {cs : List Char} (hcs : IsRun cs) {v : Json τ}
    (hread : scanToken? cs = some (v, [])) {rest : List CodePoint} (hrest : Ends rest)
    (hshort : ∀ n, v = .int n → Decimal.isShort n = true) :
    scanScalar (CodePoint.ofChars cs ++ rest) = .ok (v, rest) := by
  have hdrop : (CodePoint.ofChars cs ++ rest).drop (cs.length - ([] : List Char).length) = rest :=
    List.drop_left' (List.length_map ..)
  simp only [scanScalar, tokenChars_append hcs hrest, hread, hdrop]
  cases v with
  | int n => exact if_pos (hshort n rfl)
  | _ => rfl

/-- An integer is read back. -/
theorem scanScalar_intChars {n : Int} (hshort : Decimal.isShort n = true) {rest : List CodePoint}
    (hrest : Ends rest) :
    scanScalar (τ := τ) (CodePoint.ofChars (intChars n) ++ rest) = .ok (.int n, rest) :=
  scanScalar_run (isRun_intChars n) (scanToken?_intChars n) hrest fun _ h => Json.int.inj h ▸ hshort

/-- A double is read back. -/
theorem scanScalar_floatText (x : Float) {rest : List CodePoint} (hrest : Ends rest) :
    scanScalar (τ := τ) (CodePoint.ofChars (Shortest.floatText floatNames x) ++ rest) =
      .ok (.float x, rest) :=
  scanScalar_run (isRun_floatText x) (scanToken?_floatText x) hrest fun _ h => nomatch h

end CostCatalog.Json
