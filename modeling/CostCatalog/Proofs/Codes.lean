import CostCatalog.Proofs.Store
import Mathlib.Data.Finset.Sort
import Mathlib.Data.Set.Finite.List
import Mathlib.Data.String.Basic
import Mathlib.SetTheory.Cardinal.Finite

/-!
# All codes

A kind has finitely many codes, its texts being bounded. So they can be listed in the order of their
texts, `Code.all`, and the rows of a table are what it holds under each of them in turn,
`Table.rows_eq_filterMap`: a table is nothing but what it finds.
-/

namespace CostCatalog

variable {k : Kind}

namespace Code

/-- The pattern of codes: a capital letter of ASCII, then capitals, digits and underscores, at most
as many as the kind allows. -/
def HasPattern (k : Kind) (s : String) : Prop :=
  ∃ c cs, s.toList = c :: cs ∧ ('A' ≤ c ∧ c ≤ 'Z') ∧
    (∀ d ∈ cs, ('A' ≤ d ∧ d ≤ 'Z') ∨ ('0' ≤ d ∧ d ≤ '9') ∨ d = '_') ∧
    cs.length ≤ match k with
      | .uom => 19
      | .parameter => 49

theorem isCapital_iff {c : Char} : isCapital c = true ↔ 'A' ≤ c ∧ c ≤ 'Z' := by
  rw [isCapital, Bool.and_eq_true, decide_eq_true_iff, decide_eq_true_iff]

private theorem isTail_iff {c : Char} :
    isTail c = true ↔ ('A' ≤ c ∧ c ≤ 'Z') ∨ ('0' ≤ c ∧ c ≤ '9') ∨ c = '_' := by
  rw [isTail, Bool.or_eq_true, Bool.or_eq_true, isCapital_iff, beq_iff_eq, Char.isDigit,
    Bool.and_eq_true, decide_eq_true_iff, decide_eq_true_iff, or_assoc]
  exact Iff.rfl

/-- What makes a code is the pattern. -/
theorem isWellFormed_iff {s : String} : isWellFormed k s.toList = true ↔ HasPattern k s := by
  have hlimit (n : Nat) : n < k.codeLimit ↔ n ≤ match k with
      | .uom => 19
      | .parameter => 49 := by cases k <;> exact Nat.lt_succ_iff
  unfold HasPattern
  generalize s.toList = cs
  cases cs with
  | nil => exact iff_of_false Bool.noConfusion fun ⟨_, _, h, _⟩ => nomatch h
  | cons c cs =>
    simp only [isWellFormed, Bool.and_eq_true, List.all_eq_true, isCapital_iff, isTail_iff,
      decide_eq_true_iff, hlimit, List.cons.injEq, and_assoc]
    constructor
    · rintro ⟨hfirst, hlast, htail, hlength⟩
      exact ⟨c, cs, rfl, rfl, hfirst, hlast, htail, hlength⟩
    · rintro ⟨_, _, rfl, rfl, hfirst, hlast, htail, hlength⟩
      exact ⟨hfirst, hlast, htail, hlength⟩

instance (k : Kind) : DecidablePred (HasPattern k) := fun _ => decidable_of_iff _ isWellFormed_iff

theorem length_le (c : Code k) : c.text.toList.length ≤ k.codeLimit := by
  obtain ⟨d, ds, hchars, -, -, hlength⟩ := isWellFormed_iff.mp c.wellFormed
  rw [hchars, List.length_cons]
  cases k <;> exact Nat.succ_le_succ hlength

instance : Finite Char :=
  Finite.of_injective (fun c : Char => c.val.toFin) fun _ _ h =>
    Char.ext (UInt32.toFin_inj.mp h)

instance (k : Kind) : Finite (Code k) := by
  have hbounded : {cs : List Char | cs.length ≤ k.codeLimit}.Finite :=
    List.finite_length_le Char k.codeLimit
  have := hbounded.to_subtype
  refine Finite.of_injective
    (fun c : Code k => (⟨c.text.toList, c.length_le⟩ : {cs : List Char | cs.length ≤ k.codeLimit}))
    fun a b h => Code.ext_text ?_
  exact String.toList_inj.mp (congrArg Subtype.val h)

/-- The characters of a code are those of ASCII. -/
private theorem toNat_lt_of_mem {c : Code k} {d : Char} (h : d ∈ c.text.toList) : d.toNat < 128 := by
  have hbound {a b : Char} (hb : b.toNat < 128) (h : a ≤ b) : a.toNat < 128 :=
    Nat.lt_of_le_of_lt h hb
  obtain ⟨e, es, hchars, ⟨-, hfirst⟩, htail, -⟩ := isWellFormed_iff.mp c.wellFormed
  rw [hchars] at h
  rcases List.mem_cons.mp h with rfl | hmem
  · exact hbound (by decide) hfirst
  · rcases htail d hmem with ⟨-, hcapital⟩ | ⟨-, hdigit⟩ | rfl
    · exact hbound (by decide) hcapital
    · exact hbound (by decide) hdigit
    · decide

/-- The characters of a code by their places. -/
def place (c : Code k) (i : Fin 50) : Option (Fin 128) :=
  if h : i < c.text.toList.length then
    some ⟨(c.text.toList[i]).toNat, toNat_lt_of_mem (List.getElem_mem h)⟩
  else none

/-- No code has more than fifty places. -/
private theorem place_injective : Function.Injective (place (k := k)) := by
  intro a b hab
  have hlimit : k.codeLimit ≤ 50 := by cases k <;> decide
  refine Code.ext_text (String.toList_injective (List.ext_getElem? fun i => ?_))
  rcases Nat.lt_or_ge i 50 with hi | hi
  · have hplace := congrFun hab ⟨i, hi⟩
    simp only [place] at hplace
    split at hplace <;> split at hplace
    · next ha hb =>
      simp only [Option.some.injEq, Fin.mk.injEq] at hplace
      rw [List.getElem?_eq_getElem ha, List.getElem?_eq_getElem hb]
      exact congrArg some (Char.toNat_inj.mp hplace)
    · cases hplace
    · cases hplace
    · next ha hb =>
      rw [List.getElem?_eq_none (Nat.not_lt.mp ha), List.getElem?_eq_none (Nat.not_lt.mp hb)]
  · rw [List.getElem?_eq_none ((a.length_le.trans hlimit).trans hi),
      List.getElem?_eq_none ((b.length_le.trans hlimit).trans hi)]

/-- There are not more codes than texts of fifty characters or fewer. -/
private theorem card_lt (k : Kind) : Nat.card (Code k) < 2 ^ 1000 := by
  have hcard := Nat.card_le_card_of_injective place (place_injective (k := k))
  have hplaces : Nat.card (Fin 50 → Option (Fin 128)) = 129 ^ 50 := by
    rw [Nat.card_eq_fintype_card, Fintype.card_fun, Fintype.card_option, Fintype.card_fin,
      Fintype.card_fin]
  have hpow (a b m n : Nat) (ha : a ≤ 2 ^ b) (hn : b * m < n) : a ^ m < 2 ^ n :=
    calc a ^ m ≤ (2 ^ b) ^ m := Nat.pow_le_pow_left ha m
      _ = 2 ^ (b * m) := (Nat.pow_mul ..).symm
      _ < 2 ^ n := Nat.pow_lt_pow_right (by decide) hn
  rw [hplaces] at hcard
  exact hcard.trans_lt (hpow 129 8 50 1000 (by decide) (by decide))

/-- Codes are in the order of their texts. -/
def NotAfter (a b : Code k) : Prop := a.text ≤ b.text

instance : DecidableRel (NotAfter (k := k)) := fun a b =>
  inferInstanceAs (Decidable (a.text ≤ b.text))

instance : IsTrans (Code k) NotAfter := ⟨fun _ _ _ hab hbc => le_trans (α := String) hab hbc⟩

instance : Std.Antisymm (NotAfter (k := k)) :=
  ⟨fun _ _ hab hba => Code.ext_text (le_antisymm (α := String) hab hba)⟩

instance : Std.Total (NotAfter (k := k)) := ⟨fun a b => le_total (α := String) a.text b.text⟩

/-- The codes of a kind, each once, in the order of their texts. -/
noncomputable def all (k : Kind) : List (Code k) :=
  (Set.finite_univ (α := Code k)).toFinset.sort NotAfter

private theorem mem_all (c : Code k) : c ∈ all k := by
  rw [all, Finset.mem_sort, Set.Finite.mem_toFinset]
  exact Set.mem_univ c

private theorem all_ascending (k : Kind) : (all k).Pairwise fun a b => a.text < b.text := by
  have hsorted : (all k).Pairwise NotAfter := Finset.pairwise_sort _ _
  have hnodup : (all k).Pairwise (· ≠ ·) := Finset.sort_nodup _ _
  refine (hsorted.and hnodup).imp fun h => ?_
  exact lt_of_le_of_ne (α := String) h.1 fun htext => h.2 (Code.ext_text htext)

end Code

namespace Table

/-- A table holds exactly what it finds under the codes. -/
theorem rows_eq_filterMap (t : Table k) : t.rows = (Code.all k).filterMap t.find? := by
  have : Std.Irrefl (Entry.Before (k := k)) := ⟨fun e => lt_irrefl (α := String) e.code.text⟩
  have : Std.Antisymm (Entry.Before (k := k)) :=
    ⟨fun _ _ hab hba => absurd hba (lt_asymm (α := String) hab)⟩
  refine t.sorted.eq_of_mem_iff ?ascending fun e => ?same
  case ascending =>
    refine List.pairwise_filterMap.mpr ((Code.all_ascending k).imp ?_)
    intro c d hlt e he e' he'
    unfold Entry.Before
    rw [(find?_spec he).2, (find?_spec he').2]
    exact hlt
  case same =>
    rw [List.mem_filterMap]
    constructor
    · intro he
      exact ⟨e.code, Code.mem_all _, find?_of_mem he⟩
    · rintro ⟨c, -, hc⟩
      exact List.mem_of_find?_eq_some hc

/-- A table has no more rows than there are codes. -/
theorem length_rows_lt (t : Table k) : t.rows.length < 2 ^ 1000 := by
  have hnodup : (t.rows.map Entry.code).Nodup := by
    refine List.pairwise_map.mpr (t.sorted.imp ?_)
    intro a b hab hcode
    exact absurd (congrArg Code.text hcode) (ne_of_lt (α := String) hab)
  have := Fintype.ofFinite (Code k)
  have hlength := hnodup.length_le_card
  rw [List.length_map, ← Nat.card_eq_fintype_card] at hlength
  exact hlength.trans_lt (Code.card_lt k)

end Table

end CostCatalog
