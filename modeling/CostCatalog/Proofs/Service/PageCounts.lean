import CostCatalog.Proofs.Pages
import CostCatalog.Service.Response
import Mathlib.Data.Rat.Floor
import Mathlib.Order.Bounds.Basic

/-!
# Page counts

The number of pages is the ceiling of a double, and the double is rounded. Up to a total of `2^53`
this goes unnoticed, `Page.pagination_exact`: the quotient is rounded correctly, and its ceiling is
that of the quotient itself, for every size that a page can be asked for with. So the pages that
are counted are those that have a row to show. Above `2^53` a page can be lost.
-/

namespace CostCatalog

namespace Quotient

open Binary64

/-- The ceiling of a quotient of natural numbers. -/
theorem ceil_div {num den : Nat} (hden : 0 < den) :
    ⌈(num : ℚ) / den⌉ = ((num ⌈/⌉ den : Nat) : ℤ) := by
  have hden' : (0 : ℚ) < den := by exact_mod_cast hden
  have hnat : ⌈(num : ℚ) / den⌉₊ = num ⌈/⌉ den := by
    refine eq_of_forall_ge_iff fun c => ?_
    rw [Nat.ceil_le, ceilDiv_le_iff_le_mul hden, div_le_iff₀' hden']
    exact_mod_cast Iff.rfl
  rw [← hnat, Int.natCast_ceil_eq_ceil (by positivity)]

/-- The ceiling of a rounded quotient is that of the value of the nearest double. -/
theorem roundedCeiling?_eq_ceil {num den : Nat} (hfinite : nearest num den < infinityRank) :
    roundedCeiling? (num : Int) den = some ⌈value (nearest num den)⌉ := by
  rw [roundedCeiling?_of_finite hfinite, value, ceil_div (denominator_pos _)]

end Quotient

namespace Page

/-- What a number of pages has to be to be that of the pages that a total fills. -/
structure Counts (p : Page) (total pages : Int) : Prop where
  /-- It is worked out from the double to which the quotient is correctly rounded. -/
  rounded : ∃ rank, Binary64.RoundsTo ((total : ℚ) / p.limit) rank ∧ pages = ⌈Binary64.value rank⌉
  /-- The rounding does not show. -/
  ceiling : pages = ⌈(total : ℚ) / p.limit⌉
  /-- It is the least number of pages with room for every row. -/
  least : IsLeast {n : Int | total ≤ n * p.limit} pages
  /-- The pages of this size that are counted are those before the end of the list. -/
  reached : ∀ number : Int, 1 ≤ number →
    (((⟨number, p.size⟩ : Page).offset : Int) < total ↔ number ≤ pages)

theorem ceil_le_iff (p : Page) {total n : Int} :
    ⌈(total : ℚ) / p.limit⌉ ≤ n ↔ total ≤ n * p.limit := by
  have hlimit : (0 : ℚ) < p.limit := by exact_mod_cast p.limit_pos
  rw [Int.ceil_le, div_le_iff₀ hlimit]
  exact_mod_cast Iff.rfl

/-- A page is before the end of the list when the ceiling of the quotient counts it. -/
theorem offset_lt_iff (p : Page) {total number : Int} (hnumber : 1 ≤ number) :
    ((⟨number, p.size⟩ : Page).offset : Int) < total ↔ number ≤ ⌈(total : ℚ) / p.limit⌉ := by
  obtain ⟨i, rfl⟩ : ∃ i : Nat, number = i + 1 := ⟨(number - 1).toNat, by omega⟩
  have hoffset : (⟨i + 1, p.size⟩ : Page).offset = i * p.limit := offset_of_pos rfl
  rw [hoffset, Int.add_one_le_iff, ← not_le, ← not_le, ceil_le_iff, Nat.cast_mul]

/-- Up to a total of `2^53` the number of pages is the exact ceiling. -/
theorem pagination_exact (p : Page) {total : Int} (hlow : 0 ≤ total) (hhigh : total ≤ 2 ^ 53) :
    ∃ pages, p.totalPages? total = some pages ∧ p.Counts total pages ∧
      Service.pagination p total = .ok ⟨p.effective, p.limit, total, pages⟩ := by
  obtain ⟨count, rfl⟩ := Int.eq_ofNat_of_zero_le hlow
  have hbound : count ≤ 2 ^ 53 := by exact_mod_cast hhigh
  have hfinite := Quotient.nearest_lt_infinityRank_of_le hbound p.limit_pos
  have hrounds := Binary64.nearest_roundsTo p.limit_pos hfinite
  have hceiling := p.totalPages?_of_le hbound
  -- Both forms of the same ceiling: of the double, and of the quotient.
  have hrounded : p.totalPages? count = some ⌈Binary64.value (Binary64.nearest count p.limit)⌉ :=
    Quotient.roundedCeiling?_eq_ceil hfinite
  rw [← Quotient.ceil_div p.limit_pos] at hceiling
  have hexact := Option.some.inj (hrounded.symm.trans hceiling)
  refine ⟨⌈(count : ℚ) / p.limit⌉, hceiling, ⟨⟨_, hrounds, hexact.symm⟩, rfl,
    ⟨p.ceil_le_iff.mp le_rfl, fun n hn => p.ceil_le_iff.mpr hn⟩, fun number => p.offset_lt_iff⟩, ?_⟩
  rw [Service.pagination, hceiling]

/-- A third of `2^53` is no double, and the one that is taken for it is less. -/
theorem pagination_exact_thirds : ∃ pages,
    (⟨-1, 3⟩ : Page).totalPages? (2 ^ 53) = some pages ∧ (⟨-1, 3⟩ : Page).Counts (2 ^ 53) pages ∧
      Service.pagination ⟨-1, 3⟩ (2 ^ 53) = .ok ⟨1, 3, 2 ^ 53, pages⟩ :=
  pagination_exact ⟨-1, 3⟩ (by decide) (by decide)

/-- The last row of one more than `2^53` is on a page that is not counted. -/
example : (⟨1, 1⟩ : Page).totalPages? (2 ^ 53 + 1) = some (2 ^ 53) := by decide +kernel

end Page

end CostCatalog
