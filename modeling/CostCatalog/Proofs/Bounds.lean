import CostCatalog.Proofs.AuditTrail
import CostCatalog.Proofs.Command.Checks
import CostCatalog.Proofs.Number.FloatBits

/-!
# Bounds in order

A parameter refuses two bounds of which the lower one is above the upper one. That is not to say that
the bounds it holds are in order: NaN is above nothing, so it passes the check and is at most nothing
either. This is the only way for bounds to get out of order, `Parameter.bounds_in_order_iff`, and it is
a way, `Parameter.bounds_out_of_order`.
-/

namespace CostCatalog.Parameter

/-- The bounds are in order: where both are there, the lower one is at most the upper one. -/
def BoundsInOrder (p : Parameter) : Prop := ∀ lo ∈ p.minValue, ∀ hi ∈ p.maxValue, lo ≤ hi

/-- A change gives two bounds of which one is NaN. -/
def Edit.GivesNaN (ed : Edit) : Prop :=
  ∃ lo hi, ed = .setBounds (some lo) (some hi) ∧
    (Binary64.isNaN lo = true ∨ Binary64.isNaN hi = true)

/-! ## One change -/

/-- Bounds that are refused leave the bounds as they were, others take their place. -/
theorem bounds_setBounds (now : Timestamp) (p : Parameter) (lo hi : Option Float) :
    (boundsCross lo hi = true ∧ (p.edit now (.setBounds lo hi)).2 = p) ∨
      (boundsCross lo hi = false ∧
        (p.edit now (.setBounds lo hi)).2 = { p with minValue := lo, maxValue := hi }) := by
  by_cases hcross : boundsCross lo hi = true
  · exact Or.inl ⟨hcross, by rw [edit, if_pos hcross]⟩
  · exact Or.inr ⟨Bool.eq_false_iff.mpr hcross, by rw [edit, if_neg hcross]⟩

/-- No other change touches the bounds. -/
private theorem bounds_edit_of_ne {ed : Edit} (hed : ∀ lo hi, ed ≠ .setBounds lo hi) (now : Timestamp)
    (p : Parameter) : (p.edit now ed).2.minValue = p.minValue ∧
      (p.edit now ed).2.maxValue = p.maxValue := by
  cases ed with
  | setBounds lo hi => exact absurd rfl (hed lo hi)
  | update name category dataType actor =>
    simp only [edit]
    split
    · exact ⟨rfl, rfl⟩
    · split
      · exact ⟨rfl, rfl⟩
      · split <;> exact ⟨rfl, rfl⟩
  | setOptions options =>
    simp only [edit]
    split <;> exact ⟨rfl, rfl⟩
  | setUom | setDescription | setMandatory | activate | deactivate => exact ⟨rfl, rfl⟩

/-- A change that does not give NaN keeps the bounds in order. -/
theorem BoundsInOrder.edit {p : Parameter} (hp : p.BoundsInOrder) (now : Timestamp) {ed : Edit}
    (hed : ¬ ed.GivesNaN) : (p.edit now ed).2.BoundsInOrder := by
  by_cases hbounds : ∃ lo hi, ed = .setBounds lo hi
  · obtain ⟨lo, hi, rfl⟩ := hbounds
    rcases bounds_setBounds now p lo hi with ⟨-, hsame⟩ | ⟨hcross, hset⟩
    · rwa [hsame]
    · rw [hset]
      intro x hx y hy
      obtain rfl : lo = some x := hx
      obtain rfl : hi = some y := hy
      have hnot : ¬ y < x := fun hlt =>
        Bool.noConfusion (hcross.symm.trans (Command.boundsCross_iff.mpr ⟨x, rfl, y, rfl, hlt⟩))
      refine Binary64.le_iff_not_lt.mpr ⟨?_, ?_, hnot⟩
      · exact Bool.eq_false_iff.mpr fun hnan => hed ⟨x, y, rfl, Or.inl hnan⟩
      · exact Bool.eq_false_iff.mpr fun hnan => hed ⟨x, y, rfl, Or.inr hnan⟩
  · obtain ⟨hmin, hmax⟩ := bounds_edit_of_ne (fun lo hi h => hbounds ⟨lo, hi, h⟩) now p
    rw [BoundsInOrder, hmin, hmax]
    exact hp

/-- A change that gives NaN is never refused, and leaves bounds that are out of order. -/
theorem Edit.GivesNaN.not_inOrder {ed : Edit} (hed : ed.GivesNaN) (now : Timestamp)
    (p : Parameter) : ¬ (p.edit now ed).2.BoundsInOrder := by
  obtain ⟨lo, hi, rfl, hnan⟩ := hed
  have hcross : boundsCross (some lo) (some hi) = false :=
    decide_eq_false (Binary64.not_lt_of_isNaN hnan.symm)
  rcases bounds_setBounds now p (some lo) (some hi) with ⟨hcross', -⟩ | ⟨-, hset⟩
  · exact absurd (hcross.symm.trans hcross') Bool.noConfusion
  · rw [hset]
    intro horder
    obtain ⟨hlo, hhi, -⟩ := Binary64.le_iff_not_lt.mp (horder lo rfl hi rfl)
    simp [hlo, hhi] at hnan

/-! ## Runs of changes -/

/-- Changes that do not give NaN keep the bounds in order. -/
theorem BoundsInOrder.editEach {p : Parameter} (hp : p.BoundsInOrder)
    {edits : List (Timestamp × Edit)} (h : ∀ x ∈ edits, ¬ x.2.GivesNaN) :
    BoundsInOrder (Entry.editEach (k := .parameter) p edits) := by
  induction edits generalizing p with
  | nil => exact hp
  | cons x edits ih =>
    exact ih (hp.edit x.1 (h x (List.mem_cons_self ..))) fun y hy => h y (List.mem_cons_of_mem x hy)

/-- A new parameter has no bounds. -/
private theorem boundsInOrder_create {code : Code .parameter} {name actor : String}
    {category : ParameterCategory} {dataType : DataType} {now : Timestamp} {p : Parameter}
    (h : create code name category dataType actor now = .ok p) : p.BoundsInOrder := by
  unfold create at h
  split at h
  · cases h
  · split at h
    · cases h
    · cases h
      intro lo hlo
      cases hlo

/-- The bounds of a parameter are in order all through its changes, made or refused, exactly if none
of them gives two bounds of which one is NaN. -/
theorem bounds_in_order_iff {code : Code .parameter} {name actor : String}
    {category : ParameterCategory} {dataType : DataType} {now : Timestamp} {p : Parameter}
    (h : create code name category dataType actor now = .ok p)
    (edits : List (Timestamp × Edit)) :
    (∀ made, made <+: edits → BoundsInOrder (Entry.editEach (k := .parameter) p made)) ↔
      ∀ x ∈ edits, ¬ x.2.GivesNaN := by
  constructor
  · intro horder x hx hnan
    obtain ⟨before, later, rfl⟩ := List.append_of_mem hx
    have hmade : before ++ [x] <+: before ++ x :: later := ⟨later, by simp⟩
    refine hnan.not_inOrder x.1 (Entry.editEach (k := .parameter) p before) ?_
    have hlast := horder _ hmade
    rwa [Entry.editEach, List.foldl_append] at hlast
  · intro hnumbers made hmade
    exact (boundsInOrder_create h).editEach fun x hx => hnumbers x (hmade.subset hx)

/-- A new parameter. -/
def rotations : Parameter where
  code := ⟨"RPM", by decide⟩
  name := "Rotations"
  category := .machine
  dataType := .numeric
  audit := .start "ada" .epoch

/-- Infinite bounds, and crossed ones after them. -/
def rebounds : List (Timestamp × Edit) :=
  [(.epoch, .setBounds (some (-1.0 / 0.0)) (some (1.0 / 0.0))),
    (.epoch, .setBounds (some 2.0) (some 1.0))]

theorem bounds_in_order_iff_infinite :
    create rotations.code "Rotations" .machine .numeric "ada" .epoch = .ok rotations ∧
      ((∀ made, made <+: rebounds → BoundsInOrder (Entry.editEach (k := .parameter) rotations made)) ↔
        ∀ x ∈ rebounds, ¬ x.2.GivesNaN) := by
  have hnew : create rotations.code "Rotations" .machine .numeric "ada" .epoch = .ok rotations := rfl
  exact ⟨hnew, bounds_in_order_iff hnew rebounds⟩

/-- A lower bound that is NaN is accepted beside an upper one, and the two are out of order. -/
theorem bounds_out_of_order :
    create rotations.code "Rotations" .machine .numeric "ada" .epoch = .ok rotations ∧
      (rotations.edit .epoch (.setBounds (some (0.0 / 0.0)) (some 1.0))).1 = .ok () ∧
      ¬ (rotations.edit .epoch (.setBounds (some (0.0 / 0.0)) (some 1.0))).2.BoundsInOrder :=
  ⟨rfl, rfl, Edit.GivesNaN.not_inOrder ⟨_, _, rfl, Or.inl rfl⟩ .epoch rotations⟩

end CostCatalog.Parameter
