import CostCatalog.Calendar.Date

/-!
# Days and their names

The day that a number names has that number, and it is a day that the calendar has
(`number_ofNumber`, `ofNumber_valid`). A year is found first, together with what is left of it
(`yearOfDay_spec`); then the month, along the lengths of the months (`monthOfDay_spec`). Of two days
the one before the other has the smaller number (`number_lt_of_before`).
-/

namespace CostCatalog.Calendar

/-! ## Lengths -/

theorem daysBeforeMonth_succ (year : Nat) {month : Nat} (h : 0 < month) :
    daysBeforeMonth year (month + 1) = daysBeforeMonth year month + daysInMonth year month := by
  obtain ⟨m, rfl⟩ : ∃ m, month = m + 1 := ⟨month - 1, by omega⟩
  rfl

private theorem daysInMonth_le (year month : Nat) : daysInMonth year month ≤ 31 := by
  unfold daysInMonth
  split
  · split <;> decide
  all_goals decide

theorem Date.Valid.day_le {d : Date} (h : d.Valid) : d.day ≤ 31 :=
  Nat.le_trans h.2.2.2.2.2 (daysInMonth_le _ _)

/-- The length of a year. -/
def daysInYear (year : Nat) : Nat := if isLeap year then 366 else 365

theorem daysBeforeMonth_end (year : Nat) : daysBeforeMonth year 13 = daysInYear year := by
  simp only [daysBeforeMonth, daysInMonth, daysInYear]
  split <;> rfl

/-- A year that four divides is a leap year, unless a hundred divides it and four hundred does
not. -/
theorem isLeap_iff (year : Nat) :
    isLeap year = true ↔ year % 4 = 0 ∧ (year % 100 ≠ 0 ∨ year % 400 = 0) := by
  simp only [isLeap, Bool.and_eq_true, Bool.or_eq_true, beq_iff_eq, bne_iff_ne]

/-! ## The year of a day -/

/-- The days before a year that is written by its cycles. -/
private theorem daysBeforeYear_cycles {a c q y : Nat} (hc : c ≤ 3) (hq : q ≤ 24) (hy : y ≤ 3) :
    daysBeforeYear (400 * a + 100 * c + 4 * q + y + 1) =
      146097 * a + 36524 * c + 1461 * q + 365 * y := by
  simp only [daysBeforeYear]
  omega

/-- A day lies in its year. -/
theorem yearOfDay_spec (n : Nat) :
    daysBeforeYear (yearOfDay n).1 + (yearOfDay n).2 = n ∧
      (yearOfDay n).2 < daysInYear (yearOfDay n).1 := by
  obtain ⟨a, r, hr, rfl⟩ : ∃ a r, r < 146097 ∧ n = 146097 * a + r :=
    ⟨n / 146097, n % 146097, Nat.mod_lt n (by decide), (Nat.div_add_mod n 146097).symm⟩
  have hdiv : (146097 * a + r) / 146097 = a := by omega
  have hmod : (146097 * a + r) % 146097 = r := by omega
  simp only [yearOfDay, hdiv, hmod]
  obtain ⟨c, hc⟩ : ∃ c, min (r / 36524) 3 = c := ⟨_, rfl⟩
  obtain ⟨d, hd⟩ : ∃ d, r - c * 36524 = d := ⟨_, rfl⟩
  have hc3 : c ≤ 3 := by omega
  have hdlt : d < 36525 ∧ (c < 3 → d < 36524) := by omega
  obtain ⟨q, hq⟩ : ∃ q, d / 1461 = q := ⟨_, rfl⟩
  obtain ⟨e, he⟩ : ∃ e, d % 1461 = e := ⟨_, rfl⟩
  have hq24 : q ≤ 24 := by omega
  obtain ⟨y, hy⟩ : ∃ y, min (e / 365) 3 = y := ⟨_, rfl⟩
  have hy3 : y ≤ 3 := by omega
  rw [hc, hd, hq, he, hy, daysBeforeYear_cycles hc3 hq24 hy3]
  refine ⟨by omega, ?_⟩
  unfold daysInYear
  split
  · omega
  · next hleap =>
    rw [isLeap_iff] at hleap
    omega

/-! ## The month of a day -/

/-- The month found is one of those looked at, and the day lies in it. -/
theorem monthOfDay_spec (year fuel : Nat) {month n : Nat} (hmonth : 0 < month)
    (hn : daysBeforeMonth year month + n < daysBeforeMonth year (month + fuel + 1)) :
    month ≤ (monthOfDay year fuel month n).1 ∧
      (monthOfDay year fuel month n).1 ≤ month + fuel ∧
      0 < (monthOfDay year fuel month n).2 ∧
      (monthOfDay year fuel month n).2 ≤ daysInMonth year (monthOfDay year fuel month n).1 ∧
      daysBeforeMonth year (monthOfDay year fuel month n).1 + ((monthOfDay year fuel month n).2 - 1)
        = daysBeforeMonth year month + n := by
  induction fuel generalizing month n with
  | zero =>
    rw [Nat.add_zero, daysBeforeMonth_succ year hmonth] at hn
    simp only [monthOfDay]
    omega
  | succ fuel ih =>
    unfold monthOfDay
    split
    · simp only
      omega
    · next hlong =>
      have hstep := daysBeforeMonth_succ year hmonth
      have hrest : daysBeforeMonth year (month + 1) + (n - daysInMonth year month) =
          daysBeforeMonth year month + n := by omega
      have hplace : month + 1 + fuel + 1 = month + (fuel + 1) + 1 := by omega
      have hpos : 0 < month + 1 := Nat.succ_pos month
      obtain ⟨h₁, h₂, h₃, h₄, h₅⟩ := ih hpos (by rw [hrest, hplace]; exact hn)
      exact ⟨by omega, by omega, h₃, h₄, h₅.trans hrest⟩

/-! ## Days -/

/-- What is left of the year is looked for in the months of that year. -/
private theorem rest_lt (n : Nat) :
    daysBeforeMonth (yearOfDay n).1 1 + (yearOfDay n).2 <
      daysBeforeMonth (yearOfDay n).1 (1 + 11 + 1) := by
  have hrest := (yearOfDay_spec n).2
  have hfirst : daysBeforeMonth (yearOfDay n).1 1 = 0 := rfl
  rw [← daysBeforeMonth_end] at hrest
  rw [hfirst, Nat.zero_add]
  exact hrest

/-- The day with a number has that number. -/
theorem number_ofNumber (n : Nat) : (Date.ofNumber n).number = n := by
  obtain ⟨-, -, -, -, hday⟩ := monthOfDay_spec (yearOfDay n).1 11 Nat.one_pos (rest_lt n)
  have hfirst : daysBeforeMonth (yearOfDay n).1 1 = 0 := rfl
  rw [hfirst, Nat.zero_add] at hday
  rw [Date.ofNumber, Date.number, Nat.add_assoc, hday]
  exact (yearOfDay_spec n).1

/-- The calendar has every day up to the end of the year 9999. -/
theorem ofNumber_valid {n : Nat} (h : n < dayCount) : (Date.ofNumber n).Valid := by
  obtain ⟨hlow, hhigh, hday, hlast, -⟩ :=
    monthOfDay_spec (yearOfDay n).1 11 Nat.one_pos (rest_lt n)
  have hyear : (yearOfDay n).1 ≤ 9999 := by
    have hspec := (yearOfDay_spec n).1
    apply Nat.le_of_not_lt
    intro hlarge
    have hbefore : dayCount ≤ daysBeforeYear (yearOfDay n).1 := by
      simp only [dayCount, daysBeforeYear]
      omega
    omega
  exact ⟨Nat.succ_pos _, hyear, hlow, hhigh, hday, hlast⟩

/-! ## Days in order -/

/-- A multiple is met one time more when the next number is one. -/
private theorem succ_div_eq (n d : Nat) :
    (n + 1) / d = n / d + if (n + 1) % d = 0 then 1 else 0 := by
  rw [Nat.succ_div]
  simp only [Nat.dvd_iff_mod_eq_zero]

theorem daysBeforeYear_succ {year : Nat} (h : 0 < year) :
    daysBeforeYear (year + 1) = daysBeforeYear year + daysInYear year := by
  obtain ⟨y, rfl⟩ : ∃ y, year = y + 1 := ⟨year - 1, by omega⟩
  have hcenturies : y / 100 ≤ y / 4 := by omega
  have hcentury : (y + 1) % 100 = 0 → (y + 1) % 4 = 0 := by omega
  have hfourth : (y + 1) % 400 = 0 → (y + 1) % 100 = 0 := by omega
  simp only [daysBeforeYear, daysInYear, isLeap_iff, Nat.add_sub_cancel, succ_div_eq]
  generalize (y + 1) % 4 = r₄, (y + 1) % 100 = r₁₀₀, (y + 1) % 400 = r₄₀₀, y / 4 = leaps,
    y / 100 = centuries at *
  repeat' split
  all_goals omega

/-- No year begins before the end of one before it. -/
theorem daysBeforeYear_add_le {y z : Nat} (hy : 0 < y) (h : y < z) :
    daysBeforeYear y + daysInYear y ≤ daysBeforeYear z := by
  induction h with
  | refl => exact Nat.le_of_eq (daysBeforeYear_succ hy).symm
  | step h ih =>
    rw [daysBeforeYear_succ (Nat.zero_lt_of_lt h)]
    exact Nat.le_add_right_of_le ih

private theorem daysBeforeYear_le_number (d : Date) : daysBeforeYear d.year ≤ d.number := by
  rw [Date.number, Nat.add_assoc]
  exact Nat.le_add_right _ _

/-- No month begins before the end of one before it. -/
theorem daysBeforeMonth_add_le (year : Nat) {m n : Nat} (hm : 0 < m) (h : m < n) :
    daysBeforeMonth year m + daysInMonth year m ≤ daysBeforeMonth year n := by
  induction h with
  | refl => exact Nat.le_of_eq (daysBeforeMonth_succ year hm).symm
  | step h ih =>
    rw [daysBeforeMonth_succ year (Nat.zero_lt_of_lt h)]
    exact Nat.le_add_right_of_le ih

/-- A day lies in its year. -/
private theorem Date.Valid.number_lt {d : Date} (h : d.Valid) :
    d.number < daysBeforeYear d.year + daysInYear d.year := by
  obtain ⟨-, -, hlow, hhigh, hday, hlast⟩ := h
  have hmonth := daysBeforeMonth_add_le d.year hlow (Nat.lt_succ_of_le hhigh)
  rw [daysBeforeMonth_end] at hmonth
  rw [Date.number]
  omega

/-- A day is of an earlier year than another, or of an earlier month in its year, or earlier in its
month. -/
def Date.Before (d e : Date) : Prop :=
  d.year < e.year ∨ d.year = e.year ∧ (d.month < e.month ∨ d.month = e.month ∧ d.day < e.day)

/-- A day before another has the smaller number. -/
theorem Date.Valid.number_lt_of_before {d e : Date} (hd : d.Valid) (h : d.Before e) :
    d.number < e.number := by
  rcases h with hyear | ⟨hyear, hmonth | ⟨hmonth, hday⟩⟩
  · have hnext := daysBeforeYear_add_le hd.1 hyear
    have hfirst := daysBeforeYear_le_number e
    have hin := hd.number_lt
    omega
  · obtain ⟨-, -, hlow, -, hday, hlast⟩ := hd
    have hnext := daysBeforeMonth_add_le d.year hlow hmonth
    rw [Date.number, Date.number, ← hyear]
    omega
  · have hpos : 1 ≤ d.day := hd.2.2.2.2.1
    rw [Date.number, Date.number, ← hyear, ← hmonth]
    omega

/-- The year of a day is told by its number. -/
theorem le_year_ofNumber_iff {year : Nat} (h : 0 < year) (n : Nat) :
    year ≤ (Date.ofNumber n).year ↔ daysBeforeYear year ≤ n := by
  obtain ⟨y, hy⟩ : ∃ y, (Date.ofNumber n).year = y := ⟨_, rfl⟩
  obtain ⟨rest, hrest⟩ : ∃ rest, (yearOfDay n).2 = rest := ⟨_, rfl⟩
  have hspec := yearOfDay_spec n
  rw [show (yearOfDay n).1 = y from hy, hrest] at hspec
  have hpos : 0 < y := hy ▸ Nat.succ_pos _
  rw [hy]
  constructor
  · intro hle
    rcases Nat.eq_or_lt_of_le hle with rfl | hlt
    · omega
    · have hbefore := daysBeforeYear_add_le h hlt
      omega
  · intro hle
    refine Nat.le_of_not_lt fun hlt => ?_
    have hbefore := daysBeforeYear_add_le hpos hlt
    omega

end CostCatalog.Calendar
