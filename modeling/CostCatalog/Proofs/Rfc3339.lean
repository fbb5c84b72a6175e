import CostCatalog.Proofs.Timestamp
import CostCatalog.Timestamp.Rfc3339

/-!
# Timestamps on the wire, read back

In the years that are written with four digits the wire text of a reading is what its date and its
time of day are written as everywhere, with the letter for UTC behind them (`rfc3339Chars_eq`). So
it is read back, as the start of the second it was made in (`ofIso_rfc3339`), and as all its fields
have fixed widths and stand in the order of their size, texts are in the order of what they spell
(`wall_lt_of_rfc3339`).

The years are those of UTC, and they are told by the instant alone: `WithinYears` says nothing of
the clock that a reading was taken from, nor that it has a wire text.
-/

namespace CostCatalog.Timestamp

open Calendar (daysBeforeYear)

/-! ## Years of UTC -/

/-- The instant of a reading lies in the years of UTC from `first` to `last`. -/
def WithinYears (first last : Nat) (t : Timestamp) : Prop :=
  (daysBeforeYear first * microsPerDay : Nat) ≤ t.instant ∧
    t.instant < (daysBeforeYear (last + 1) * microsPerDay : Nat)

instance (first last : Nat) (t : Timestamp) : Decidable (t.WithinYears first last) :=
  inferInstanceAs (Decidable (_ ∧ _))

theorem le_year_date_iff {year : Nat} (h : 0 < year) (t : Timestamp) :
    year ≤ t.date.year ↔ daysBeforeYear year * microsPerDay ≤ t.wall := by
  rw [date, Calendar.le_year_ofNumber_iff h, Nat.le_div_iff_mul_le (by decide)]

theorem instant_of_utc {t : Timestamp} (h : t.offset = some 0) : t.instant = t.wall := by
  rw [instant, h]
  exact Int.sub_zero _

/-- What is read off a clock of UTC is the same instant. -/
theorem toUtc?_eq_some_iff {t u : Timestamp} :
    t.toUtc? = some u ↔ u.offset = some 0 ∧ (u.wall : Int) = t.instant := by
  unfold toUtc? ofWall?
  constructor
  · intro h
    split at h
    · next hwithin =>
      cases h
      exact ⟨rfl, Int.toNat_of_nonneg hwithin.1⟩
    · cases h
  · rintro ⟨hutc, hwall⟩
    obtain ⟨wall, offset, hlt, hoffset⟩ := u
    obtain rfl : offset = some 0 := hutc
    have hnat : t.instant.toNat = wall := by rw [← hwall]; rfl
    rw [dif_pos ⟨hwall ▸ Int.natCast_nonneg _, hnat.symm ▸ hlt⟩]
    simp only [hnat]
    rfl

/-- The years are those that a clock of UTC shows. -/
private theorem withinYears_iff {first last : Nat} (hfirst : 0 < first) (hlast : last ≤ 9999)
    (t : Timestamp) :
    t.WithinYears first last ↔
      ∃ u, t.toUtc? = some u ∧ first ≤ u.date.year ∧ u.date.year ≤ last := by
  have hend : daysBeforeYear (last + 1) ≤ Calendar.dayCount := by
    simp only [daysBeforeYear, Calendar.dayCount]
    omega
  have hshows {u : Timestamp} (hu : (u.wall : Int) = t.instant) :
      t.WithinYears first last ↔ first ≤ u.date.year ∧ u.date.year ≤ last := by
    rw [← Nat.not_lt (a := last), ← Nat.succ_le_iff, le_year_date_iff hfirst,
      le_year_date_iff (Nat.succ_pos last), WithinYears, ← hu, Int.ofNat_le, Int.ofNat_lt,
      Nat.not_le]
  constructor
  · intro h
    obtain ⟨n, hn⟩ := Int.eq_ofNat_of_zero_le (Int.le_trans (Int.natCast_nonneg _) h.1)
    have hlt : n < wallLimit :=
      Nat.lt_of_lt_of_le (Int.ofNat_lt.mp (hn ▸ h.2)) (Nat.mul_le_mul_right _ hend)
    exact ⟨⟨n, some 0, hlt, epoch.offset_lt⟩, toUtc?_eq_some_iff.mpr ⟨rfl, hn.symm⟩,
      (hshows hn.symm).mp h⟩
  · rintro ⟨u, hu, hyears⟩
    exact (hshows (toUtc?_eq_some_iff.mp hu).2).mpr hyears

/-! ## The second of a reading -/

/-- The start of the second that a reading was made in. -/
def toSecond (t : Timestamp) : Timestamp where
  wall := t.wall / 1000000 * 1000000
  offset := t.offset
  wall_lt := Nat.lt_of_le_of_lt (Nat.div_mul_le_self _ _) t.wall_lt
  offset_lt := t.offset_lt

theorem date_toSecond (t : Timestamp) : t.toSecond.date = t.date := by
  have hday : t.wall / 1000000 * 1000000 / microsPerDay = t.wall / microsPerDay := by
    simp only [microsPerDay]
    omega
  rw [date, toSecond, hday, date]

theorem hour_toSecond (t : Timestamp) : t.toSecond.hour = t.hour := by
  simp only [hour, toSecond, microsPerDay]
  omega

theorem minute_toSecond (t : Timestamp) : t.toSecond.minute = t.minute := by
  simp only [minute, toSecond]
  omega

theorem second_toSecond (t : Timestamp) : t.toSecond.second = t.second := by
  simp only [second, toSecond]
  omega

private theorem microsecond_toSecond (t : Timestamp) : t.toSecond.microsecond = 0 :=
  Nat.mul_mod_left _ _

/-- The wire text leaves out what the second of a reading leaves out. -/
theorem rfc3339Chars_toSecond (t : Timestamp) : t.toSecond.rfc3339Chars = t.rfc3339Chars := by
  simp only [rfc3339Chars, date_toSecond, hour_toSecond, minute_toSecond, second_toSecond]

/-! ## Reading back -/

/-- A number without filling zeros is one filled to its own length. -/
private theorem toDigits_eq_padded {width n : Nat} (hlow : 10 ^ width ≤ n)
    (hhigh : n < 10 ^ (width + 1)) : Nat.toDigits 10 n = padded (width + 1) n := by
  induction width generalizing n with
  | zero =>
    have hdigit : n < 10 := hhigh
    rw [Nat.toDigits_of_lt_base hdigit, padded, Nat.mod_eq_of_lt hdigit]
    rfl
  | succ width ih =>
    rw [Nat.pow_succ] at hlow hhigh
    have hbase : 10 ≤ n := Nat.le_trans (Nat.le_mul_of_pos_left _ (Nat.pow_pos (by decide))) hlow
    rw [Nat.toDigits_of_base_le (by decide) hbase,
      ih ((Nat.le_div_iff_mul_le (by decide)).mpr hlow) ((Nat.div_lt_iff_lt_mul (by decide)).mpr hhigh)]
    rfl

/-- A wire text with four digits of year is the text of the date and of the time of day. -/
theorem rfc3339Chars_eq {t : Timestamp} (h : 1000 ≤ t.date.year) :
    t.rfc3339Chars =
      dateChars t.date ++ 'T' :: (clockChars t.hour t.minute t.second ++ ['Z']) := by
  have hyear : Nat.toDigits 10 t.date.year = padded 4 t.date.year :=
    toDigits_eq_padded h (Nat.lt_succ_of_le t.date_valid.2.1)
  simp only [rfc3339Chars, hyear, dateChars, List.append_assoc, List.cons_append]

private theorem length_rfc3339Chars {t : Timestamp} (h : 1000 ≤ t.date.year) :
    t.rfc3339Chars.length = 20 := by
  rw [rfc3339Chars_eq h]
  simp only [dateChars, clockChars, List.length_append, List.length_cons, length_padded,
    List.length_nil]

/-- The wire text of a reading of UTC spells its date and its time of day. -/
private theorem scanAll_rfc3339Chars {t : Timestamp} (h : 1000 ≤ t.date.year) :
    scanAll t.rfc3339Chars = some (t.date, ⟨t.hour, t.minute, t.second, 0⟩, some (0, 0)) := by
  have htime := scanTime_utc (Nat.lt_of_le_of_lt t.hour_le (by decide))
    (Nat.lt_of_le_of_lt t.minute_le (by decide)) (Nat.lt_of_le_of_lt t.second_le (by decide))
  rw [rfc3339Chars_eq h]
  exact scanAll_dateChars t.date_valid htime

/-- The wire text of a reading of UTC is read as its second. -/
theorem ofIso_rfc3339 {t : Timestamp} (hutc : t.offset = some 0) (h : 1000 ≤ t.date.year) :
    ofIso (String.ofList t.rfc3339Chars) = .ok t.toSecond := by
  have hself := ofFields_self t.toSecond
  rw [date_toSecond, hour_toSecond, minute_toSecond, second_toSecond, microsecond_toSecond,
    show t.toSecond.offset = some 0 from hutc] at hself
  rw [ofIso, String.toList_ofList, scanAll_rfc3339Chars h]
  exact hself

/-! ## The order of texts -/

private theorem digitChar_lt_iff :
    ∀ m < 10, ∀ n < 10, (Nat.digitChar m < Nat.digitChar n ↔ m < n) := by
  decide

private theorem digitChar_eq_iff :
    ∀ m < 10, ∀ n < 10, (Nat.digitChar m = Nat.digitChar n ↔ m = n) := by
  decide

/-- Texts that start with digits of one width are in the order of the numbers, then in that of what
follows. -/
theorem padded_append_lt_iff {width m n : Nat} {x y : List Char} (hm : m < 10 ^ width)
    (hn : n < 10 ^ width) :
    padded width m ++ x < padded width n ++ y ↔ m < n ∨ m = n ∧ x < y := by
  induction width generalizing m n x y with
  | zero =>
    have hm : m = 0 := Nat.lt_one_iff.mp hm
    have hn : n = 0 := Nat.lt_one_iff.mp hn
    simp only [padded, List.nil_append, hm, hn, Nat.lt_irrefl, false_or, true_and]
  | succ width ih =>
    rw [Nat.pow_succ] at hm hn
    have hm' : m / 10 < 10 ^ width := (Nat.div_lt_iff_lt_mul (by decide)).mpr hm
    have hn' : n / 10 < 10 ^ width := (Nat.div_lt_iff_lt_mul (by decide)).mpr hn
    have hdigit : m % 10 < 10 := Nat.mod_lt m (by decide)
    have hdigit' : n % 10 < 10 := Nat.mod_lt n (by decide)
    have hlt : m < n ↔ m / 10 < n / 10 ∨ m / 10 = n / 10 ∧ m % 10 < n % 10 := by omega
    have heq : m = n ↔ m / 10 = n / 10 ∧ m % 10 = n % 10 := by omega
    simp only [padded, List.append_assoc, List.cons_append, List.nil_append, ih hm' hn',
      List.cons_lt_cons_iff, digitChar_lt_iff _ hdigit _ hdigit', digitChar_eq_iff _ hdigit _ hdigit',
      hlt, heq, and_or_left, or_assoc, and_assoc]

/-- A reading is before another of a later day, or of a later second of its day. -/
private theorem wall_lt_of_fields {a b : Timestamp}
    (h : a.date.Before b.date ∨ a.date = b.date ∧
      (a.hour < b.hour ∨ a.hour = b.hour ∧
        (a.minute < b.minute ∨ a.minute = b.minute ∧ a.second < b.second))) :
    a.wall < b.wall := by
  have hwall := a.wall_eq_fields
  have hwall' := b.wall_eq_fields
  have hh := a.hour_le
  have hm := a.minute_le
  have hs := a.second_le
  have hmicro := a.microsecond_lt
  simp only [microsPerDay] at hwall hwall'
  rcases h with hbefore | ⟨hsame, hclock⟩
  · have hnumber := a.date_valid.number_lt_of_before hbefore
    omega
  · rw [hsame] at hwall
    omega

/-- Of two wire texts with four digits of year the smaller one is that of the earlier reading. -/
private theorem wall_lt_of_rfc3339 {a b : Timestamp} (ha : 1000 ≤ a.date.year)
    (hb : 1000 ≤ b.date.year) (h : a.rfc3339Chars < b.rfc3339Chars) : a.wall < b.wall := by
  have hbounds (t : Timestamp) : t.date.year < 10 ^ 4 ∧ t.date.month < 10 ^ 2 ∧
      t.date.day < 10 ^ 2 ∧ t.hour < 10 ^ 2 ∧ t.minute < 10 ^ 2 ∧ t.second < 10 ^ 2 := by
    have hday := t.date_valid.day_le
    obtain ⟨-, hyear, -, hmonth, -, -⟩ := t.date_valid
    have hh := t.hour_le
    have hm := t.minute_le
    have hs := t.second_le
    omega
  obtain ⟨hay, ham, had, hah, hami, has⟩ := hbounds a
  obtain ⟨hby, hbm, hbd, hbh, hbmi, hbs⟩ := hbounds b
  rw [rfc3339Chars_eq ha, rfc3339Chars_eq hb] at h
  simp only [dateChars, clockChars, List.append_assoc, List.cons_append,
    padded_append_lt_iff hay hby, padded_append_lt_iff ham hbm, padded_append_lt_iff had hbd,
    padded_append_lt_iff hah hbh, padded_append_lt_iff hami hbmi, padded_append_lt_iff has hbs,
    List.cons_lt_cons_self, List.lt_irrefl, and_false, or_false] at h
  apply wall_lt_of_fields
  rcases h with hyear | ⟨hyear, hmonth | ⟨hmonth, hday | ⟨hday, hclock⟩⟩⟩
  · exact Or.inl (Or.inl hyear)
  · exact Or.inl (Or.inr ⟨hyear, Or.inl hmonth⟩)
  · exact Or.inl (Or.inr ⟨hyear, Or.inr ⟨hmonth, hday⟩⟩)
  · have hdate : a.date = b.date := by
      cases hda : a.date
      cases hdb : b.date
      simp_all only
    exact Or.inr ⟨hdate, hclock⟩

/-! ## Faithfulness -/

/-- A text has twenty characters and is read, in UTC, as the second of the instant of a reading. -/
def SpelledBy (t : Timestamp) (s : String) : Prop :=
  s.length = 20 ∧
    ∃ u, ofIso s = .ok u ∧ u.offset = some 0 ∧ u.instant = t.instant / 1000000 * 1000000

/-- The wire text of a reading is that of what UTC shows. -/
theorem toRfc3339?_of_withinYears {t : Timestamp} (h : t.WithinYears 1000 9999) :
    ∃ u : Timestamp, t.toRfc3339? = some (String.ofList u.rfc3339Chars) ∧ u.offset = some 0 ∧
      (u.wall : Int) = t.instant ∧ 1000 ≤ u.date.year := by
  obtain ⟨u, hu, hyear, -⟩ := (withinYears_iff (by decide) (by decide) t).mp h
  obtain ⟨hutc, hwall⟩ := toUtc?_eq_some_iff.mp hu
  exact ⟨u, congrArg (Option.map _) hu, hutc, hwall, hyear⟩

theorem spelledBy_of_utc {t u : Timestamp} (hutc : u.offset = some 0)
    (hwall : (u.wall : Int) = t.instant) (hyear : 1000 ≤ u.date.year) :
    t.SpelledBy (String.ofList u.rfc3339Chars) := by
  refine ⟨?_, u.toSecond, ofIso_rfc3339 hutc hyear, hutc, ?_⟩
  · rw [String.length_ofList, length_rfc3339Chars hyear]
  · rw [instant_of_utc (t := u.toSecond) hutc, ← hwall]
    rfl

/-- Two readings of UTC have the same wire text when they are of one second. -/
private theorem rfc3339Chars_inj {a b : Timestamp} (ha : a.offset = some 0) (hb : b.offset = some 0)
    (hya : 1000 ≤ a.date.year) (hyb : 1000 ≤ b.date.year) :
    String.ofList a.rfc3339Chars = String.ofList b.rfc3339Chars ↔
      a.wall / 1000000 = b.wall / 1000000 := by
  constructor
  · intro h
    have hread := ofIso_rfc3339 ha hya
    rw [h, ofIso_rfc3339 hb hyb] at hread
    have hwall : b.wall / 1000000 * 1000000 = a.wall / 1000000 * 1000000 :=
      congrArg wall (Except.ok.inj hread)
    omega
  · intro h
    have hsecond : a.toSecond = b.toSecond := by
      simp only [toSecond, h, ha, hb]
    rw [← rfc3339Chars_toSecond a, hsecond, rfc3339Chars_toSecond]

/-- The wire texts of readings in the years from 1000 to 9999, taken off any clock, spell the second
of their instants; they are the same exactly for one second, and in the order of the instants. -/
theorem rfc3339_faithful {a b : Timestamp} (ha : a.WithinYears 1000 9999)
    (hb : b.WithinYears 1000 9999) :
    ∃ s s', a.toRfc3339? = some s ∧ b.toRfc3339? = some s' ∧ a.SpelledBy s ∧ b.SpelledBy s' ∧
      (s = s' ↔ a.instant / 1000000 = b.instant / 1000000) ∧
      (a.instant ≤ b.instant → s ≤ s') := by
  obtain ⟨u, hu, hutc, hwall, hyear⟩ := toRfc3339?_of_withinYears ha
  obtain ⟨v, hv, hutc', hwall', hyear'⟩ := toRfc3339?_of_withinYears hb
  refine ⟨_, _, hu, hv, spelledBy_of_utc hutc hwall hyear, spelledBy_of_utc hutc' hwall' hyear',
    ?_, fun hle => String.not_lt.mp fun hlt => ?_⟩
  · rw [rfc3339Chars_inj hutc hutc' hyear hyear', ← hwall, ← hwall']
    omega
  · rw [String.lt_iff, String.toList_ofList, String.toList_ofList] at hlt
    have hearlier := wall_lt_of_rfc3339 hyear' hyear hlt
    omega

/-- The last microsecond of a leap day of UTC, on a clock half an hour and sixteen seconds ahead. -/
def endOfLeapDay : Timestamp :=
  ⟨63844849815999999, some 1816000000, by decide, by intro o h; cases h; decide⟩

/-- The first of March after it, on a clock of no known offset. -/
def afterLeapDay : Timestamp := ⟨63844848000000000, none, by decide, by intro o h; cases h⟩

/-- One microsecond lies between the two, and so do a second, a day and a month of their texts. -/
theorem rfc3339_faithful_leapDay :
    endOfLeapDay.toRfc3339? = some "2024-02-29T23:59:59Z" ∧
      afterLeapDay.toRfc3339? = some "2024-03-01T00:00:00Z" ∧
      endOfLeapDay.SpelledBy "2024-02-29T23:59:59Z" ∧ afterLeapDay.SpelledBy "2024-03-01T00:00:00Z" ∧
      "2024-02-29T23:59:59Z" ≤ "2024-03-01T00:00:00Z" := by
  have htext : endOfLeapDay.toRfc3339? = some "2024-02-29T23:59:59Z" := by decide +kernel
  have htext' : afterLeapDay.toRfc3339? = some "2024-03-01T00:00:00Z" := by decide +kernel
  obtain ⟨s, s', hs, hs', hspelled, hspelled', -, hle⟩ :=
    rfc3339_faithful (a := endOfLeapDay) (b := afterLeapDay) (by decide) (by decide)
  obtain rfl := Option.some.inj (hs.symm.trans htext)
  obtain rfl := Option.some.inj (hs'.symm.trans htext')
  exact ⟨htext, htext', hspelled, hspelled', hle (by decide)⟩

end CostCatalog.Timestamp
