import CostCatalog.Proofs.Calendar
import CostCatalog.Timestamp.Iso
import Mathlib.Algebra.Ring.Nat

/-!
# Timestamps read back

The canonical text of a reading is read as that reading, `ofIso_toIso`, with one exception: an
offset that is not zero but less than a second is written out and then taken for UTC, `reread`. No
text is read as a reading with such an offset, `readableOffset_of_ofIso`. The text is taken apart as
it was put together: digits of a fixed width, the date, a time of day (the time itself, or the size
of an offset), and the sign between them.
-/

namespace CostCatalog.Timestamp

/-! ## Digits of a fixed width -/

private theorem digit?_digitChar : ∀ n < 10, digit? (Nat.digitChar n) = some n := by decide

theorem isDigit_digitChar : ∀ n < 10, (Nat.digitChar n).isDigit = true := by decide

theorem length_padded (width n : Nat) : (padded width n).length = width := by
  induction width generalizing n with
  | zero => rfl
  | succ width ih => rw [padded, List.length_append, ih]; rfl

theorem isDigit_of_mem_padded {width n : Nat} {c : Char} (h : c ∈ padded width n) :
    c.isDigit = true := by
  induction width generalizing n with
  | zero => cases h
  | succ width ih =>
    rcases List.mem_append.mp h with h | h
    · exact ih h
    · rw [List.mem_singleton.mp h]
      exact isDigit_digitChar _ (Nat.mod_lt n (by decide))

private theorem scanNumber_succ (width n : Nat) (cs : List Char) :
    scanNumber (width + 1) n cs = (scanNumber width n cs).bind fun found =>
      scanNumber 1 found.1 found.2 := by
  induction width generalizing n cs with
  | zero => rfl
  | succ width ih =>
    cases cs with
    | nil => rfl
    | cons c cs =>
      rw [scanNumber]
      cases h : digit? c with
      | none => simp [scanNumber, h]
      | some d => simp [scanNumber, h, ih]

/-- Digits of a fixed width are read as what they were cut from, without what does not fit. -/
theorem scanNumber_padded (width n m : Nat) (rest : List Char) :
    scanNumber width n (padded width m ++ rest) = some (n * 10 ^ width + m % 10 ^ width, rest) := by
  induction width generalizing m rest with
  | zero => simp [scanNumber, padded, Nat.mod_one]
  | succ width ih =>
    have hdigit := digit?_digitChar (m % 10) (Nat.mod_lt m (by decide))
    have hvalue : 10 * (n * 10 ^ width + m / 10 % 10 ^ width) + m % 10 =
        n * 10 ^ (width + 1) + m % 10 ^ (width + 1) := by
      rw [Nat.pow_succ', Nat.mod_mul, Nat.mul_add, Nat.add_assoc, Nat.mul_left_comm]
      omega
    rw [padded, List.append_assoc, scanNumber_succ, ih]
    simp only [Option.bind_some, List.cons_append, List.nil_append, scanNumber, hdigit]
    exact congrArg (fun v => some (v, rest)) hvalue

theorem scanTwo_padded {n : Nat} (h : n < 100) (rest : List Char) :
    scanTwo (padded 2 n ++ rest) = some (n, rest) := by
  have hlt : n < 10 ^ 2 := by omega
  rw [scanTwo, scanNumber_padded, Nat.zero_mul, Nat.zero_add, Nat.mod_eq_of_lt hlt]

/-- A digit is no other character. -/
theorem digitChar_ne {n : Nat} {c : Char} (hc : c.isDigit = false) :
    Nat.digitChar (n % 10) ≠ c := fun h => by
  have hdigit := isDigit_digitChar (n % 10) (Nat.mod_lt n (by decide))
  rw [h, hc] at hdigit
  cases hdigit

/-! ## The date -/

private theorem dateLength_dateChars (d : Calendar.Date) {rest : List Char} (hrest : rest ≠ []) :
    dateLength (dateChars d ++ rest) = some 10 := by
  have hlength : (dateChars d ++ rest).length = 10 + rest.length := by
    simp only [dateChars, List.length_append, List.length_cons, length_padded]
  have hpos : 0 < rest.length := List.length_pos_iff.mpr hrest
  have hhyphen : (dateChars d ++ rest)[4]? = some '-' := rfl
  have hdigit : (dateChars d ++ rest)[5]? = some (Nat.digitChar (d.month / 10 % 10)) := rfl
  have hweek : Nat.digitChar (d.month / 10 % 10) ≠ 'W' := digitChar_ne rfl
  simp only [dateLength, hlength, hhyphen, hdigit, Option.getD_some, if_true, hweek, if_false]
  rw [if_neg (by omega)]

private theorem scanDate_dateChars {d : Calendar.Date} (hd : d.Valid) (rest : List Char) :
    scanDate 10 (dateChars d ++ rest) = some d := by
  have hday : d.day < 100 := Nat.lt_of_le_of_lt hd.day_le (by decide)
  obtain ⟨-, hyear, -, hmonth, -, -⟩ := hd
  have hfirst : scanNumber 4 0 (dateChars d ++ rest) =
      some (d.year, '-' :: (padded 2 d.month ++ '-' :: (padded 2 d.day ++ rest))) := by
    simp only [dateChars, List.append_assoc, List.cons_append]
    rw [scanNumber_padded, Nat.zero_mul, Nat.zero_add, Nat.mod_eq_of_lt (by omega)]
  have hnext := scanTwo_padded (n := d.month) (by omega) ('-' :: (padded 2 d.day ++ rest))
  have hlength : (dateChars d ++ rest).length - rest.length = 10 := by
    simp only [dateChars, List.length_append, List.length_cons, length_padded]
    omega
  simp only [scanDate, hfirst, Option.bind_eq_bind, Option.bind_some, List.head?_cons, if_true,
    List.drop_succ_cons, List.drop_zero]
  split
  · next heq => exact absurd (List.cons.inj heq).1 (digitChar_ne rfl)
  · simp only [hnext, Option.bind_some, expect, if_true, scanTwo_padded hday, hlength]

/-! ## Times of day -/

/-- What follows a time of day: nothing, the sign of an offset, or the letter for that of UTC. -/
def EndsClock : List Char → Prop
  | [] => True
  | c :: _ => c = '+' ∨ c = '-' ∨ c = 'Z'

/-- How a time of day ends before what follows it. -/
def endingBefore : List Char → Ending
  | [] => .clean
  | _ :: _ => .trailing

private theorem scanFraction_padded {micro : Nat} (h : micro < 1000000) {rest : List Char}
    (hrest : EndsClock rest) :
    scanFraction 6 (padded 6 micro ++ rest) = some (micro, endingBefore rest) := by
  have hlt : micro < 10 ^ 6 := by omega
  have hread := scanNumber_padded 6 0 micro rest
  rw [Nat.zero_mul, Nat.zero_add, Nat.mod_eq_of_lt hlt] at hread
  rw [scanFraction, Nat.min_self, hread]
  cases rest with
  | nil => exact congrArg (fun n => some (n, Ending.clean)) (Nat.mul_one micro)
  | cons c cs =>
    rcases hrest with rfl | rfl | rfl <;>
      exact congrArg (fun n => some (n, Ending.trailing)) (Nat.mul_one micro)

section Fields

variable {index left fuel n : Nat} {f : ClockFields} {cs r : List Char}

/-- A field with a colon behind it. -/
private theorem scanFields_colon (h : scanTwo cs = some (n, ':' :: r)) (hleft : 3 < left) :
    scanFields index left true f cs (fuel + 1) =
      scanFields (index + 1) (left - 3) true (f.set index n) r fuel := by
  have hmore : ¬ left ≤ 3 := by omega
  simp only [scanFields, h, Option.bind_eq_bind, Option.bind_some, List.head?_cons,
    Option.getD_some, hmore, decide_false, Bool.false_and, Bool.false_eq_true, if_false, ite_self,
    decide_true, Bool.true_and, if_true, List.drop_succ_cons, List.drop_zero]

/-- The last field, when no fraction follows. -/
private theorem scanFields_last (h : scanTwo cs = some (n, r)) (hr : EndsClock r)
    (hleft : left ≤ 3) :
    scanFields index left true f cs (fuel + 1) = some (f.set index n, endingBefore r) := by
  rw [scanFields, h]
  cases r with
  | nil => simp [hleft, endingBefore]
  | cons c cs => rcases hr with rfl | rfl | rfl <;> simp [hleft, endingBefore]

/-- The last field, when a fraction follows. -/
private theorem scanFields_point (h : scanTwo cs = some (n, '.' :: r)) (hleft : 3 < left)
    (hindex : 0 < index) :
    scanFields index left true f cs (fuel + 1) =
      (scanFraction (left - 3) r).map fun found =>
        ({ f.set index n with micro := found.1 }, found.2) := by
  have hmore : ¬ left ≤ 3 := by omega
  have hlater : index ≠ 0 := Nat.ne_of_gt hindex
  have hcolon : ¬ '.' = ':' := by decide
  simp only [scanFields, h, Option.bind_eq_bind, Option.bind_some, List.head?_cons,
    Option.getD_some, hmore, decide_false, Bool.false_and, Bool.false_eq_true, if_false, hlater,
    hcolon, Bool.and_false, decide_true, Bool.true_or, if_true, List.drop_succ_cons, List.drop_zero]
  cases scanFraction (left - 3) r <;> rfl

end Fields

private theorem scanClock_short {hour minute : Nat} (hh : hour < 100) (hm : minute < 100) :
    scanClock 5 (padded 2 hour ++ ':' :: padded 2 minute) =
      some (⟨hour, minute, 0, 0⟩, .clean) := by
  have hlast := scanTwo_padded hm []
  rw [List.append_nil] at hlast
  rw [scanClock, scanFields_colon (scanTwo_padded hh _) (by decide),
    scanFields_last hlast trivial (by decide)]
  rfl

theorem scanClock_clockChars {hour minute second micro : Nat} (hh : hour < 100)
    (hm : minute < 100) (hs : second < 100) (hmicro : micro < 1000000) {rest : List Char}
    (hrest : EndsClock rest) :
    scanClock (clockChars hour minute second ++ fractionChars micro).length
        (clockChars hour minute second ++ fractionChars micro ++ rest) =
      some (⟨hour, minute, second, micro⟩, endingBefore rest) := by
  have hlength : (clockChars hour minute second ++ fractionChars micro).length =
      8 + (fractionChars micro).length := by
    simp only [clockChars, List.length_append, List.length_cons, length_padded]
  have htext : clockChars hour minute second ++ fractionChars micro ++ rest =
      padded 2 hour ++ ':' :: (padded 2 minute ++ ':' ::
        (padded 2 second ++ (fractionChars micro ++ rest))) := by
    simp only [clockChars, List.append_assoc, List.cons_append]
  rw [hlength, htext, scanClock, scanFields_colon (scanTwo_padded hh _) (by omega),
    scanFields_colon (scanTwo_padded hm _) (by omega)]
  unfold fractionChars
  split
  · next hzero =>
    rw [List.nil_append, scanFields_last (scanTwo_padded hs rest) hrest (by decide), hzero]
    rfl
  · next hsome =>
    rw [List.cons_append, List.length_cons, length_padded,
      scanFields_point (scanTwo_padded hs _) (by decide) (by decide),
      scanFraction_padded hmicro hrest]
    rfl

/-! ## Offsets -/

/-- The offsets that are read as they were written: none, zero, and those of a second or more. -/
def ReadableOffset (t : Timestamp) : Prop := ∀ o ∈ t.offset, o = 0 ∨ 1000000 ≤ o.natAbs

/-- The seconds and the microseconds of an offset, each with its sign. -/
def writtenOffset (o : Int) : WrittenOffset :=
  let k : Int := if o < 0 then -1 else 1
  (k * (o.natAbs / 1000000 : Nat), k * (o.natAbs % 1000000 : Nat))

/-- The offset that a written one is read as: one of less than a second is taken for that of UTC. -/
def readOffset (o : Int) : Int := if o.natAbs < 1000000 then 0 else o

private theorem natAbs_readOffset_le (o : Int) : (readOffset o).natAbs ≤ o.natAbs := by
  unfold readOffset
  split
  · exact Nat.zero_le _
  · exact Nat.le_refl _

private theorem readOffset_eq_self_iff (o : Int) : readOffset o = o ↔ o = 0 ∨ 1000000 ≤ o.natAbs := by
  unfold readOffset
  split <;> omega

private theorem checkOffset_writtenOffset {o : Int} (hlt : o.natAbs < microsPerDay) :
    checkOffset (some (writtenOffset o)) = .ok (some (readOffset o)) := by
  have hsum : (writtenOffset o).1 * 1000000 + (writtenOffset o).2 = o := by
    unfold writtenOffset
    split <;> simp only <;> omega
  have hzero : (writtenOffset o).1 = 0 ↔ o.natAbs < 1000000 := by
    unfold writtenOffset
    split <;> simp only <;> omega
  simp only [checkOffset, hzero, hsum, hlt, if_true, readOffset]
  split <;> rfl

/-- The size of an offset is read like a time of day. -/
private theorem scanClock_offset {o : Int} (hlt : o.natAbs < microsPerDay) :
    ∃ f body, offsetChars o = (if o < 0 then '-' else '+') :: body ∧
      scanClock body.length body = some (f, .clean) ∧
      f.hour * 3600 + f.minute * 60 + f.second = o.natAbs / 1000000 ∧
      f.micro = o.natAbs % 1000000 := by
  unfold microsPerDay at hlt
  obtain ⟨seconds, hseconds⟩ : ∃ n, o.natAbs / 1000000 = n := ⟨_, rfl⟩
  obtain ⟨micros, hmicros⟩ : ∃ n, o.natAbs % 1000000 = n := ⟨_, rfl⟩
  have hh : seconds / 3600 < 100 := by omega
  have hm : seconds / 60 % 60 < 100 := by omega
  have hs : seconds % 60 < 100 := by omega
  have hmicro : micros < 1000000 := by omega
  by_cases hshort : seconds % 60 = 0 ∧ micros = 0
  · have hread := scanClock_short hh hm
    refine ⟨_, _, ?_, hread, ?_, ?_⟩
    · simp only [offsetChars, hseconds, hmicros, hshort, and_self, if_true, fractionChars,
        List.append_nil]
    · simp only
      omega
    · exact (hmicros.trans hshort.2).symm
  · have hend : EndsClock [] := trivial
    have hread := scanClock_clockChars hh hm hs hmicro hend
    rw [List.append_nil] at hread
    refine ⟨_, _, ?_, hread, ?_, hmicros.symm⟩
    · simp only [offsetChars, hseconds, hmicros, hshort, if_false, clockChars, List.append_assoc,
        List.cons_append]
    · simp only
      omega

/-! ## The time and its offset -/

/-- A time of day holds nothing that starts an offset. -/
theorem startsOffset_clock {hour minute second micro : Nat} {c : Char}
    (h : c ∈ clockChars hour minute second ++ fractionChars micro) : startsOffset c = false := by
  have hdigit (h : c.isDigit = true) : startsOffset c = false := by
    have hother {d : Char} (hd : d.isDigit = false) : decide (c = d) = false :=
      decide_eq_false fun hc => by rw [← hc, h] at hd; cases hd
    rw [startsOffset, hother rfl, hother rfl, hother rfl]
    rfl
  simp only [clockChars, List.mem_append, List.mem_cons] at h
  rcases h with (h | rfl | h | rfl | h) | h
  · exact hdigit (isDigit_of_mem_padded h)
  · rfl
  · exact hdigit (isDigit_of_mem_padded h)
  · rfl
  · exact hdigit (isDigit_of_mem_padded h)
  · unfold fractionChars at h
    split at h
    · cases h
    · rcases List.mem_cons.mp h with rfl | h
      · rfl
      · exact hdigit (isDigit_of_mem_padded h)

/-- A time of day with nothing behind it. -/
private theorem scanTime_bare {clock : List Char} {f : ClockFields}
    (hplain : ∀ c ∈ clock, (!startsOffset c) = true)
    (hread : scanClock clock.length clock = some (f, .clean)) : scanTime clock = some (f, none) := by
  have htake : clock.takeWhile (fun c => !startsOffset c) = clock := by
    have happend : (clock ++ []).takeWhile (fun c => !startsOffset c) = clock ++ [] :=
      List.takeWhile_append_of_pos hplain
    rwa [List.append_nil] at happend
  have hdrop : clock.drop clock.length = [] := List.drop_length
  simp only [scanTime, htake, hread, hdrop, Option.bind_eq_bind, Option.bind_some]
  rfl

/-- A time of day with the letter for UTC behind it. -/
private theorem scanTime_letter {clock : List Char} {f : ClockFields} {e : Ending}
    (hplain : ∀ c ∈ clock, (!startsOffset c) = true)
    (hread : scanClock clock.length (clock ++ ['Z']) = some (f, e)) :
    scanTime (clock ++ ['Z']) = some (f, some (0, 0)) := by
  have htake : (clock ++ ['Z']).takeWhile (fun c => !startsOffset c) = clock := by
    rw [List.takeWhile_append_of_pos hplain]
    exact List.append_nil clock
  have hdrop : (clock ++ ['Z']).drop clock.length = ['Z'] := List.drop_left
  simp only [scanTime, htake, hread, hdrop, Option.bind_eq_bind, Option.bind_some]
  rfl

/-- A time of day with a signed offset behind it. -/
private theorem scanTime_signed {clock body : List Char} {f g : ClockFields} {e : Ending}
    (minus : Bool) (hplain : ∀ c ∈ clock, (!startsOffset c) = true)
    (hread : scanClock clock.length (clock ++ (if minus then '-' else '+') :: body) = some (f, e))
    (hbody : scanClock body.length body = some (g, .clean)) :
    scanTime (clock ++ (if minus then '-' else '+') :: body) =
      some (f, some
        ((if minus then (-1 : Int) else 1) * ((g.hour * 3600 + g.minute * 60 + g.second : Nat) : Int),
          (if minus then (-1 : Int) else 1) * (g.micro : Int))) := by
  have htake : (clock ++ (if minus then '-' else '+') :: body).takeWhile
      (fun c => !startsOffset c) = clock := by
    rw [List.takeWhile_append_of_pos hplain]
    cases minus <;> exact List.append_nil clock
  have hdrop : (clock ++ (if minus then '-' else '+') :: body).drop clock.length =
      (if minus then '-' else '+') :: body := List.drop_left
  simp only [scanTime, htake, hread, hdrop, Option.bind_eq_bind, Option.bind_some]
  cases minus <;> simp [hbody]

private theorem scanTime_iso {hour minute second micro : Nat} (hh : hour < 100) (hm : minute < 100)
    (hs : second < 100) (hmicro : micro < 1000000) {offset : Option Int}
    (hoffset : ∀ o ∈ offset, o.natAbs < microsPerDay) :
    scanTime (clockChars hour minute second ++ fractionChars micro ++
        (offset.map offsetChars).getD []) =
      some (⟨hour, minute, second, micro⟩, offset.map writtenOffset) := by
  obtain ⟨clock, hclock⟩ : ∃ clock, clockChars hour minute second ++ fractionChars micro = clock :=
    ⟨_, rfl⟩
  have hplain : ∀ c ∈ clock, (!startsOffset c) = true := fun c hc => by
    rw [startsOffset_clock (hclock ▸ hc)]
    rfl
  have hread {rest : List Char} (hrest : EndsClock rest) :
      scanClock clock.length (clock ++ rest) =
        some (⟨hour, minute, second, micro⟩, endingBefore rest) :=
    hclock ▸ scanClock_clockChars hh hm hs hmicro hrest
  rw [hclock]
  cases offset with
  | none =>
    have hend : EndsClock [] := trivial
    have hbare := hread hend
    rw [List.append_nil] at hbare
    rw [Option.map_none, Option.getD_none, List.append_nil]
    exact scanTime_bare hplain hbare
  | some o =>
    obtain ⟨g, body, hbody, hscan, hseconds, hmicros⟩ := scanClock_offset (hoffset o rfl)
    have hend : EndsClock ((if decide (o < 0) then '-' else '+') :: body) := by
      split
      · exact Or.inr (Or.inl rfl)
      · exact Or.inl rfl
    have hsigned := scanTime_signed (decide (o < 0)) hplain (hread hend) hscan
    rw [hseconds, hmicros] at hsigned
    simp only [decide_eq_true_eq] at hsigned
    rw [Option.map_some, Option.getD_some, hbody, hsigned]
    rfl

/-- A time of day with the letter for UTC behind it. -/
theorem scanTime_utc {hour minute second : Nat} (hh : hour < 100) (hm : minute < 100)
    (hs : second < 100) :
    scanTime (clockChars hour minute second ++ ['Z']) =
      some (⟨hour, minute, second, 0⟩, some (0, 0)) := by
  have hend : EndsClock ['Z'] := Or.inr (Or.inr rfl)
  have hmicro : 0 < 1000000 := by decide
  have hread := scanClock_clockChars hh hm hs hmicro hend
  have hnone : clockChars hour minute second ++ fractionChars 0 = clockChars hour minute second :=
    List.append_nil _
  rw [hnone] at hread
  refine scanTime_letter (fun c hc => ?_) hread
  rw [startsOffset_clock (hnone.symm ▸ hc)]
  rfl

/-! ## The fields of a reading -/

theorem date_valid (t : Timestamp) : t.date.Valid :=
  Calendar.ofNumber_valid (Nat.div_lt_of_lt_mul (Nat.mul_comm .. ▸ t.wall_lt))

theorem hour_le (t : Timestamp) : t.hour ≤ 23 := by
  simp only [hour, microsPerDay]
  omega

theorem minute_le (t : Timestamp) : t.minute ≤ 59 := by
  simp only [minute]
  omega

theorem second_le (t : Timestamp) : t.second ≤ 59 := by
  simp only [second]
  omega

theorem microsecond_lt (t : Timestamp) : t.microsecond < 1000000 := Nat.mod_lt _ (by decide)

/-- The wall time is that of its fields. -/
theorem wall_eq_fields (t : Timestamp) :
    t.date.number * microsPerDay + ((t.hour * 60 + t.minute) * 60 + t.second) * 1000000 +
      t.microsecond = t.wall := by
  simp only [date, Calendar.number_ofNumber, hour, minute, second, microsecond, microsPerDay]
  omega

/-! ## Readings -/

/-- Fields that are all in their ranges make a reading. -/
private theorem ofFields_valid {d : Calendar.Date} (hd : d.Valid) {f : ClockFields} (hh : f.hour ≤ 23)
    (hm : f.minute ≤ 59) (hs : f.second ≤ 59) {t : Timestamp}
    (hwall : d.number * microsPerDay +
      ((f.hour * 60 + f.minute) * 60 + f.second) * 1000000 + f.micro = t.wall) :
    ofFields d f t.offset = .ok t := by
  obtain ⟨hy₁, hy₂, hm₁, hm₂, hd₁, hd₂⟩ := hd
  have hneither {a b : Nat} {x : Nat} (ha : a ≤ x) (hb : x ≤ b) :
      ¬ (decide (x < a) || decide (b < x)) = true := by
    simp only [Bool.or_eq_true, decide_eq_true_eq]
    omega
  unfold ofFields
  rw [if_neg (hneither hy₁ hy₂), if_neg (hneither hm₁ hm₂), if_neg (hneither hd₁ hd₂),
    if_neg (Nat.not_lt.mpr hh), if_neg (Nat.not_lt.mpr hm), if_neg (Nat.not_lt.mpr hs)]
  simp only [hwall]
  exact dif_pos ⟨t.wall_lt, t.offset_lt⟩

/-- The fields of a reading make that reading. -/
theorem ofFields_self (t : Timestamp) :
    ofFields t.date ⟨t.hour, t.minute, t.second, t.microsecond⟩ t.offset = .ok t :=
  ofFields_valid t.date_valid t.hour_le t.minute_le t.second_le t.wall_eq_fields

/-- A date with a time behind it is read as both. -/
theorem scanAll_dateChars {d : Calendar.Date} (hd : d.Valid) {rest : List Char} {f : ClockFields}
    {w : Option WrittenOffset} (htime : scanTime rest = some (f, w)) :
    scanAll (dateChars d ++ 'T' :: rest) = some (d, f, w) := by
  have hlength := dateLength_dateChars d (List.cons_ne_nil 'T' rest)
  have hdate := scanDate_dateChars hd ('T' :: rest)
  have hdrop : (dateChars d ++ 'T' :: rest).drop 10 = 'T' :: rest := rfl
  simp only [scanAll, hlength, hdate, hdrop, htime, Option.bind_eq_bind, Option.bind_some]

/-- The text of a reading spells its fields. -/
private theorem scanAll_isoChars (t : Timestamp) :
    scanAll (isoChars t) =
      some (t.date, ⟨t.hour, t.minute, t.second, t.microsecond⟩, t.offset.map writtenOffset) := by
  have htime := scanTime_iso (Nat.lt_of_le_of_lt t.hour_le (by decide))
    (Nat.lt_of_le_of_lt t.minute_le (by decide)) (Nat.lt_of_le_of_lt t.second_le (by decide))
    t.microsecond_lt t.offset_lt
  exact scanAll_dateChars t.date_valid htime

/-- What the text of a reading is read as. -/
def reread (t : Timestamp) : Timestamp where
  wall := t.wall
  offset := t.offset.map readOffset
  wall_lt := t.wall_lt
  offset_lt := by
    intro o ho
    obtain ⟨x, hx, rfl⟩ := Option.map_eq_some_iff.mp ho
    exact Nat.lt_of_le_of_lt (natAbs_readOffset_le x) (t.offset_lt x hx)

theorem ofIso_toIso_eq (t : Timestamp) : ofIso t.toIso = .ok t.reread := by
  have hoffset : checkOffset (t.offset.map writtenOffset) = .ok (t.offset.map readOffset) := by
    cases ho : t.offset with
    | none => rfl
    | some o => exact checkOffset_writtenOffset (t.offset_lt o ho)
  rw [ofIso, toIso, String.toList_ofList, scanAll_isoChars]
  simp only [hoffset, bind, Except.bind]
  exact ofFields_self t.reread

theorem reread_eq_self_iff (t : Timestamp) : t.reread = t ↔ t.ReadableOffset := by
  obtain ⟨wall, offset, hwall, hoffset⟩ := t
  cases offset with
  | none => exact iff_of_true rfl fun o ho => by cases ho
  | some o =>
    simp only [reread, mk.injEq, true_and, Option.map_some, Option.some.injEq, ReadableOffset,
      Option.mem_some_iff, forall_eq', readOffset_eq_self_iff]

/-- A reading is read back from its text. -/
theorem ofIso_toIso {t : Timestamp} (h : t.ReadableOffset) : ofIso t.toIso = .ok t := by
  rw [ofIso_toIso_eq, (reread_eq_self_iff t).mpr h]

/-! ## What is read -/

/-- The parts of an offset have one sign. -/
def WrittenOffset.OneSign (w : WrittenOffset) : Prop := 0 ≤ w.1 ∧ 0 ≤ w.2 ∨ w.1 ≤ 0 ∧ w.2 ≤ 0

private theorem oneSign_of_scanTime {cs : List Char} {f : ClockFields} {w : WrittenOffset}
    (h : scanTime cs = some (f, some w)) : w.OneSign := by
  obtain ⟨clock, -, h⟩ := Option.bind_eq_some_iff.mp h
  simp only at h
  split at h
  · split at h <;> cases h
  · split at h
    · cases h
      exact Or.inl ⟨Int.le_refl _, Int.le_refl _⟩
    · cases h
  · obtain ⟨o, -, h⟩ := Option.bind_eq_some_iff.mp h
    split at h
    · cases h
    · cases h
      unfold WrittenOffset.OneSign
      split <;> omega

private theorem oneSign_of_scanAll {cs : List Char} {d : Calendar.Date} {f : ClockFields}
    {w : WrittenOffset} (h : scanAll cs = some (d, f, some w)) : w.OneSign := by
  obtain ⟨length, -, h⟩ := Option.bind_eq_some_iff.mp h
  obtain ⟨date, -, h⟩ := Option.bind_eq_some_iff.mp h
  split at h
  · cases h
  · obtain ⟨⟨clock, offset⟩, htime, h⟩ := Option.bind_eq_some_iff.mp h
    cases h
    exact oneSign_of_scanTime htime

private theorem readable_of_checkOffset {w : Option WrittenOffset} {offset : Option Int}
    (h : checkOffset w = .ok offset) (hsign : ∀ x ∈ w, x.OneSign) :
    ∀ o ∈ offset, o = 0 ∨ 1000000 ≤ o.natAbs := by
  intro o ho
  cases w with
  | none =>
    cases h
    cases ho
  | some w =>
    have hsign := hsign w rfl
    unfold WrittenOffset.OneSign at hsign
    simp only [checkOffset] at h
    split at h
    · cases h
      exact Or.inl (Option.some.inj ho).symm
    · split at h
      · cases h
        have ho := Option.some.inj ho
        omega
      · cases h

private theorem offset_of_ofFields {d : Calendar.Date} {f : ClockFields} {offset : Option Int}
    {t : Timestamp} (h : ofFields d f offset = .ok t) : t.offset = offset := by
  unfold ofFields at h
  dsimp only at h
  repeat' split at h
  all_goals cases h
  rfl

/-- What is read is read back from its own text. -/
theorem readableOffset_of_ofIso {s : String} {t : Timestamp} (h : ofIso s = .ok t) :
    t.ReadableOffset := by
  unfold ofIso at h
  split at h
  · cases h
  · next d f w hscan =>
    cases hcheck : checkOffset w with
    | error e =>
      rw [hcheck] at h
      cases h
    | ok offset =>
      rw [hcheck] at h
      intro o ho
      rw [offset_of_ofFields h] at ho
      refine readable_of_checkOffset hcheck (fun x hx => ?_) o ho
      rw [hx] at hscan
      exact oneSign_of_scanAll hscan

end CostCatalog.Timestamp
