import CostCatalog.Proofs.AuditTrail
import CostCatalog.Proofs.Samples

/-!
# What a refused change leaves

A change that a rule refuses leaves the entry as it was. An update may also be refused because there is
no time for it, `Audit.Timeless`; by then its fields are in place, and they stay. So a refused change is
all or nothing unless it is an update for which there is no time and which says something new,
`Entry.all_or_nothing_iff`; and then it is not, `Entry.renamed_at_end_of_calendar`.
-/

namespace CostCatalog

/-! ## Changes for which there is no time -/

namespace Audit

/-- There is no time for a change when the clock reads `now`: the clock cannot be compared with the
last time on record, or it has not gone past that time and the calendar ends there. -/
def Timeless (now : Timestamp) (a : Audit) : Prop :=
  ∃ p ∈ a.latest, now.isAware ≠ p.isAware ∨ now.instant ≤ p.instant ∧ p.wall + 1 = wallLimit

theorem add?_one_eq_none_iff {p : Timestamp} : p.add? 1 = none ↔ p.wall + 1 = wallLimit := by
  have hwall := p.wall_lt
  unfold Timestamp.add? Timestamp.ofWall?
  split
  case isTrue hroom => exact iff_of_false (Option.some_ne_none _) (by omega)
  case isFalse hroom => exact iff_of_true rfl (by omega)

/-- The time of a change is worked out unless there is none. -/
theorem nextTime_error_iff {now : Timestamp} {a : Audit} :
    (∃ f, nextTime now a.latest = .error f) ↔ a.Timeless now := by
  unfold Timeless nextTime Timestamp.le?
  cases a.latest with
  | none => simp
  | some p =>
    by_cases haware : now.isAware = p.isAware
    · by_cases hle : now.instant ≤ p.instant
      · cases hadd : p.add? 1 with
        | none => simp [haware, hle, hadd, add?_one_eq_none_iff.mp hadd]
        | some t =>
          have hroom : p.wall + 1 ≠ wallLimit := fun hend =>
            Option.some_ne_none t (hadd.symm.trans (add?_one_eq_none_iff.mpr hend))
          simp [haware, hle, hadd, hroom]
      · simp [haware, hle]
    · simp [haware]

/-- A change is stamped with the time that is worked out for it. -/
theorem stamp_cases (actor : String) (now : Timestamp) (a : Audit) :
    (a.Timeless now ∧ ∃ f, stamp actor now a = .error f) ∨
      (¬ a.Timeless now ∧ ∃ a', stamp actor now a = .ok a') := by
  rw [← nextTime_error_iff, stamp]
  cases nextTime now a.latest with
  | error f => exact Or.inl ⟨⟨f, rfl⟩, f, rfl⟩
  | ok t =>
    refine Or.inr ⟨?_, _, rfl⟩
    rintro ⟨f, hf⟩
    cases hf

end Audit

/-! ## What a change leaves -/

namespace Entry

variable {k : Kind}

/-- An update that gives a name and who makes it. -/
def Edit.IsSigned : {k : Kind} → Edit k → Prop
  | .uom, Uom.Edit.update name _ _ actor => name ≠ "" ∧ actor ≠ ""
  | .parameter, Parameter.Edit.update name _ _ actor => name ≠ "" ∧ actor ≠ ""
  | _, _ => False

/-- An entry with the fields of an update in place, and with the audit fields that it had. -/
def Edit.filled : {k : Kind} → Edit k → Entry k → Entry k
  | .uom, Uom.Edit.update name category isBase _, u => { (u : Uom) with name, category, isBase }
  | .parameter, Parameter.Edit.update name category dataType _, p =>
    { (p : Parameter) with name, category, dataType }
  | _, _, e => e

/-- An update that is signed has its fields in place, whether there is a time for it or not. -/
private theorem edit_of_signed {ed : Edit k} (hed : ed.IsSigned) (now : Timestamp) (e : Entry k) :
    ((audit e).Timeless now ∧ ∃ f, e.edit now ed = (.error f, ed.filled e)) ∨
      (¬ (audit e).Timeless now ∧ ∃ e', e.edit now ed = (.ok (), e')) := by
  cases k with
  | uom =>
    cases ed with
    | markBase => exact absurd hed id
    | update name category isBase actor =>
      simp only [edit, Uom.edit, if_neg hed.1, if_neg hed.2]
      rcases (Uom.audit e).stamp_cases actor now with ⟨htime, f, hf⟩ | ⟨htime, a, ha⟩
      · exact Or.inl ⟨htime, f, by rw [hf]; rfl⟩
      · exact Or.inr ⟨htime, _, by rw [ha]⟩
  | parameter =>
    cases ed with
    | update name category dataType actor =>
      simp only [edit, Parameter.edit, if_neg hed.1, if_neg hed.2]
      rcases (Parameter.audit e).stamp_cases actor now with ⟨htime, f, hf⟩ | ⟨htime, a, ha⟩
      · exact Or.inl ⟨htime, f, by rw [hf]; rfl⟩
      · exact Or.inr ⟨htime, _, by rw [ha]⟩
    | setBounds | setOptions | setUom | setDescription | setMandatory | activate | deactivate =>
      exact absurd hed id

/-- Any other change is all or nothing. -/
private theorem edit_of_not_signed {ed : Edit k} (hed : ¬ ed.IsSigned) {now : Timestamp} {e : Entry k}
    {f : Fault} (h : (e.edit now ed).1 = .error f) : (e.edit now ed).2 = e := by
  cases k with
  | uom =>
    cases ed with
    | markBase => cases h
    | update name category isBase actor =>
      simp only [edit, Uom.edit]
      by_cases hname : name = ""
      · rw [if_pos hname]
      · rw [if_neg hname, if_pos (not_not.mp fun hactor => hed ⟨hname, hactor⟩)]
  | parameter =>
    cases ed with
    | update name category dataType actor =>
      simp only [edit, Parameter.edit]
      by_cases hname : name = ""
      · rw [if_pos hname]
      · rw [if_neg hname, if_pos (not_not.mp fun hactor => hed ⟨hname, hactor⟩)]
    | setBounds lo hi =>
      simp only [edit, Parameter.edit] at h ⊢
      split at h
      case isTrue hcross => rw [if_pos hcross]
      case isFalse => cases h
    | setOptions options =>
      simp only [edit, Parameter.edit] at h ⊢
      split at h
      case isTrue hnone => rw [if_pos hnone]
      case isFalse => cases h
    | setUom | setDescription | setMandatory | activate | deactivate => cases h

/-- A change of an entry leaves it as it was if it is refused, unless it is an update with a name and a
maker, for which there is no time, and which says something else than the entry does. -/
theorem all_or_nothing_iff (now : Timestamp) (e : Entry k) (ed : Edit k) :
    (∀ f, (e.edit now ed).1 = .error f → (e.edit now ed).2 = e) ↔
      ¬ (ed.IsSigned ∧ (audit e).Timeless now ∧ ed.filled e ≠ e) := by
  by_cases hsigned : ed.IsSigned
  · rcases edit_of_signed hsigned now e with ⟨htime, f, hedit⟩ | ⟨htime, e', hedit⟩
    · rw [hedit]
      constructor
      · rintro hsame ⟨-, -, hnew⟩
        exact hnew (hsame f rfl)
      · intro hnot g _
        exact not_not.mp fun hnew => hnot ⟨hsigned, htime, hnew⟩
    · rw [hedit]
      exact iff_of_true (fun f h => nomatch h) fun h => htime h.2.1
  · exact iff_of_true (fun f h => edit_of_not_signed hsigned h) fun h => hsigned h.1

end Entry

/-! ## An update at the end of the calendar -/

namespace Sample

/-- The last microsecond of the calendar, in UTC. -/
def lastMoment : Timestamp :=
  { Timestamp.epoch with
    wall := wallLimit - 1
    wall_lt := Nat.sub_lt (Nat.zero_lt_of_lt Timestamp.epoch.wall_lt) Nat.one_pos }

/-- The kilogram, last changed at the end of the calendar. -/
def lasting : Uom :=
  { kilogram "Kilogram" with
    audit := { Audit.start "ada" .epoch with updatedAt := some lastMoment, updatedBy := some "ada" } }

end Sample

/-- There is no time for its new name, and it has it. -/
theorem Entry.renamed_at_end_of_calendar :
    (Sample.lasting.edit .epoch (.update "Kilo" .weight true "bob")).1 =
        .error (.unexpected .beyondCalendar) ∧
      (Sample.lasting.edit .epoch (.update "Kilo" .weight true "bob")).2.name = "Kilo" ∧
      Sample.lasting.name = "Kilogram" :=
  ⟨rfl, rfl, rfl⟩

end CostCatalog
