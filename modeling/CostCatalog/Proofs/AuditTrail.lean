import CostCatalog.Entry
import CostCatalog.Proofs.Edits

/-!
# The audit trail of an entry

Each update puts a time on record that is later than the last one, however the clock goes, and no
change touches the making of an entry. `Audit.Rises` is what an update does to the audit fields; every
other change, and every update that is refused, leaves them as they were, `Entry.audit_edit`.
-/

namespace CostCatalog

variable {k : Kind}

/-! ## Times -/

/-- Moving a reading moves its instant: the offset stays, whatever the fields of the wall time do. -/
theorem Timestamp.instant_add? {t t' : Timestamp} {micros : Int} (h : t.add? micros = some t') :
    t'.instant = t.instant + micros := by
  unfold add? ofWall? at h
  split at h
  case isFalse => cases h
  case isTrue hroom =>
    cases h
    simp only [instant]
    omega

/-- The offset of a reading that is moved stays. -/
theorem Timestamp.offset_add? {t t' : Timestamp} {micros : Int} (h : t.add? micros = some t') :
    t'.offset = t.offset := by
  unfold add? ofWall? at h
  split at h
  case isFalse => cases h
  case isTrue => cases h; rfl

namespace Audit

/-- The time of a change comes after the last one on record, and not before the clock. -/
theorem nextTime_rises {now t : Timestamp} {previous : Option Timestamp}
    (h : nextTime now previous = .ok t) :
    now.instant ≤ t.instant ∧ ∀ p ∈ previous, p.instant < t.instant := by
  cases previous with
  | none => cases h; exact ⟨Int.le_refl _, by simp⟩
  | some p =>
    simp only [nextTime] at h
    cases hle : now.le? p with
    | none => rw [hle] at h; cases h
    | some early =>
      have hearly : early = decide (now.instant ≤ p.instant) := by
        unfold Timestamp.le? at hle
        split at hle
        · exact (Option.some.inj hle).symm
        · cases hle
      rw [hle] at h
      cases early with
      | false =>
        cases h
        have hlater : ¬ now.instant ≤ p.instant := by simpa using hearly
        exact ⟨Int.le_refl _, fun q hq => by cases hq; omega⟩
      | true =>
        -- The clock has not gone past the last time, which is bumped by a microsecond.
        have hearlier : now.instant ≤ p.instant := by simpa using hearly
        cases hadd : p.add? 1 with
        | none => simp [hadd] at h
        | some q =>
          simp only [hadd, Except.ok.injEq] at h
          subst h
          have hinstant := Timestamp.instant_add? hadd
          exact ⟨by omega, fun r hr => by cases hr; omega⟩

/-- The time of a change is a time of UTC if the clock reads UTC and the last time on record is
one. -/
theorem offset_nextTime {now t : Timestamp} {previous : Option Timestamp}
    (h : nextTime now previous = .ok t) (hnow : now.offset = some 0)
    (hprevious : ∀ p ∈ previous, p.offset = some 0) : t.offset = some 0 := by
  cases previous with
  | none => cases h; exact hnow
  | some p =>
    simp only [nextTime] at h
    split at h
    · cases h
    · cases h; exact hnow
    · split at h
      · next q hadd =>
        cases h
        exact (Timestamp.offset_add? hadd).trans (hprevious p rfl)
      · cases h

/-- What an update made when the clock reads `now` does to audit fields: the making stays, and the
time of the update is not before the clock and later than the last time on record, which is that of the
making before the first update. -/
structure Rises (now : Timestamp) (a a' : Audit) : Prop where
  createdAt : a'.createdAt = a.createdAt
  createdBy : a'.createdBy = a.createdBy
  time : ∃ t, a'.updatedAt = some t ∧ now.instant ≤ t.instant ∧ ∀ p ∈ a.latest, p.instant < t.instant

theorem stamp_rises {actor : String} {now : Timestamp} {a a' : Audit}
    (h : stamp actor now a = .ok a') : Rises now a a' := by
  obtain ⟨t, ht, ha'⟩ := bind_ok h
  cases ha'
  obtain ⟨hclock, hlatest⟩ := nextTime_rises ht
  exact ⟨rfl, rfl, t, rfl, hclock, hlatest⟩

end Audit

/-! ## Changes -/

namespace Entry

/-- The changes of an entry of a kind. -/
abbrev Edit : Kind → Type
  | .uom => Uom.Edit
  | .parameter => Parameter.Edit

/-- A change is an update. -/
def Edit.IsUpdate : {k : Kind} → Edit k → Prop
  | .uom, Uom.Edit.update .. => True
  | .parameter, Parameter.Edit.update .. => True
  | _, _ => False

/-- The outcome of a change made when the clock reads `now`, and the entry after it. -/
def edit (now : Timestamp) : {k : Kind} → Entry k → Edit k → Except Fault Unit × Entry k
  | .uom, u, ed => Uom.edit now u ed
  | .parameter, p, ed => Parameter.edit now p ed

/-- An entry after changes made one after the other, each at its own reading of the clock. A change
that is refused is passed over. -/
def editEach (e : Entry k) (edits : List (Timestamp × Edit k)) : Entry k :=
  edits.foldl (fun e x => (e.edit x.1 x.2).2) e

theorem code_edit (now : Timestamp) (e : Entry k) (ed : Edit k) : (e.edit now ed).2.code = e.code := by
  cases k with
  | parameter => exact Parameter.code_edit now e ed
  | uom =>
    cases ed with
    | markBase => rfl
    | update name category isBase actor =>
      simp only [edit, Uom.edit]
      split
      · rfl
      · split
        · rfl
        · split <;> rfl

/-- A successful update puts its time on record; every other change leaves the audit fields alone. -/
theorem audit_edit (now : Timestamp) (e : Entry k) (ed : Edit k) :
    (ed.IsUpdate ∧ (e.edit now ed).1 = .ok () ∧ (audit e).Rises now (audit (e.edit now ed).2)) ∨
      (¬ (ed.IsUpdate ∧ (e.edit now ed).1 = .ok ()) ∧ audit (e.edit now ed).2 = audit e) := by
  have hrefused {f : Fault} {p : Prop} : ¬ (p ∧ (Except.error f : Except Fault Unit) = .ok ()) := by
    rintro ⟨-, h⟩
    cases h
  cases k with
  | uom =>
    cases ed with
    | markBase => exact Or.inr ⟨fun h => h.1, rfl⟩
    | update name category isBase actor =>
      simp only [edit, Uom.edit]
      split
      · exact Or.inr ⟨hrefused, rfl⟩
      · split
        · exact Or.inr ⟨hrefused, rfl⟩
        · split
          · next hstamp => exact Or.inl ⟨trivial, rfl, Audit.stamp_rises hstamp⟩
          · exact Or.inr ⟨hrefused, rfl⟩
  | parameter =>
    cases ed with
    | update name category dataType actor =>
      simp only [edit, Parameter.edit]
      split
      · exact Or.inr ⟨hrefused, rfl⟩
      · split
        · exact Or.inr ⟨hrefused, rfl⟩
        · split
          · next hstamp => exact Or.inl ⟨trivial, rfl, Audit.stamp_rises hstamp⟩
          · exact Or.inr ⟨hrefused, rfl⟩
    | setBounds lo hi =>
      refine Or.inr ⟨fun h => h.1, ?_⟩
      simp only [edit, Parameter.edit]
      split <;> rfl
    | setOptions options =>
      refine Or.inr ⟨fun h => h.1, ?_⟩
      simp only [edit, Parameter.edit]
      split <;> rfl
    | setUom | setDescription | setMandatory | activate | deactivate =>
      exact Or.inr ⟨fun h => h.1, rfl⟩

/-- Nothing touches the making of an entry. -/
theorem making_edit (now : Timestamp) (e : Entry k) (ed : Edit k) :
    (audit (e.edit now ed).2).createdAt = (audit e).createdAt ∧
      (audit (e.edit now ed).2).createdBy = (audit e).createdBy := by
  rcases audit_edit now e ed with ⟨-, -, h⟩ | ⟨-, h⟩
  · exact ⟨h.createdAt, h.createdBy⟩
  · rw [h]
    exact ⟨rfl, rfl⟩

theorem making_editEach (e : Entry k) (edits : List (Timestamp × Edit k)) :
    (e.editEach edits).code = e.code ∧
      (audit (e.editEach edits)).createdAt = (audit e).createdAt ∧
      (audit (e.editEach edits)).createdBy = (audit e).createdBy := by
  induction edits generalizing e with
  | nil => exact ⟨rfl, rfl, rfl⟩
  | cons x edits ih =>
    obtain ⟨hcode, hat, hby⟩ := ih (e.edit x.1 x.2).2
    obtain ⟨hat', hby'⟩ := making_edit x.1 e x.2
    exact ⟨hcode.trans (code_edit x.1 e x.2), hat.trans hat', hby.trans hby'⟩

end Entry

end CostCatalog
