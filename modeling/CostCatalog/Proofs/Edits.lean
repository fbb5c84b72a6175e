import CostCatalog.Store.Row

/-!
# What changes leave alone

A change of an entry, refused or not, keeps its code and who made it when. The changes that an update
makes leave nothing else of the entry: all that it was before is gone but its making, and the time of
the change is found unless the calendar ends. A change that forgets so much is `Forgetful`.
-/

namespace CostCatalog

/-! ## Codes -/

theorem bind_ok {α β : Type} {x : Except Fault α} {f : α → Except Fault β} {b : β}
    (h : x >>= f = .ok b) : ∃ a, x = .ok a ∧ f a = .ok b := by
  cases x with
  | error e => cases h
  | ok a => exact ⟨a, rfl, h⟩

theorem Code.parse_of_text {k : Kind} {c : Code k} {s : String} (h : s = c.text) :
    parse k (.str s) = .ok c := by
  subst h
  simp only [parse, Json.str?, Option.bind_some, ofText?_text]

theorem Code.text_of_parse {k : Kind} {s : String} {c : Code k} (h : parse k (.str s) = .ok c) :
    c.text = s := by
  unfold parse at h
  rw [Json.str?, Option.bind_some] at h
  split at h
  · next hc => cases h; exact text_of_ofText? hc
  · cases h

theorem Category.text_of_parse_uom {s : String} {c : UomCategory}
    (h : parse .uom (.str s) = .ok c) : c.text = s := by
  unfold parse at h
  split at h
  · next hc => cases h; exact Enumeration.text_of_ofText? hc
  · cases h

theorem Category.text_of_parse {s : String} {c : ParameterCategory}
    (h : parse .parameter (.str s) = .ok c) : c.text = s := by
  unfold parse at h
  split at h
  · next hc => cases h; exact Enumeration.text_of_ofText? hc
  · cases h

theorem DataType.name_of_parse {s : String} {t : DataType} (h : parse (.str s) = .ok t) :
    t.name = s := by
  unfold parse at h
  split at h
  · next ht => cases h; exact Enumeration.text_of_ofText? ht
  · cases h

theorem Uom.code_create {code : Code .uom} {name actor : String} {category : UomCategory}
    {now : Timestamp} {u : Uom} (h : create code name category actor now = .ok u) :
    u.code = code := by
  unfold create at h
  split at h
  · cases h
  · split at h
    · cases h
    · cases h
      rfl

namespace Parameter

theorem code_create {code : Code .parameter} {name actor : String} {category : ParameterCategory}
    {dataType : DataType} {now : Timestamp} {p : Parameter}
    (h : create code name category dataType actor now = .ok p) : p.code = code := by
  unfold create at h
  split at h
  · cases h
  · split at h
    · cases h
    · cases h
      rfl

theorem code_edit (now : Timestamp) (p : Parameter) (e : Edit) : (p.edit now e).2.code = p.code := by
  cases e with
  | update name category dataType actor =>
    simp only [edit]
    split
    · rfl
    · split
      · rfl
      · split <;> rfl
  | setBounds lo hi => simp only [edit]; split <;> rfl
  | setOptions options => simp only [edit]; split <;> rfl
  | setUom | setDescription | setMandatory | activate | deactivate => rfl

theorem code_editAll {now : Timestamp} {p q : Parameter} {es : List Edit}
    (h : p.editAll now es = .ok q) : q.code = p.code := by
  induction es generalizing p with
  | nil => cases h; rfl
  | cons e es ih =>
    unfold editAll at h
    have hcode := code_edit now p e
    generalize p.edit now e = edited at h hcode
    obtain ⟨outcome, p'⟩ := edited
    cases outcome with
    | ok _ => exact (ih h).trans hcode
    | error f => cases h

end Parameter

/-! ## Times of change -/

/-- A time with a known offset and up to a bound. -/
structure Timestamp.Within (bound : Nat) (t : Timestamp) : Prop where
  aware : t.isAware = true
  wall_le : t.wall ≤ bound

theorem Timestamp.Within.mono {bound bound' : Nat} {t : Timestamp} (h : t.Within bound)
    (hle : bound ≤ bound') : t.Within bound' := ⟨h.aware, Nat.le_trans h.wall_le hle⟩

namespace Audit

/-- The last time on record is within a bound. -/
def Within (bound : Nat) (a : Audit) : Prop := ∀ t ∈ a.latest, t.Within bound

theorem Within.mono {bound bound' : Nat} {a : Audit} (h : a.Within bound) (hle : bound ≤ bound') :
    a.Within bound' := fun t ht => (h t ht).mono hle

/-- Stored times are times of UTC. -/
theorem IsStored.latest_utc {a : Audit} (h : a.IsStored) : ∀ t ∈ a.latest, t.offset = some 0 := by
  intro t ht
  have hstored : t.stored = t := by
    rw [Option.mem_def, latest] at ht
    cases hupdated : a.updatedAt with
    | some u =>
      rw [hupdated] at ht
      cases ht
      simpa only [hupdated, Option.map_some, Option.some.injEq] using h.updated
    | none =>
      rw [hupdated] at ht
      have hcreated : a.createdAt = some t := ht
      simpa only [hcreated, Option.map_some, Option.some.injEq] using h.created
  rw [← hstored]
  rfl

theorem IsStored.within {bound : Nat} {a : Audit} (h : a.IsStored)
    (hbound : ∀ t ∈ a.latest, t.wall ≤ bound) : a.Within bound := by
  intro t ht
  refine ⟨?_, hbound t ht⟩
  rw [Timestamp.isAware, h.latest_utc t ht]
  rfl

/-- There is a time after the last one on record. -/
def HasNext (a : Audit) : Prop := ∃ bound, a.Within bound ∧ bound + 1 < wallLimit

/-- The next time is the clock's or one microsecond after the last one. -/
theorem nextTime_ok {a : Audit} (ha : a.HasNext) {now : Timestamp} (hnow : now.isAware = true) :
    ∃ t, nextTime now a.latest = .ok t ∧
      ∀ bound, now.Within bound → a.Within bound → t.Within (bound + 1) := by
  obtain ⟨limit, hlimit, hlt⟩ := ha
  cases hlatest : a.latest with
  | none => exact ⟨now, rfl, fun bound hb _ => hb.mono (Nat.le_succ bound)⟩
  | some p =>
    have hp := hlimit p hlatest
    have hcompare : now.le? p = some (decide (now.instant ≤ p.instant)) := by
      rw [Timestamp.le?, hnow, hp.aware, if_pos rfl]
    by_cases hle : now.instant ≤ p.instant
    · have hroom : (0 : Int) ≤ p.wall + 1 ∧ (p.wall + 1 : Int).toNat < wallLimit := by
        have := hp.wall_le
        omega
      refine ⟨⟨(p.wall + 1 : Int).toNat, p.offset, hroom.2, p.offset_lt⟩, ?_, ?_⟩
      · simp only [nextTime, hcompare, hle, decide_true, Timestamp.add?, Timestamp.ofWall?, hroom,
          and_self, dite_true]
      · intro bound _ hb
        refine ⟨hp.aware, ?_⟩
        have := (hb p hlatest).wall_le
        show (p.wall + 1 : Int).toNat ≤ bound + 1
        omega
    · refine ⟨now, ?_, fun bound hb _ => hb.mono (Nat.le_succ bound)⟩
      simp only [nextTime, hcompare, hle, decide_false]

/-- A change is stamped when there is a time for it. -/
theorem stamp_ok {a : Audit} (ha : a.HasNext) {now : Timestamp} (hnow : now.isAware = true)
    (actor : String) :
    ∃ t, stamp actor now a = .ok { a with updatedAt := some t, updatedBy := some actor } ∧
      ∀ bound, now.Within bound → a.Within bound → t.Within (bound + 1) := by
  obtain ⟨t, ht, hbound⟩ := nextTime_ok ha hnow
  refine ⟨t, ?_, hbound⟩
  rw [stamp, ht]
  rfl

end Audit

/-! ## Forgetful changes -/

namespace Entry

variable {k : Kind}

/-- An entry with the making of another, changed at a time by whoever changed it last. -/
def madeAs (d : Entry k) (a : Audit) (t : Option Timestamp) : Entry k :=
  d.withAudit { a with updatedAt := t, updatedBy := (audit d).updatedBy }

/-- An entry without its time of change. -/
def untimed (e : Entry k) : Entry k := e.withAudit { audit e with updatedAt := none }

theorem code_madeAs (d : Entry k) (a : Audit) (t : Option Timestamp) : (d.madeAs a t).code = d.code :=
  code_withAudit d _

theorem untimed_madeAs (d : Entry k) (a : Audit) (t : Option Timestamp) :
    (d.madeAs a t).untimed = d.madeAs a none := by
  cases k <;> rfl

theorem madeAs_untimed (d e : Entry k) (t : Option Timestamp) :
    d.madeAs (audit e.untimed) t = d.madeAs (audit e) t := by
  cases k <;> rfl

/-- An entry made as one that was made as another is made as the other. -/
theorem madeAs_madeAs (d e : Entry k) (a : Audit) (t t' : Option Timestamp) :
    d.madeAs (audit (e.madeAs a t)) t' = d.madeAs a t' := by
  cases k <;> rfl

/-- The row that a changed entry leaves shows the making of the old row, whatever the entry was made
of. -/
theorem untimed_replaced_madeAs (d old : Entry k) (a : Audit) (t : Option Timestamp) :
    (replaced (d.madeAs a t) old).untimed = (withStoredBounds d).madeAs (audit old) none := by
  cases k <;> rfl

/-- Entries that differ in the time of their change only were made by the same at the same time. -/
theorem making_of_untimed {e e' : Entry k} (h : e.untimed = e'.untimed) :
    (audit e).createdAt = (audit e').createdAt ∧ (audit e).createdBy = (audit e').createdBy := by
  have haudit := congrArg (audit (k := k)) h
  rw [untimed, untimed, audit_withAudit, audit_withAudit] at haudit
  have hat := congrArg Audit.createdAt haudit
  have hby := congrArg Audit.createdBy haudit
  exact ⟨hat, hby⟩

theorem making_replaced (e old : Entry k) :
    (audit (e.replaced old)).createdAt = (audit old).createdAt ∧
      (audit (e.replaced old)).createdBy = (audit old).createdBy := by
  rw [replaced, audit_withAudit]
  exact ⟨rfl, rfl⟩

end Entry

/-- A change makes the same draft of every entry with a code, or refuses every one for the same
reason; only who made the entry and when is kept. -/
def Forgetful {k : Kind} (c : Code k) (edit : Timestamp → Entry k → Except Fault (Entry k))
    (draft : Except Fault (Entry k)) : Prop :=
  ∀ now e, now.isAware = true → (Entry.audit e).HasNext → e.code = c →
    match draft with
    | .error f => edit now e = .error f
    | .ok d => d.code = c ∧ ∃ t, edit now e = .ok (d.madeAs (Entry.audit e) (some t)) ∧
        ∀ bound, now.Within bound → (Entry.audit e).Within bound → t.Within (bound + 1)

end CostCatalog
