import CostCatalog.Entry

/-!
# Rows

Entries are stored in a normal form. Times keep what the clock on the wall showed and lose their
offset: they are read back as times of UTC. A bound that is no number is stored as none, and there
is one zero. A new row has no time of change, and a change leaves the time of creation alone.

The store is SQLite's. It keeps a bound as the double it is, to its last bit, although the column is
declared `Numeric(18, 6)`; a store that heeds the declaration would round it.
-/

namespace CostCatalog

/-! ## Normal forms -/

/-- A stored time. -/
def Timestamp.stored (t : Timestamp) : Timestamp := t.assumeUtc

/-- A stored bound: a double that is a number, not rounded. -/
def storedBound : Option Float → Option Float
  | none => none
  | some x => if Binary64.isNaN x then none else if x == 0.0 then some 0.0 else some x

/-- The audit fields of a new row. -/
def Audit.inserted (a : Audit) : Audit :=
  { createdAt := a.createdAt.map Timestamp.stored, createdBy := a.createdBy }

/-- The audit fields of a row that is changed. -/
def Audit.replaced (a old : Audit) : Audit :=
  { old with updatedAt := a.updatedAt.map Timestamp.stored, updatedBy := a.updatedBy }

/-- What the store can hold of audit fields: times of UTC. -/
structure Audit.IsStored (a : Audit) : Prop where
  created : a.createdAt.map Timestamp.stored = a.createdAt
  updated : a.updatedAt.map Timestamp.stored = a.updatedAt

namespace Entry

/-- An entry with other audit fields. -/
def withAudit : {k : Kind} → Entry k → Audit → Entry k
  | .uom, u, a => { (u : Uom) with audit := a }
  | .parameter, p, a => { (p : Parameter) with audit := a }

/-- An entry with its bounds in normal form. -/
def withStoredBounds : {k : Kind} → Entry k → Entry k
  | .uom, u => u
  | .parameter, p =>
    { (p : Parameter) with
      minValue := storedBound (Parameter.minValue p)
      maxValue := storedBound (Parameter.maxValue p) }

/-- The row of a new entry. -/
def inserted {k : Kind} (e : Entry k) : Entry k :=
  (withStoredBounds e).withAudit (audit e).inserted

/-- The row of an entry that takes the place of an old one. -/
def replaced {k : Kind} (e old : Entry k) : Entry k :=
  (withStoredBounds e).withAudit ((audit e).replaced (audit old))

/-- The unit that an entry names. -/
def reference? : {k : Kind} → Entry k → Option String
  | .uom, _ => none
  | .parameter, p => Parameter.uom p

/-- What the store can hold of an entry: what its normal form leaves as it is. -/
structure IsStored {k : Kind} (e : Entry k) : Prop where
  bounds : withStoredBounds e = e
  audit : (audit e).IsStored

theorem code_withAudit {k : Kind} (e : Entry k) (a : Audit) : (e.withAudit a).code = e.code := by
  cases k <;> rfl

theorem code_withStoredBounds {k : Kind} (e : Entry k) : (withStoredBounds e).code = e.code := by
  cases k <;> rfl

theorem code_inserted {k : Kind} (e : Entry k) : e.inserted.code = e.code := by
  unfold inserted
  rw [code_withAudit, code_withStoredBounds]

theorem code_replaced {k : Kind} (e old : Entry k) : (e.replaced old).code = e.code := by
  unfold replaced
  rw [code_withAudit, code_withStoredBounds]

theorem audit_withAudit {k : Kind} (e : Entry k) (a : Audit) : audit (e.withAudit a) = a := by
  cases k <;> rfl

end Entry

/-- A parameter without its unit, if it is the given one. -/
def Parameter.clearUom (uom : String) (p : Parameter) : Parameter :=
  if p.uom = some uom then { p with uom := none } else p

theorem Parameter.code_clearUom (uom : String) (p : Parameter) :
    (p.clearUom uom).code = p.code := by
  unfold clearUom; split <;> rfl

/-! ## What is stored is in normal form -/

theorem storedBound_storedBound (b : Option Float) :
    storedBound (storedBound b) = storedBound b := by
  have hzero : storedBound (some 0.0) = some 0.0 := by decide
  cases b with
  | none => rfl
  | some x =>
    by_cases hn : Binary64.isNaN x
    · simp only [storedBound, hn, if_true]
    · by_cases hz : x == 0.0
      · simp only [storedBound, hn, hz, if_true, Bool.false_eq_true, if_false]
        exact hzero
      · simp only [storedBound, hn, hz, Bool.false_eq_true, if_false]

namespace Entry

theorem withStoredBounds_withAudit {k : Kind} (e : Entry k) (a : Audit) :
    withStoredBounds (e.withAudit a) = (withStoredBounds e).withAudit a := by
  cases k <;> rfl

theorem withStoredBounds_withStoredBounds {k : Kind} (e : Entry k) :
    withStoredBounds (withStoredBounds e) = withStoredBounds e := by
  cases k with
  | uom => rfl
  | parameter => simp only [withStoredBounds, storedBound_storedBound]

/-- A new row is in normal form, whatever the entry it is made of. -/
theorem inserted_isStored {k : Kind} (e : Entry k) : e.inserted.IsStored where
  bounds := by
    rw [inserted, withStoredBounds_withAudit, withStoredBounds_withStoredBounds]
  audit := by
    rw [inserted, audit_withAudit]
    exact ⟨by cases h : (audit e).createdAt <;> simp [Audit.inserted, h, Timestamp.stored,
      Timestamp.assumeUtc], rfl⟩

/-- A changed row is in normal form if it was before. -/
theorem replaced_isStored {k : Kind} (e : Entry k) {old : Entry k} (h : old.IsStored) :
    (e.replaced old).IsStored where
  bounds := by
    rw [replaced, withStoredBounds_withAudit, withStoredBounds_withStoredBounds]
  audit := by
    rw [replaced, audit_withAudit]
    exact ⟨h.audit.created, by cases h : (audit e).updatedAt <;> simp [Audit.replaced, h,
      Timestamp.stored, Timestamp.assumeUtc]⟩

end Entry

/-- A row stays in normal form when its unit changes. -/
theorem Parameter.withUom_isStored {p : Parameter} (h : Entry.IsStored (k := .parameter) p)
    (uom : Option String) : Entry.IsStored (k := .parameter) { p with uom } where
  bounds := congrArg (fun q : Parameter => { q with uom }) h.bounds
  audit := h.audit

theorem Parameter.clearUom_isStored {p : Parameter} (h : Entry.IsStored (k := .parameter) p)
    (uom : String) : Entry.IsStored (k := .parameter) (p.clearUom uom) := by
  unfold clearUom
  split
  · exact Parameter.withUom_isStored h none
  · exact h

end CostCatalog
