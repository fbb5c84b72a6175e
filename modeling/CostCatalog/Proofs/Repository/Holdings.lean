import CostCatalog.Proofs.Codes
import CostCatalog.Proofs.Edits
import CostCatalog.Proofs.Number.FloatBits
import CostCatalog.Proofs.Repository.Stored

/-!
# Holdings

What the repositories are for, told without rows and statements: two maps from codes to entries, and
whether a parameter may only name a unit that is held. Each call has one outcome and leaves one pair
of maps. Holdings keep an entry as it was given; a store keeps its numbers in normal form, so the
two are compared with numbers taken as numbers, `Entry.Same`.
-/

namespace CostCatalog

variable {k : Kind}

/-! ## Two maps -/

/-- The entries of both kinds by their codes, and whether references are enforced. -/
structure Holdings where
  held? : (k : Kind) → Code k → Option (Entry k)
  enforces : Bool

namespace Entry

/-- The entry without a record of a change. -/
def unchanged (e : Entry k) : Entry k :=
  e.withAudit { createdAt := e.audit.createdAt, createdBy := e.audit.createdBy }

end Entry

namespace Holdings

/-- The holdings with an entry, or none, under a code. -/
def set (m : Holdings) (c : Code k) (e : Option (Entry k)) : Holdings :=
  { m with held? := Function.update m.held? k (Function.update (m.held? k) c e) }

theorem held?_set_self (m : Holdings) (c : Code k) (e : Option (Entry k)) :
    (m.set c e).held? k c = e := by
  simp only [set, Function.update_self]

theorem held?_set_of_ne (m : Holdings) {c d : Code k} (h : d ≠ c) (e : Option (Entry k)) :
    (m.set c e).held? k d = m.held? k d := by
  simp only [set, Function.update_self, Function.update_of_ne h]

theorem held?_set_of_kind_ne (m : Holdings) {j : Kind} (h : j ≠ k) (c : Code k)
    (e : Option (Entry k)) : (m.set c e).held? j = m.held? j := by
  simp only [set, Function.update_of_ne h]

/-- Whether an entry names a unit that would have to be held and is not. -/
def dangles (m : Holdings) (e : Entry k) : Bool :=
  m.enforces && e.reference?.any fun u => ((Code.ofText? .uom u).bind (m.held? .uom)).isNone

/-- The holdings without the references to a unit that is gone, if they are enforced. -/
def withoutReferences : {k : Kind} → Code k → Holdings → Holdings
  | .uom, c, m =>
    if m.enforces then
      { m with
        held? := fun
          | .uom => m.held? .uom
          | .parameter => fun d => (m.held? .parameter d).map (Parameter.clearUom c.text) }
    else m
  | .parameter, _, m => m

/-! ## Calls -/

/-- An entry stored for the first time, unless its code is taken or it names a unit that is not
held. -/
def created (m : Holdings) (e : Entry k) : Except Fault Unit × Holdings :=
  if (m.held? k e.code).isSome then (.error (.ofRule (.alreadyExists k)), m)
  else if m.dangles e then (.error (Store.danglingReference.toFault "insert"), m)
  else (.ok (), m.set e.code (some e.unchanged))

/-- Another entry in the place of an old one, except that its making stays on record. -/
def updated (m : Holdings) (e : Entry k) : Except Fault Unit × Holdings :=
  match m.held? k e.code with
  | none => (.error (.ofRule (.notFound k)), m)
  | some old =>
    if m.dangles e then (.error (Store.danglingReference.toFault "update"), m)
    else (.ok (), m.set e.code (some (e.madeAs old.audit e.audit.updatedAt)))

/-- An entry gone, and with a unit the references to it. -/
def deleted (m : Holdings) (c : Code k) : Except Fault Unit × Holdings :=
  match m.held? k c with
  | none => (.error (.ofRule (.notFound k)), m)
  | some _ => (.ok (), withoutReferences c (m.set c none))

/-- The entry with a code, if it is held. -/
def found (m : Holdings) (c : Code k) : Except Fault (Entry k) :=
  match m.held? k c with
  | none => .error (.ofRule (.notFound k))
  | some e => .ok e

/-- The entries that match a filter, in the order of their codes. -/
noncomputable def matching (m : Holdings) (f : Filter k) : List (Entry k) :=
  ((Code.all k).filterMap (m.held? k)).filter fun e => decide (f.Matches e)

/-- A page of the entries that match a filter, and how many there are; no page so far on that its
offset is beyond 64 bits. -/
noncomputable def listed (m : Holdings) (f : Filter k) : Except Fault (List (Entry k) × Int) :=
  if Store.maxOffset < f.page.offset then .error (.unexpected .integerTooLarge)
  else .ok (((m.matching f).drop f.page.offset).take f.page.limit, (m.matching f).length)

/-- The outcome of a call, and the holdings after it. -/
noncomputable def answer (m : Holdings) : Call → Except Fault Reply × Holdings
  | .create _ e => ((m.created e).1.map fun _ => .done, (m.created e).2)
  | .find k c => ((m.found c).map (.entry k), m)
  | .list k f => ((m.listed f).map fun found => .page k found.1 found.2, m)
  | .update _ e => ((m.updated e).1.map fun _ => .done, (m.updated e).2)
  | .delete _ c => ((m.deleted c).1.map fun _ => .done, (m.deleted c).2)
  | .contains k c => (.ok (.present (m.held? k c).isSome), m)

/-- The outcomes of calls made one after the other, each with the holdings after it. -/
noncomputable def trace (m : Holdings) : List Call → List (Except Fault Reply × Holdings)
  | [] => []
  | call :: calls => m.answer call :: trace (m.answer call).2 calls

end Holdings

/-! ## Entries that are the same -/

/-- The same number, or no bound either time. -/
def SameBound : Option Float → Option Float → Prop := Option.Rel fun x y => (x == y) = true

namespace Entry

/-- An entry and another with the same fields, the bounds being the same numbers. -/
def Same : {k : Kind} → Entry k → Entry k → Prop
  | .uom, u, v => v = u
  | .parameter, p, q =>
    ∃ lo hi, SameBound (Parameter.minValue p) lo ∧ SameBound (Parameter.maxValue p) hi ∧
      q = { (p : Parameter) with minValue := lo, maxValue := hi }

/-- Bounds are numbers. -/
def HasNumbers : {k : Kind} → Entry k → Prop
  | .uom, _ => True
  | .parameter, p => (∀ x ∈ Parameter.minValue p, Binary64.isNaN x = false) ∧
      ∀ x ∈ Parameter.maxValue p, Binary64.isNaN x = false

/-- An entry such as the catalogue makes: its times are of UTC, its making is on record, and its
bounds are numbers. -/
structure Proper (e : Entry k) : Prop where
  made : ∃ t ∈ e.audit.createdAt, t.offset = some 0
  changed : ∀ t ∈ e.audit.updatedAt, t.offset = some 0
  numbers : e.HasNumbers

variable {e e' : Entry k}

theorem Same.code (h : e.Same e') : e'.code = e.code := by
  cases k with
  | uom => cases h; rfl
  | parameter => obtain ⟨lo, hi, -, -, rfl⟩ := h; rfl

theorem Same.audit (h : e.Same e') : e'.audit = e.audit := by
  cases k with
  | uom => cases h; rfl
  | parameter => obtain ⟨lo, hi, -, -, rfl⟩ := h; rfl

theorem Same.matches_iff (h : e.Same e') (f : Filter k) : f.Matches e ↔ f.Matches e' := by
  cases k with
  | uom => cases h; rfl
  | parameter => obtain ⟨lo, hi, -, -, rfl⟩ := h; rfl

theorem Same.withAudit (h : e.Same e') (a : Audit) : (e.withAudit a).Same (e'.withAudit a) := by
  cases k with
  | uom => cases h; rfl
  | parameter => obtain ⟨lo, hi, hlo, hhi, rfl⟩ := h; exact ⟨lo, hi, hlo, hhi, rfl⟩

theorem Same.clearUom {p q : Parameter} (h : Same (k := .parameter) p q) (u : String) :
    Same (k := .parameter) (p.clearUom u) (q.clearUom u) := by
  obtain ⟨lo, hi, hlo, hhi, rfl⟩ := h
  unfold Parameter.clearUom
  split <;> exact ⟨lo, hi, hlo, hhi, rfl⟩

theorem rel_clearUom {p q : Option (Entry .parameter)} (h : Option.Rel Same p q) (u : String) :
    Option.Rel (Same (k := .parameter)) (p.map (Parameter.clearUom u))
      (q.map (Parameter.clearUom u)) := by
  cases h with
  | none => exact .none
  | some hsame => exact .some (hsame.clearUom u)

theorem sameBound_storedBound {b : Option Float} (h : ∀ x ∈ b, Binary64.isNaN x = false) :
    SameBound b (storedBound b) := by
  cases b with
  | none => exact .none
  | some x =>
    have hnumber := h x rfl
    simp only [storedBound, hnumber, Bool.false_eq_true, if_false]
    split
    · next hzero => exact .some hzero
    · exact .some (Binary64.beq_self hnumber)

theorem sameBound_self {b : Option Float} (h : storedBound b = b) : SameBound b b := by
  cases b with
  | none => exact .none
  | some x =>
    refine .some (Binary64.beq_self (Bool.eq_false_iff.mpr fun hnan => ?_))
    rw [storedBound, if_pos hnan] at h
    cases h

/-- What a store can hold is the same as itself. -/
theorem IsStored.same_self (h : e.IsStored) : e.Same e := by
  cases k with
  | uom => rfl
  | parameter =>
    have hlo := congrArg Parameter.minValue h.bounds
    have hhi := congrArg Parameter.maxValue h.bounds
    exact ⟨_, _, sameBound_self hlo, sameBound_self hhi, rfl⟩

/-- The normal form of bounds leaves the numbers as they are. -/
theorem same_withStoredBounds (h : e.HasNumbers) : e.Same (withStoredBounds e) := by
  cases k with
  | uom => rfl
  | parameter => exact ⟨_, _, sameBound_storedBound h.1, sameBound_storedBound h.2, rfl⟩

end Entry

namespace Timestamp

theorem stored_of_utc {t : Timestamp} (h : t.offset = some 0) : t.stored = t := by
  obtain ⟨wall, offset, hwall, hoffset⟩ := t
  cases h
  rfl

private theorem map_stored_of_utc {t : Option Timestamp} (h : ∀ x ∈ t, x.offset = some 0) :
    t.map stored = t := by
  cases t with
  | none => rfl
  | some t => rw [Option.map_some, stored_of_utc (h t rfl)]

end Timestamp

namespace Entry

variable {e : Entry k}

/-- A new row is the entry that it is made of. -/
theorem Proper.same_inserted (h : e.Proper) : e.unchanged.Same e.inserted := by
  have haudit : e.audit.inserted =
      { createdAt := e.audit.createdAt, createdBy := e.audit.createdBy } := by
    obtain ⟨t, ht, hutc⟩ := h.made
    rw [Audit.inserted, Option.mem_def.mp ht, Option.map_some, Timestamp.stored_of_utc hutc]
  rw [inserted, haudit]
  exact (same_withStoredBounds h.numbers).withAudit _

/-- A changed row is the entry that it is made of, save for the making of the old one. -/
theorem Proper.same_replaced (h : e.Proper) {old old' : Entry k} (hold : old.Same old') :
    (e.madeAs old.audit e.audit.updatedAt).Same (e.replaced old') := by
  have haudit : e.audit.replaced old'.audit =
      { old.audit with updatedAt := e.audit.updatedAt, updatedBy := e.audit.updatedBy } := by
    rw [Audit.replaced, Timestamp.map_stored_of_utc h.changed, hold.audit]
  rw [replaced, haudit]
  exact (same_withStoredBounds h.numbers).withAudit _

end Entry

/-! ## Outcomes that are the same -/

/-- The same reply, entries being the same. -/
inductive Reply.Same : Reply → Reply → Prop
  | done : Same .done .done
  | entry {j : Kind} {e e' : Entry j} : e.Same e' → Same (.entry j e) (.entry j e')
  | page {j : Kind} {es es' : List (Entry j)} (total : Int) :
      List.Forall₂ Entry.Same es es' → Same (.page j es total) (.page j es' total)
  | present (b : Bool) : Same (.present b) (.present b)

/-- The same fault, or the same reply. -/
inductive SameOutcome : Except Fault Reply → Except Fault Reply → Prop
  | ok {r r' : Reply} : r.Same r' → SameOutcome (.ok r) (.ok r')
  | error (f : Fault) : SameOutcome (.error f) (.error f)

/-- The entry that a call brings, if it brings one, is such as the catalogue makes. -/
def Call.BringsProper : Call → Prop
  | .create _ e | .update _ e => e.Proper
  | _ => True

end CostCatalog
