import CostCatalog.Proofs.Repository.Contract

/-!
# What a statement does to a row

A row is what a store shows under a code, `Store.row?`. A statement on a code gives the row of that
code a new form or takes it away; the row of any other code, of either kind, stays as it is, unless it
names a unit that is deleted while references are enforced.
-/

namespace CostCatalog

variable {j k : Kind}

/-- A code with its kind, which tells it from the codes of the other kind. -/
def Code.key (c : Code k) : Kind × String := (k, c.text)

theorem Code.key_injective {c d : Code k} (h : c.key = d.key) : c = d :=
  Code.ext_text (congrArg Prod.snd h)

/-- An entry without a unit. -/
def Entry.unreferenced : {k : Kind} → Entry k → Entry k
  | .uom, u => u
  | .parameter, p => { (p : Parameter) with uom := none }

@[simp] theorem Entry.audit_unreferenced (e : Entry k) : e.unreferenced.audit = e.audit := by
  cases k <;> rfl

namespace Store

variable {s s' : Store}

/-- A row has the code under which it is found, and is in normal form. -/
theorem row?_spec {c : Code k} {e : Entry k} (h : s.row? c = some e) :
    e.IsStored ∧ e.code = c := by
  obtain ⟨t, -, ht⟩ := Option.bind_eq_some_iff.mp h
  exact Table.find?_spec ht

/-- A statement that changes a table under one code leaves the rows of all other codes. -/
theorem row?_withTable_of_ne {t t' : Table j} (ht : s.table? j = some t) {c : Code k} {d : Code j}
    (hc : c.key ≠ d.key) (hframe : ∀ b, b ≠ d → t'.find? b = t.find? b) :
    (s.withTable t').row? c = s.row? c := by
  by_cases hk : k = j
  · subst hk
    have hne : c ≠ d := fun h => hc (congrArg Code.key h)
    rw [row?_withTable, row?_of_table ht, hframe c hne]
  · rw [row?, row?, table?_withTable_of_ne hk]

/-- A new row was not there before. -/
theorem row?_insert {e : Entry k} (h : s.insert e = .ok s') :
    s.row? e.code = none ∧ s'.row? e.code = some e.inserted := by
  obtain ⟨t, t', ht, ht', rfl⟩ := insert_ok h
  rw [row?_of_table (table?_of_writable ht), row?_withTable]
  refine ⟨?_, Table.find?_insert?_self ht'⟩
  cases hfind : t.find? e.code with
  | none => rfl
  | some old =>
    have htaken : t.contains e.code = true := by rw [Table.contains, hfind]; rfl
    rw [insert_of_taken ht htaken] at h
    cases h

theorem row?_insert_of_ne {e : Entry j} (h : s.insert e = .ok s') {c : Code k}
    (hc : c.key ≠ e.code.key) : s'.row? c = s.row? c := by
  obtain ⟨t, t', ht, ht', rfl⟩ := insert_ok h
  exact row?_withTable_of_ne (table?_of_writable ht) hc fun b hb => Table.find?_insert?_of_ne ht' hb

/-- A changed row is put in the place of the old one. -/
theorem row?_update {e : Entry k} (h : s.update e = .ok (true, s')) :
    ∃ old, s.row? e.code = some old ∧ s'.row? e.code = some (e.replaced old) := by
  obtain ⟨t, ht, hfound, rfl⟩ := update_ok h
  obtain ⟨old, hold⟩ := Option.isSome_iff_exists.mp hfound.symm
  refine ⟨old, (row?_of_table (table?_of_writable ht) _).trans hold, ?_⟩
  rw [if_pos rfl, row?_withTable]
  exact Table.find?_replace_self hold

theorem row?_update_of_ne {e : Entry j} (h : s.update e = .ok (true, s')) {c : Code k}
    (hc : c.key ≠ e.code.key) : s'.row? c = s.row? c := by
  obtain ⟨t, ht, -, rfl⟩ := update_ok h
  rw [if_pos rfl]
  exact row?_withTable_of_ne (table?_of_writable ht) hc fun b hb => Table.find?_replace_of_ne hb

/-- The end of a unit is seen in the rows that name it, if references are enforced. -/
theorem row?_afterDelete (d : Code j) (c : Code k) (s : Store) :
    (afterDelete d s).row? c = s.row? c ∨
      ∃ e, s.row? c = some e ∧ j = .uom ∧ e.reference? = some d.text ∧
        (afterDelete d s).row? c = some e.unreferenced := by
  cases j with
  | parameter => exact Or.inl rfl
  | uom =>
    cases k with
    | uom =>
      have htable : (afterDelete d s).table? .uom = s.table? .uom :=
        table?_afterDelete (j := .uom) d (fun _ => Kind.noConfusion) s
      exact Or.inl (by rw [row?, htable, row?])
    | parameter =>
      simp only [afterDelete, clearReferences]
      split
      case isFalse => exact Or.inl rfl
      case isTrue =>
        cases ht : s.parameters with
        | none => exact Or.inl (by simp [row?, table?, ht])
        | some t =>
          have hrow : s.row? c = t.find? c := row?_of_table (k := .parameter) ht c
          have hcleared : Store.row? { s with
              parameters := some (t.mapRows (Parameter.clearUom d.text)
                (Parameter.code_clearUom d.text) fun _ h => Parameter.clearUom_isStored h d.text) } c =
              (t.find? c).map (Parameter.clearUom d.text) :=
            (row?_of_table rfl c).trans (Table.find?_mapRows c)
          rw [Option.map_some, hcleared, hrow]
          cases t.find? c with
          | none => exact Or.inl rfl
          | some p =>
            by_cases hnames : Parameter.uom p = some d.text
            · refine Or.inr ⟨p, rfl, trivial, hnames, ?_⟩
              rw [Option.map_some, Parameter.clearUom, if_pos hnames]
              rfl
            · refine Or.inl ?_
              rw [Option.map_some, Parameter.clearUom, if_neg hnames]

theorem row?_delete {c : Code k} (h : s.delete c = .ok (true, s')) : s'.row? c = none := by
  obtain ⟨t, ht, -, rfl⟩ := delete_ok h
  have herased : (s.withTable (t.erase c)).row? c = none := by
    rw [row?_withTable, Table.find?_erase_self]
  rw [if_pos rfl]
  rcases row?_afterDelete c c (s.withTable (t.erase c)) with hsame | ⟨e, he, -⟩
  · rw [hsame, herased]
  · rw [herased] at he
    cases he

theorem row?_delete_of_ne {d : Code j} (h : s.delete d = .ok (true, s')) {c : Code k}
    (hc : c.key ≠ d.key) : s'.row? c = s.row? c ∨
      ∃ e, s.row? c = some e ∧ j = .uom ∧ e.reference? = some d.text ∧
        s'.row? c = some e.unreferenced := by
  obtain ⟨t, ht, -, rfl⟩ := delete_ok h
  rw [if_pos rfl]
  have hframe : (s.withTable (t.erase d)).row? c = s.row? c :=
    row?_withTable_of_ne (table?_of_writable ht) hc fun b hb => Table.find?_erase_of_ne hb
  rw [← hframe]
  exact row?_afterDelete d c _

end Store

end CostCatalog
