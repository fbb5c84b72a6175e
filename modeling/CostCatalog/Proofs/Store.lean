import CostCatalog.Store.Basic

/-!
# What a statement changes

Frame lemmas: a statement on one code leaves the rows of every other code of its kind as they are,
and the other table too, unless it deletes a unit and references are enforced. What is found in a
table is in normal form.
-/

namespace CostCatalog

variable {k : Kind}

/-! ## Rows of other codes -/

namespace Table

private theorem find?_place {e : Entry k} {p : Entry k → Bool} (h : p e = false)
    (xs : List (Entry k)) : (place e xs).find? p = xs.find? p := by
  induction xs with
  | nil => rw [place, List.find?_cons_of_neg (Bool.eq_false_iff.mp h)]
  | cons x xs ih =>
    unfold place
    split
    · rw [List.find?_cons_of_neg (Bool.eq_false_iff.mp h)]
    · rw [List.find?_cons, List.find?_cons, ih]

private theorem find?_place_self {e : Entry k} {p : Entry k → Bool} (h : p e = true)
    {xs : List (Entry k)} (hxs : ∀ x ∈ xs, p x = false) : (place e xs).find? p = some e := by
  induction xs with
  | nil => rw [place, List.find?_cons_of_pos h]
  | cons x xs ih =>
    unfold place
    split
    · rw [List.find?_cons_of_pos h]
    · rw [List.find?_cons_of_neg (Bool.eq_false_iff.mp (hxs x (List.mem_cons_self ..)))]
      exact ih fun y hy => hxs y (List.mem_cons_of_mem x hy)

theorem find?_insert?_of_ne {t t' : Table k} {e : Entry k} (h : t.insert? e = some t') {c : Code k}
    (hc : c ≠ e.code) : t'.find? c = t.find? c := by
  unfold insert? at h
  split at h
  · cases h
    refine find?_place (decide_eq_false ?_) t.rows
    rw [Entry.code_inserted]
    exact hc.symm
  · cases h

theorem contains_eq_false {t : Table k} {c : Code k} :
    t.contains c = false ↔ ∀ x ∈ t.rows, x.code ≠ c := by
  rw [contains, Option.isSome_eq_false_iff, Option.isNone_iff_eq_none, find?, List.find?_eq_none]
  simp only [decide_eq_true_eq, ne_eq]

/-- There is room for a new row under a code that is free. -/
theorem insert?_of_free {t : Table k} {e : Entry k} (h : t.contains e.code = false) :
    ∃ t', t.insert? e = some t' := by
  unfold insert?
  rw [dif_pos]
  · exact ⟨_, rfl⟩
  · rw [Entry.code_inserted, ← contains_eq_false, h]

/-- A new row is found under its code. -/
theorem find?_insert?_self {t t' : Table k} {e : Entry k} (h : t.insert? e = some t') :
    t'.find? e.code = some e.inserted := by
  unfold insert? at h
  split at h
  · next hfree =>
    cases h
    rw [Entry.code_inserted] at hfree
    exact find?_place_self (decide_eq_true (Entry.code_inserted e)) fun x hx =>
      decide_eq_false (hfree x hx)
  · cases h

/-- What is found after a change of the rows is the changed one of what was found. -/
theorem find?_mapRows {t : Table k} {f : Entry k → Entry k}
    {code_eq : ∀ e, (f e).code = e.code} {isStored : ∀ e : Entry k, e.IsStored → (f e).IsStored}
    (c : Code k) : (t.mapRows f code_eq isStored).find? c = (t.find? c).map f := by
  unfold find? mapRows
  rw [List.find?_map]
  have hcode : ((fun e : Entry k => decide (e.code = c)) ∘ f) = fun e => decide (e.code = c) := by
    funext e
    rw [Function.comp_apply, code_eq]
  rw [hcode]

theorem find?_replace_of_ne {t : Table k} {e : Entry k} {c : Code k} (h : c ≠ e.code) :
    (t.replace e).find? c = t.find? c := by
  rw [replace, find?_mapRows]
  cases hfind : t.find? c with
  | none => rfl
  | some old =>
    have hold : old.code = c := by simpa using List.find?_some hfind
    rw [Option.map_some, if_neg (hold ▸ h)]

/-- A changed row is found under its code, in the place of the old one. -/
theorem find?_replace_self {t : Table k} {e old : Entry k} (h : t.find? e.code = some old) :
    (t.replace e).find? e.code = some (e.replaced old) := by
  have hold : old.code = e.code := by simpa using List.find?_some h
  rw [replace, find?_mapRows, h, Option.map_some, if_pos hold]

theorem find?_erase_self (t : Table k) (c : Code k) : (t.erase c).find? c = none := by
  unfold find? erase
  rw [List.find?_eq_none]
  intro x hx
  simpa using (List.mem_filter.mp hx).2

theorem find?_erase_of_ne {t : Table k} {c d : Code k} (h : c ≠ d) :
    (t.erase d).find? c = t.find? c := by
  unfold find? erase
  rw [List.find?_filter]
  congr 1
  funext e
  by_cases he : e.code = c
  · simp only [he, h, decide_false, Bool.not_false, decide_true, and_self]
  · simp only [he, decide_false, Bool.false_eq_true, and_false]

/-- A row is found under its code: no other row has that code. -/
theorem find?_of_mem {t : Table k} {e : Entry k} (h : e ∈ t.rows) : t.find? e.code = some e := by
  have hsorted := t.sorted
  unfold find?
  revert hsorted h
  generalize t.rows = rows
  intro h hsorted
  induction rows with
  | nil => cases h
  | cons x xs ih =>
    obtain ⟨hx, hxs⟩ := List.pairwise_cons.mp hsorted
    rcases List.mem_cons.mp h with rfl | hmem
    · exact List.find?_cons_of_pos (decide_eq_true rfl)
    · have hne : x.code ≠ e.code := fun hcode => by
        have hbefore := hx e hmem
        rw [Entry.Before, hcode] at hbefore
        exact String.lt_irrefl _ hbefore
      rw [List.find?_cons_of_neg (by simpa using hne)]
      exact ih hmem hxs

/-- What is found is in normal form and has the code it was looked for under. -/
theorem find?_spec {t : Table k} {c : Code k} {e : Entry k} (h : t.find? c = some e) :
    e.IsStored ∧ e.code = c :=
  ⟨t.stored e (List.mem_of_find?_eq_some h), by simpa using List.find?_some h⟩

end Table

/-! ## The other table -/

namespace Store

variable {s s' : Store}

theorem table?_withTable (s : Store) (t : Table k) : (s.withTable t).table? k = some t := by
  cases k <;> rfl

theorem table?_withTable_of_ne {j : Kind} (h : j ≠ k) (s : Store) (t : Table k) :
    (s.withTable t).table? j = s.table? j := by
  cases j <;> cases k <;> first | rfl | exact absurd rfl h

/-- The end of a unit reaches the parameters; every other deletion stays with its table. -/
theorem table?_afterDelete (c : Code k) {j : Kind} (h : k = .uom → j ≠ .parameter) (s : Store) :
    (afterDelete c s).table? j = s.table? j := by
  cases k with
  | parameter => rfl
  | uom =>
    have hj := h rfl
    cases j with
    | parameter => exact absurd rfl hj
    | uom =>
      simp only [afterDelete, clearReferences]
      split <;> rfl

/-! ## Statements -/

theorem table?_of_writable {t : Table k} (h : s.writable k = .ok t) : s.table? k = some t := by
  unfold writable at h
  cases ht : s.table? k with
  | none => rw [ht] at h; cases h
  | some t' =>
    rw [ht] at h
    simp only at h
    split at h
    · cases h; rfl
    · cases h

theorem writable_withTable {t : Table k} (h : s.writable k = .ok t) (t' : Table k) :
    (s.withTable t').writable k = .ok t' := by
  have hcan : (s.withTable t').canWrite k = s.canWrite k := by cases k <;> rfl
  unfold writable at h ⊢
  rw [table?_withTable, hcan]
  rw [table?_of_writable h] at h
  simp only at h ⊢
  split at h
  · next hc => rw [if_pos hc]
  · cases h

/-- Whether a code is taken is asked of the table. -/
theorem contains_of_writable {t : Table k} (h : s.writable k = .ok t) (c : Code k) :
    s.contains c = .ok (t.contains c) := by
  rw [contains, readable, table?_of_writable h]
  rfl

theorem find_of_writable {t : Table k} (h : s.writable k = .ok t) (c : Code k) :
    s.find c = .ok (t.find? c) := by
  rw [find, readable, table?_of_writable h]
  rfl

/-- A code that is taken is refused. -/
theorem insert_of_taken {t : Table k} (h : s.writable k = .ok t) {e : Entry k}
    (htaken : t.contains e.code = true) :
    s.insert e = .error (.integrity ("UNIQUE constraint failed: " ++ tableName k)) := by
  have hrefused : t.insert? e = none := by
    unfold Table.insert?
    rw [dif_neg]
    rw [Entry.code_inserted, ← Table.contains_eq_false, htaken]
    exact Bool.noConfusion
  unfold insert
  rw [h]
  simp only [bind, Except.bind, hrefused]

/-- A code that is free is taken or not by the unit that the entry names. -/
theorem insert_of_placed {t t' : Table k} (h : s.writable k = .ok t) {e : Entry k}
    (hplaced : t.insert? e = some t') :
    s.insert e = if s.referenceHolds e then .ok (s.withTable t') else .error danglingReference := by
  unfold insert
  rw [h]
  simp only [bind, Except.bind, hplaced]

/-- A code that is free is taken, when the unit that the entry names is there. -/
theorem insert_of_free {t : Table k} (h : s.writable k = .ok t) {e : Entry k}
    (hfree : t.contains e.code = false) (href : s.referenceHolds e = true) :
    ∃ t', s.insert e = .ok (s.withTable t') ∧ t'.find? e.code = some e.inserted := by
  obtain ⟨t', ht'⟩ := Table.insert?_of_free hfree
  exact ⟨t', by rw [insert_of_placed h ht', if_pos href], Table.find?_insert?_self ht'⟩

/-- Whether a unit is there is not changed by what is stored of the same kind. -/
theorem referenceHolds_withTable (s : Store) (t : Table k) (e : Entry k) :
    (s.withTable t).referenceHolds e = s.referenceHolds e := by
  cases k <;> rfl

theorem referenceHolds_afterDelete (c : Code k) (s : Store) (e : Entry k) :
    (afterDelete c s).referenceHolds e = s.referenceHolds e := by
  cases k with
  | uom =>
    simp only [afterDelete, clearReferences]
    split <;> rfl
  | parameter => rfl

theorem referenceHolds_withAudit (s : Store) (e : Entry k) (a : Audit) :
    s.referenceHolds (e.withAudit a) = s.referenceHolds e := by
  cases k <;> rfl

theorem writable_afterDelete {t : Table k} (h : s.writable k = .ok t) (c : Code k) :
    (afterDelete c s).writable k = .ok t := by
  cases k with
  | uom =>
    simp only [afterDelete, clearReferences]
    split <;> exact h
  | parameter => exact h

/-- A change of a code that is not there changes nothing. -/
theorem update_of_absent {t : Table k} (h : s.writable k = .ok t) {e : Entry k}
    (habsent : t.find? e.code = none) : s.update e = .ok (false, s) := by
  unfold update
  rw [h]
  simp only [bind, Except.bind, Table.contains, habsent, Option.isSome_none, Bool.false_eq_true,
    if_false]

/-- A change of a code that is there is stored, when the unit that the entry names is there. -/
theorem update_of_present {t : Table k} (h : s.writable k = .ok t) {e old : Entry k}
    (hold : t.find? e.code = some old) :
    s.update e = if s.referenceHolds e then .ok (true, s.withTable (t.replace e))
      else .error danglingReference := by
  unfold update
  rw [h]
  simp only [bind, Except.bind, Table.contains, hold, Option.isSome_some, if_true]

theorem delete_of_absent {t : Table k} (h : s.writable k = .ok t) {c : Code k}
    (habsent : t.find? c = none) : s.delete c = .ok (false, s) := by
  unfold delete
  rw [h]
  simp only [bind, Except.bind, Table.contains, habsent, Option.isSome_none, Bool.false_eq_true,
    if_false]

theorem delete_of_present {t : Table k} (h : s.writable k = .ok t) {c : Code k} {e : Entry k}
    (he : t.find? c = some e) :
    s.delete c = .ok (true, afterDelete c (s.withTable (t.erase c))) := by
  unfold delete
  rw [h]
  simp only [bind, Except.bind, Table.contains, he, Option.isSome_some, if_true]

/-- A code of a table that can be written to is taken. -/
def IsTaken (s : Store) (c : Code k) : Prop :=
  ∃ t, s.writable k = .ok t ∧ t.contains c = true

/-- An insertion puts the new row into its table. -/
theorem insert_ok {e : Entry k} (h : s.insert e = .ok s') :
    ∃ t t', s.writable k = .ok t ∧ t.insert? e = some t' ∧ s' = s.withTable t' := by
  unfold insert at h
  cases ht : s.writable k with
  | error f => rw [ht] at h; cases h
  | ok t =>
    rw [ht] at h
    simp only [bind, Except.bind] at h
    cases hi : t.insert? e with
    | none => rw [hi] at h; cases h
    | some t' =>
      rw [hi] at h
      simp only at h
      split at h
      · cases h; exact ⟨t, t', rfl, hi, rfl⟩
      · cases h

/-- A change finds no row, or puts the changed one in its place. -/
theorem update_ok {e : Entry k} {found : Bool} (h : s.update e = .ok (found, s')) :
    ∃ t, s.writable k = .ok t ∧ found = t.contains e.code ∧
      s' = if found then s.withTable (t.replace e) else s := by
  unfold update at h
  cases ht : s.writable k with
  | error f => rw [ht] at h; cases h
  | ok t =>
    rw [ht] at h
    simp only [bind, Except.bind] at h
    split at h
    · next hfound =>
      split at h
      · cases h; exact ⟨t, rfl, hfound.symm, rfl⟩
      · cases h
    · next hfound => cases h; exact ⟨t, rfl, (Bool.eq_false_iff.mpr hfound).symm, rfl⟩

/-- A deletion finds no row, or takes it away, and with a unit what refers to it. -/
theorem delete_ok {c : Code k} {found : Bool} (h : s.delete c = .ok (found, s')) :
    ∃ t, s.writable k = .ok t ∧ found = t.contains c ∧
      s' = if found then afterDelete c (s.withTable (t.erase c)) else s := by
  unfold delete at h
  cases ht : s.writable k with
  | error f => rw [ht] at h; cases h
  | ok t =>
    rw [ht] at h
    simp only [bind, Except.bind] at h
    split at h
    · next hfound => cases h; exact ⟨t, rfl, hfound.symm, rfl⟩
    · next hfound => cases h; exact ⟨t, rfl, (Bool.eq_false_iff.mpr hfound).symm, rfl⟩

end Store

end CostCatalog
