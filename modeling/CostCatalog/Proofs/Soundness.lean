import CostCatalog.Proofs.Codes
import CostCatalog.Proofs.Program.Runs
import CostCatalog.Proofs.Store

/-!
# Sound stores

What can be said of every entry that a store holds. No statement looks at it: rows go in and are
changed as they come. So a store is sound only as long as what is asked of it is careful,
`Request.Careful`; and then it stays so, `World.answer_sound`. An entry that changes is not asked to
be sound throughout: who made it is taken from the row that it replaces.
-/

namespace CostCatalog

variable {k : Kind}

namespace Entry

/-- The name of an entry. -/
def name : {k : Kind} → Entry k → String
  | .uom, u => Uom.name u
  | .parameter, p => Parameter.name p

/-- There is something to choose from where there is a choice. -/
def HasOptions : {k : Kind} → Entry k → Prop
  | .uom, _ => True
  | .parameter, p => Parameter.dataType p = .dropdown → Parameter.allowedValues p ≠ []

/-- What is true of a stored entry. -/
structure Sound (e : Entry k) : Prop where
  code : Code.HasPattern k e.code.text
  name : e.name ≠ ""
  createdBy : e.audit.createdBy ≠ ""
  updated : e.audit.updatedAt = none ∧ e.audit.updatedBy = none ∨
    ∃ t actor, e.audit.updatedAt = some t ∧ e.audit.updatedBy = some actor ∧ actor ≠ ""
  options : e.HasOptions

/-- An entry that may be stored as a new one. -/
structure Presentable (e : Entry k) : Prop where
  name : e.name ≠ ""
  createdBy : e.audit.createdBy ≠ ""
  options : e.HasOptions

/-- An entry that may take the place of an old one: someone has changed it. -/
structure Revised (e : Entry k) : Prop where
  name : e.name ≠ ""
  changed : ∃ t actor, e.audit.updatedAt = some t ∧ e.audit.updatedBy = some actor ∧ actor ≠ ""
  options : e.HasOptions

theorem name_withAudit (e : Entry k) (a : Audit) : (e.withAudit a).name = e.name := by
  cases k <;> rfl

theorem name_withStoredBounds (e : Entry k) : (withStoredBounds e).name = e.name := by
  cases k <;> rfl

theorem hasOptions_withAudit (e : Entry k) (a : Audit) :
    (e.withAudit a).HasOptions ↔ e.HasOptions := by
  cases k <;> rfl

theorem hasOptions_withStoredBounds (e : Entry k) :
    (withStoredBounds e).HasOptions ↔ e.HasOptions := by
  cases k <;> rfl

private theorem Presentable.inserted_sound {e : Entry k} (h : e.Presentable) : e.inserted.Sound where
  code := Code.isWellFormed_iff.mp e.inserted.code.wellFormed
  name := by
    rw [inserted, name_withAudit, name_withStoredBounds]
    exact h.name
  createdBy := by
    rw [inserted, audit_withAudit]
    exact h.createdBy
  updated := by
    rw [inserted, audit_withAudit]
    exact Or.inl ⟨rfl, rfl⟩
  options := by
    rw [inserted, hasOptions_withAudit, hasOptions_withStoredBounds]
    exact h.options

private theorem Revised.replaced_sound {e old : Entry k} (h : e.Revised) (hold : old.Sound) :
    (e.replaced old).Sound where
  code := Code.isWellFormed_iff.mp (e.replaced old).code.wellFormed
  name := by
    rw [replaced, name_withAudit, name_withStoredBounds]
    exact h.name
  createdBy := by
    rw [replaced, audit_withAudit]
    exact hold.createdBy
  updated := by
    obtain ⟨t, actor, ht, hactor, hne⟩ := h.changed
    rw [replaced, audit_withAudit]
    exact Or.inr ⟨_, actor, congrArg (Option.map Timestamp.stored) ht, hactor, hne⟩
  options := by
    rw [replaced, hasOptions_withAudit, hasOptions_withStoredBounds]
    exact h.options

theorem Sound.clearUom {p : Parameter} (h : Sound (k := .parameter) p) (u : String) :
    Sound (k := .parameter) (p.clearUom u) := by
  unfold Parameter.clearUom
  split
  · exact ⟨h.code, h.name, h.createdBy, h.updated, h.options⟩
  · exact h

end Entry

/-! ## Tables and stores -/

/-- Every row of a table is sound, and is the only one with its code. -/
structure Table.Sound (t : Table k) : Prop where
  entries : ∀ e ∈ t.rows, e.Sound
  unique : (t.rows.map Entry.code).Nodup

namespace Table

/-- No two rows have one code, whatever they are. -/
theorem sound_of_entries {t : Table k} (h : ∀ e ∈ t.rows, e.Sound) : t.Sound where
  entries := h
  unique := by
    refine List.pairwise_map.mpr (t.sorted.imp fun {a b} hbefore hcode => ?_)
    rw [Entry.Before, hcode] at hbefore
    exact String.lt_irrefl _ hbefore

theorem Sound.insert? {t t' : Table k} (h : t.Sound) {e : Entry k} (he : e.Presentable)
    (hinsert : t.insert? e = some t') : t'.Sound := by
  unfold Table.insert? at hinsert
  split at hinsert
  · cases hinsert
    refine sound_of_entries fun x hx => ?_
    rcases mem_place.mp hx with rfl | hx
    · exact he.inserted_sound
    · exact h.entries x hx
  · cases hinsert

theorem Sound.mapRows {t : Table k} (h : t.Sound) {f : Entry k → Entry k} {code_eq isStored}
    (hf : ∀ e : Entry k, e.Sound → (f e).Sound) : (t.mapRows f code_eq isStored).Sound :=
  sound_of_entries (List.forall_mem_map.mpr fun e he => hf e (h.entries e he))

theorem Sound.replace {t : Table k} (h : t.Sound) {e : Entry k} (he : e.Revised) :
    (t.replace e).Sound :=
  h.mapRows fun old hold => by
    split
    · exact he.replaced_sound hold
    · exact hold

theorem Sound.erase {t : Table k} (h : t.Sound) (c : Code k) : (t.erase c).Sound :=
  sound_of_entries fun e he => h.entries e (List.mem_filter.mp he).1

end Table

/-- The tables of a store are there and sound. -/
def Store.Sound (s : Store) : Prop := ∀ k, ∃ t : Table k, s.table? k = some t ∧ t.Sound

namespace Store.Sound

variable {s s' : Store}

theorem withTable (h : s.Sound) {t : Table k} (ht : t.Sound) : (s.withTable t).Sound := by
  intro j
  by_cases hj : j = k
  · subst hj
    exact ⟨t, table?_withTable s t, ht⟩
  · rw [table?_withTable_of_ne hj]
    exact h j

theorem of_writable (h : s.Sound) {t : Table k} (ht : s.writable k = .ok t) : t.Sound := by
  obtain ⟨u, hu, hsound⟩ := h k
  cases (table?_of_writable ht).symm.trans hu
  exact hsound

theorem insert (h : s.Sound) {e : Entry k} (he : e.Presentable) (hinsert : s.insert e = .ok s') :
    s'.Sound := by
  obtain ⟨t, t', ht, ht', rfl⟩ := insert_ok hinsert
  exact h.withTable ((h.of_writable ht).insert? he ht')

theorem update (h : s.Sound) {e : Entry k} (he : e.Revised) {found : Bool}
    (hupdate : s.update e = .ok (found, s')) : s'.Sound := by
  obtain ⟨t, ht, -, rfl⟩ := update_ok hupdate
  split
  · exact h.withTable ((h.of_writable ht).replace he)
  · exact h

/-- The end of a unit leaves the parameters without it. -/
theorem clearReferences (h : s.Sound) (u : String) : (s.clearReferences u).Sound := by
  unfold Store.clearReferences
  split
  · intro j
    obtain ⟨t, ht, hsound⟩ := h j
    cases j with
    | uom => exact ⟨t, ht, hsound⟩
    | parameter => exact ⟨_, congrArg (Option.map _) ht, hsound.mapRows fun _ hp => hp.clearUom u⟩
  · exact h

theorem delete (h : s.Sound) {c : Code k} {found : Bool} (hdelete : s.delete c = .ok (found, s')) :
    s'.Sound := by
  obtain ⟨t, ht, -, rfl⟩ := delete_ok hdelete
  split
  · have herased := h.withTable ((h.of_writable ht).erase c)
    cases k with
    | uom => exact herased.clearReferences c.text
    | parameter => exact herased
  · exact h

end Store.Sound

/-! ## Requests -/

/-- What is stored by a request is fit to be. -/
def Request.Careful : Request → Prop
  | .insert _ e => e.Presentable
  | .update _ e => e.Revised
  | _ => True

/-- A careful request leaves a sound store sound. -/
theorem World.answer_sound {w : World} (h : w.store.Sound) {r : Request} (hr : r.Careful) :
    (w.answer r).2.store.Sound := by
  cases r with
  | insert k e =>
    cases hinsert : w.store.insert e with
    | ok s => rw [answer_insert_ok hinsert]; exact h.insert hr hinsert
    | error f => rw [answer_insert_error hinsert]; exact h
  | update k e =>
    simp only [answer, onRow]
    split
    · next heq => exact h.update hr heq
    · exact h
  | delete k c =>
    simp only [answer, onRow]
    split
    · next heq => exact h.delete heq
    · exact h
  | cacheGet | cacheSet | cacheDelete => exact (w.onCache_frame ..).2.symm ▸ h
  | cacheDeleteMatching pattern => exact (w.deleteMatching_frame pattern).2.symm ▸ h
  | find | count | page | contains | now | log | mark => exact h

end CostCatalog
