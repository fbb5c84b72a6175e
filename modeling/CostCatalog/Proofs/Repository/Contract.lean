import CostCatalog.Proofs.Cache.Transparency
import Mathlib.Logic.Function.Basic

/-!
# The contract of a repository

What a command relies on, whichever repository it is given. A `Keeping` says where entries are kept
as the callers see it; `Repository.Meets` is that the operations read and write just that and do not
fail of themselves. The repositories over a store meet the contract, with a cache in front or
without, `Repository.stored_meets` and `Repository.cached_meets`.

A repository may keep an entry in a form of its own as long as it is the same entry up to the normal
form of numbers and times: a double may serve the entry it was given, a store serves the normal
form.
-/

namespace CostCatalog

variable {k : Kind}

/-! ## Normal forms -/

/-- The audit fields with their times in normal form. -/
def Audit.normal (a : Audit) : Audit :=
  { a with
    createdAt := a.createdAt.map Timestamp.stored
    updatedAt := a.updatedAt.map Timestamp.stored }

namespace Entry

/-- An entry with its numbers and times in normal form. -/
def normal (e : Entry k) : Entry k := (withStoredBounds e).withAudit (audit e).normal

private theorem normal_normal (e : Entry k) : e.normal.normal = e.normal := by
  have htime (t : Option Timestamp) : (t.map Timestamp.stored).map Timestamp.stored =
      t.map Timestamp.stored := by cases t <;> rfl
  unfold normal
  rw [audit_withAudit, withStoredBounds_withAudit, withStoredBounds_withStoredBounds]
  simp only [Audit.normal, htime]
  cases k <;> rfl

/-- A new row is the normal form of an entry that was never changed. -/
private theorem inserted_eq_normal {e : Entry k} (hat : (audit e).updatedAt = none)
    (hby : (audit e).updatedBy = none) : e.inserted = e.normal := by
  rw [inserted, normal, Audit.inserted, Audit.normal, hat, hby, Option.map_none]

/-- A changed row is the normal form of an entry that was made when the old one was. -/
private theorem replaced_eq_normal {e old : Entry k} (hold : old.IsStored)
    (hat : (audit e).createdAt = (audit old).createdAt)
    (hby : (audit e).createdBy = (audit old).createdBy) : e.replaced old = e.normal := by
  rw [replaced, normal, Audit.replaced, Audit.normal, hat, hby, hold.audit.created]

end Entry

/-! ## The contract -/

/-- Where entries are kept, as the callers of a repository see it. -/
structure Keeping (k : Kind) where
  /-- The worlds in which the repository works. -/
  Works : World → Prop
  /-- The entry that is kept under a code. -/
  held? : World → Code k → Option (Entry k)
  /-- The entries that the repository takes. -/
  Admits : Entry k → Prop
  /-- The form in which an entry is kept. -/
  kept : Entry k → Entry k
  normal_kept : ∀ e, (kept e).normal = e.normal
  works_log : ∀ {w} records, Works w → Works { w with records }
  held?_log : ∀ w records, held? { w with records } = held? w
  code_eq : ∀ {w c e}, Works w → held? w c = some e → e.code = c

namespace Keeping

variable (v : Keeping k)

/-- Nothing that is kept has changed. -/
structure Unchanged (w w' : World) : Prop where
  works : v.Works w'
  held? : v.held? w' = v.held? w
  store : w'.store = w.store

/-- One entry is kept in the place of what was under its code, and nothing else has changed. -/
structure Stores (e : Entry k) (w w' : World) : Prop where
  works : v.Works w'
  held? : v.held? w' = Function.update (v.held? w) e.code (some (v.kept e))

/-- The entry under a code, or that there is none. -/
def found (w : World) (c : Code k) : Except Fault (Entry k) :=
  match v.held? w c with
  | some e => .ok e
  | none => .error (.ofRule (.notFound k))

variable {v} {w w₁ w₂ : World}

theorem Unchanged.refl (h : v.Works w) : v.Unchanged w w := ⟨h, rfl, rfl⟩

theorem Unchanged.trans (h : v.Unchanged w w₁) (h' : v.Unchanged w₁ w₂) : v.Unchanged w w₂ :=
  ⟨h'.works, h'.held?.trans h.held?, h'.store.trans h.store⟩

theorem Unchanged.stores {e : Entry k} (h : v.Unchanged w w₁) (h' : v.Stores e w₁ w₂) :
    v.Stores e w w₂ :=
  ⟨h'.works, by rw [h'.held?, h.held?]⟩

end Keeping

/-- A repository does what is asked of it and never fails of itself, in the worlds in which it
works. -/
structure Repository.Meets (repo : Repository k) (v : Keeping k) : Prop where
  contains : ∀ {w} c, v.Works w → ∃ w',
    (repo.contains c).perform w = (.ok (v.held? w c).isSome, w') ∧ v.Unchanged w w'
  find : ∀ {w} c, v.Works w → ∃ w',
    (repo.find c).perform w = (v.found w c, w') ∧ v.Unchanged w w'
  create : ∀ {w} {e : Entry k}, v.Works w → v.Admits e → v.held? w e.code = none →
    (Entry.audit e).updatedAt = none → (Entry.audit e).updatedBy = none →
    ∃ w', (repo.create e).perform w = (.ok (), w') ∧ v.Stores e w w'
  update : ∀ {w} {e old : Entry k}, v.Works w → v.Admits e → v.held? w e.code = some old →
    (Entry.audit e).createdAt = (Entry.audit old).createdAt →
    (Entry.audit e).createdBy = (Entry.audit old).createdBy →
    ∃ w', (repo.update e).perform w = (.ok (), w') ∧ v.Stores e w w'

/-! ## Stores -/

/-- A table can be written to, and takes what is admitted. -/
def Store.Takes (s : Store) (admits : Entry k → Prop) : Prop :=
  (∃ t : Table k, s.writable k = .ok t) ∧ ∀ e, admits e → s.referenceHolds e = true

namespace Store

variable {s : Store} {admits : Entry k → Prop} {t : Table k}

theorem Takes.withTable (h : s.Takes admits) (t : Table k) : (s.withTable t).Takes admits := by
  obtain ⟨⟨u, hu⟩, hadmits⟩ := h
  exact ⟨⟨t, writable_withTable hu t⟩,
    fun e he => (referenceHolds_withTable s t e).trans (hadmits e he)⟩

/-- The row with a code, if there is a table. -/
def row? (s : Store) (c : Code k) : Option (Entry k) := (s.table? k).bind fun t => t.find? c

theorem row?_of_table (h : s.table? k = some t) (c : Code k) : s.row? c = t.find? c := by
  rw [row?, h, Option.bind_some]

theorem row?_withTable (s : Store) (t : Table k) (c : Code k) :
    (s.withTable t).row? c = t.find? c :=
  row?_of_table (table?_withTable s t) c

private theorem contained_of_takes (h : s.Takes admits) (c : Code k) :
    s.contained c = .ok (s.row? c).isSome := by
  obtain ⟨⟨t, ht⟩, -⟩ := h
  rw [contained, contains_of_writable ht, row?_of_table (table?_of_writable ht)]
  rfl

private theorem found_of_takes (h : s.Takes admits) (c : Code k) :
    s.found c = match s.row? c with
      | some e => .ok e
      | none => .error (.ofRule (.notFound k)) := by
  obtain ⟨⟨t, ht⟩, -⟩ := h
  rw [found, find_of_writable ht, row?_of_table (table?_of_writable ht)]
  cases t.find? c <;> rfl

/-- A new entry is stored under its code. -/
private theorem created_of_takes (h : s.Takes admits) {e : Entry k} (he : admits e)
    (hfree : s.row? e.code = none) : ∃ s', s.created e = (.ok (), s') ∧ s'.Takes admits ∧
      s'.row? = Function.update s.row? e.code (some e.inserted) := by
  obtain ⟨t, ht⟩ := h.1
  have hrow := row?_of_table (table?_of_writable ht)
  obtain ⟨t', ht'⟩ := Table.insert?_of_free (t := t) (e := e) <| by
    rw [Table.contains, ← hrow, hfree]
    rfl
  refine ⟨s.withTable t', ?_, h.withTable t', funext fun c => ?_⟩
  · rw [created, insert_of_placed ht ht', if_pos (h.2 e he)]
  · rw [row?_withTable]
    by_cases hc : c = e.code
    · subst hc
      rw [Function.update_self, Table.find?_insert?_self ht']
    · rw [Function.update_of_ne hc, hrow, Table.find?_insert?_of_ne ht' hc]

/-- A changed entry is stored in the place of the old one. -/
private theorem updated_of_takes (h : s.Takes admits) {e old : Entry k} (he : admits e)
    (hold : s.row? e.code = some old) : ∃ s', s.updated e = (.ok (), s') ∧ s'.Takes admits ∧
      s'.row? = Function.update s.row? e.code (some (e.replaced old)) ∧ old.IsStored := by
  obtain ⟨t, ht⟩ := h.1
  have hrow := row?_of_table (table?_of_writable ht)
  rw [hrow] at hold
  refine ⟨s.withTable (t.replace e), ?_, h.withTable _, funext fun c => ?_,
    (Table.find?_spec hold).1⟩
  · rw [updated, update_of_present ht hold, if_pos (h.2 e he)]
    rfl
  · rw [row?_withTable]
    by_cases hc : c = e.code
    · subst hc
      rw [Function.update_self, Table.find?_replace_self hold]
    · rw [Function.update_of_ne hc, hrow, Table.find?_replace_of_ne hc]

end Store

/-- What is kept in a store that takes some entries, in worlds that are `good` besides. -/
def Keeping.inStore (good : World → Prop)
    (good_log : ∀ {w} records, good w → good { w with records }) (admits : Entry k → Prop) :
    Keeping k where
  Works w := w.store.Takes admits ∧ good w
  held? w := w.store.row?
  Admits := admits
  kept := Entry.normal
  normal_kept := Entry.normal_normal
  works_log records h := ⟨h.1, good_log records h.2⟩
  held?_log _ _ := rfl
  code_eq := by
    intro w c e _ he
    obtain ⟨t, -, hfind⟩ := Option.bind_eq_some_iff.mp he
    exact (Table.find?_spec hfind).2

namespace Repository

variable {repo : Repository k} {good : World → Prop}

/-- A repository answers out of the store in good worlds, and leaves good worlds. -/
structure AnswersFromStore (repo : Repository k) (good : World → Prop) : Prop where
  contains : ∀ {w} c, good w → ∃ w',
    (repo.contains c).perform w = (w.store.contained c, w') ∧ w'.store = w.store ∧ good w'
  find : ∀ {w} c, good w → ∃ w',
    (repo.find c).perform w = (w.store.found c, w') ∧ w'.store = w.store ∧ good w'
  create : ∀ {w} e, good w → ∃ w',
    (repo.create e).perform w = ((w.store.created e).1, w') ∧
      w'.store = (w.store.created e).2 ∧ good w'
  update : ∀ {w} e, good w → ∃ w',
    (repo.update e).perform w = ((w.store.updated e).1, w') ∧
      w'.store = (w.store.updated e).2 ∧ good w'

/-- Answering out of the store is enough to meet the contract. -/
theorem AnswersFromStore.meets (h : AnswersFromStore repo good)
    (good_log : ∀ {w} records, good w → good { w with records }) (admits : Entry k → Prop) :
    repo.Meets (.inStore good good_log admits) where
  contains c hw := by
    obtain ⟨w', hrun, hstore, hgood⟩ := h.contains c hw.2
    refine ⟨w', ?_, ⟨hstore ▸ hw.1, hgood⟩, congrArg Store.row? hstore, hstore⟩
    rw [hrun, Store.contained_of_takes hw.1]
    rfl
  find c hw := by
    obtain ⟨w', hrun, hstore, hgood⟩ := h.find c hw.2
    refine ⟨w', ?_, ⟨hstore ▸ hw.1, hgood⟩, congrArg Store.row? hstore, hstore⟩
    rw [hrun, Store.found_of_takes hw.1]
    rfl
  create {w e} hw he hfree hat hby := by
    obtain ⟨w', hrun, hstore, hgood⟩ := h.create e hw.2
    obtain ⟨s', hcreated, htakes, hrow⟩ := Store.created_of_takes hw.1 he hfree
    rw [hcreated] at hrun hstore
    refine ⟨w', hrun, ⟨hstore ▸ htakes, hgood⟩, ?_⟩
    rw [Entry.inserted_eq_normal hat hby] at hrow
    exact (congrArg Store.row? hstore).trans hrow
  update {w e old} hw he hold hat hby := by
    obtain ⟨w', hrun, hstore, hgood⟩ := h.update e hw.2
    obtain ⟨s', hupdated, htakes, hrow, holdStored⟩ := Store.updated_of_takes hw.1 he hold
    rw [hupdated] at hrun hstore
    refine ⟨w', hrun, ⟨hstore ▸ htakes, hgood⟩, ?_⟩
    rw [Entry.replaced_eq_normal holdStored hat hby] at hrow
    exact (congrArg Store.row? hstore).trans hrow

private theorem stored_answersFromStore : AnswersFromStore (stored k) fun _ => True := by
  refine ⟨?_, ?_, ?_, ?_⟩
  · intro w c _
    obtain ⟨records, hrun⟩ := performs_storedContains w c
    exact ⟨_, hrun, rfl, trivial⟩
  · intro w c _
    obtain ⟨records, hrun⟩ := performs_storedFind w c
    exact ⟨_, hrun, rfl, trivial⟩
  · intro w e _
    obtain ⟨records, hrun⟩ := performs_storedCreate w e
    exact ⟨_, hrun, rfl, trivial⟩
  · intro w e _
    obtain ⟨records, hrun⟩ := performs_storedUpdate w e
    exact ⟨_, hrun, rfl, trivial⟩

private theorem cached_answersFromStore {stem : String} (hplain : ∀ c ∈ stem.toList, Glob.IsPlain c)
    {ttl : Int} (hlast : Cache.CanLast ttl) :
    AnswersFromStore (cached (stored k) ttl) fun w => w.Serves stem := by
  refine ⟨?_, ?_, ?_, ?_⟩
  · intro w c h
    obtain ⟨records, hrun⟩ := performs_storedContains w c
    exact ⟨_, hrun, rfl, h.logged records⟩
  · intro w c h
    obtain ⟨y, w', hrun, hstore, hserves, hy⟩ := cachedFind_spec h ttl (fun _ => trivial) c
    rw [hy.eq_of_canLast hlast] at hrun
    exact ⟨w', hrun, hstore, hserves⟩
  · intro w e h
    exact change_spec h (performs_storedCreate w e) (Store.created_changes w.store e)
      (forgetEntry_forgets hplain e.code)
  · intro w e h
    exact change_spec h (performs_storedUpdate w e) (Store.updated_changes w.store e)
      (forgetEntry_forgets hplain e.code)

/-- The repository over a store meets the contract. -/
theorem stored_meets (admits : Entry k → Prop) :
    (stored k).Meets (.inStore (fun _ => True) (fun _ h => h) admits) :=
  stored_answersFromStore.meets _ admits

/-- So does the repository behind a cache that is coherent with the store, if it keeps entries for a
time that a double holds. -/
theorem cached_meets {stem : String} (hplain : ∀ c ∈ stem.toList, Glob.IsPlain c) {ttl : Int}
    (hlast : Cache.CanLast ttl) (admits : Entry k → Prop) :
    (cached (stored k) ttl).Meets
      (.inStore (fun w => w.Serves stem) (fun records h => h.logged records) admits) :=
  (cached_answersFromStore hplain hlast).meets _ admits

end Repository

end CostCatalog
