import CostCatalog.Proofs.Repository.Holdings
import CostCatalog.Proofs.Samples

/-!
# The repositories keep holdings

The repositories over a store behave as two maps do, `Call.trace_refines`: call by call they reply
what the maps reply and leave what the maps leave. The relation that is kept is
`Holdings.Describes`; one lemma says what a write under one code does to it, and each call is an
instance.
-/

namespace CostCatalog

variable {k : Kind}

/-- The units that are there are the texts that spell the code of a row. -/
private theorem Table.any_text_eq (t : Table .uom) (u : String) :
    (t.rows.any fun x => (Uom.code x).text == u) = ((Code.ofText? .uom u).bind t.find?).isSome := by
  rw [Bool.eq_iff_iff, List.any_eq_true, Option.isSome_iff_exists]
  constructor
  · rintro ⟨x, hx, hu⟩
    refine ⟨x, ?_⟩
    rw [← eq_of_beq hu, Code.ofText?_text, Option.bind_some]
    exact find?_of_mem hx
  · rintro ⟨x, hx⟩
    obtain ⟨c, hc, hfind⟩ := Option.bind_eq_some_iff.mp hx
    refine ⟨x, List.mem_of_find?_eq_some hfind, beq_iff_eq.mpr ?_⟩
    have hcode : Uom.code x = c := (find?_spec hfind).2
    rw [hcode, Code.text_of_ofText? hc]

/-! ## What a store holds -/

/-- The entries that a store holds, of the kinds whose tables are there. -/
def Holdings.ofStore (s : Store) : Holdings where
  held? k c := (s.table? k).bind fun t => t.find? c
  enforces := s.enforces

namespace Holdings

/-- Holdings tell what a store holds: both tables are there, and under each code they find the same
entry as the holdings, or none. -/
structure Describes (m : Holdings) (s : Store) : Prop where
  enforces : s.enforces = m.enforces
  rows : ∀ k, ∃ t, s.table? k = some t ∧ ∀ c, Option.Rel Entry.Same (m.held? k c) (t.find? c)

variable {m : Holdings} {s : Store}

/-- The table of a kind can be written to, and finds what the holdings hold. -/
theorem Describes.writable (h : m.Describes s) (k : Kind) :
    ∃ t, s.writable k = .ok t ∧ ∀ c, Option.Rel Entry.Same (m.held? k c) (t.find? c) := by
  obtain ⟨t, ht, hrows⟩ := h.rows k
  refine ⟨t, ?_, hrows⟩
  obtain ⟨units, hunits, -⟩ := h.rows .uom
  have hcan : s.canWrite k = true := by
    cases k with
    | uom => rfl
    | parameter => rw [Store.canWrite, show s.uoms = some units from hunits]; simp
  rw [Store.writable, ht]
  exact if_pos hcan

theorem isSome_eq {o o' : Option (Entry k)} (h : Option.Rel Entry.Same o o') :
    o'.isSome = o.isSome := by
  cases h <;> rfl

/-- An entry may be stored unless it names a unit that would have to be held and is not. -/
theorem Describes.referenceHolds (h : m.Describes s) (e : Entry k) :
    s.referenceHolds e = !m.dangles e := by
  obtain ⟨units, hunits, hrows⟩ := h.rows .uom
  unfold Store.referenceHolds dangles
  rw [show s.uoms = some units from hunits, h.enforces, Bool.not_and]
  congr 1
  cases e.reference? with
  | none => rfl
  | some u =>
    show (units.rows.any fun x => (Uom.code x).text == u) = _
    rw [Table.any_text_eq]
    cases hu : Code.ofText? .uom u with
    | none => simp only [Option.any_some, hu, Option.bind_none]; rfl
    | some c =>
      simp only [Option.any_some, hu, Option.bind_some]
      rw [isSome_eq (hrows c), Option.not_isNone]

/-- A write that leaves one entry, or none, under its code and every other row alone is a change of
the holdings under that code. -/
theorem Describes.set (h : m.Describes s) {t t' : Table k} (ht : s.table? k = some t) {c : Code k}
    {o : Option (Entry k)} (hself : Option.Rel Entry.Same o (t'.find? c))
    (hother : ∀ d, d ≠ c → t'.find? d = t.find? d) : (m.set c o).Describes (s.withTable t') where
  enforces := by cases k <;> exact h.enforces
  rows j := by
    obtain ⟨u, hu, hrows⟩ := h.rows j
    by_cases hj : j = k
    · subst hj
      cases ht.symm.trans hu
      refine ⟨t', Store.table?_withTable s t', fun d => ?_⟩
      by_cases hd : d = c
      · subst hd
        rw [held?_set_self]
        exact hself
      · rw [held?_set_of_ne m hd, hother d hd]
        exact hrows d
    · refine ⟨u, (Store.table?_withTable_of_ne hj s t').trans hu, ?_⟩
      rw [held?_set_of_kind_ne m hj]
      exact hrows

/-- The end of a unit clears the same references on both sides. -/
theorem Describes.withoutReferences (h : m.Describes s) (c : Code k) :
    (withoutReferences c m).Describes (Store.afterDelete c s) := by
  cases k with
  | parameter => exact h
  | uom =>
    cases henforces : m.enforces with
    | false =>
      simp only [Holdings.withoutReferences, Store.afterDelete, Store.clearReferences, h.enforces,
        henforces, Bool.false_eq_true, if_false]
      exact h
    | true =>
      simp only [Holdings.withoutReferences, Store.afterDelete, Store.clearReferences, h.enforces,
        henforces, if_true]
      refine ⟨rfl, fun j => ?_⟩
      obtain ⟨t, ht, hrows⟩ := h.rows j
      cases j with
      | uom => exact ⟨t, ht, hrows⟩
      | parameter =>
        refine ⟨_, congrArg (Option.map _) ht, fun d => ?_⟩
        refine (congrArg (Option.Rel Entry.Same _) (Table.find?_mapRows d)).mpr ?_
        exact Entry.rel_clearUom (hrows d) c.text

/-- The rows that pass a filter are the entries that match it. -/
theorem Describes.matching (h : m.Describes s) {t : Table k} (ht : s.table? k = some t)
    (f : Filter k) : List.Forall₂ Entry.Same (m.matching f) (t.selected f) := by
  obtain ⟨u, hu, hrows⟩ := h.rows k
  cases ht.symm.trans hu
  rw [Table.selected, Table.rows_eq_filterMap, Holdings.matching]
  refine List.rel_filter (fun e e' hsame => ?_)
    (List.rel_filterMap (R := Eq) ?_ (List.forall₂_refl (Code.all k)))
  · show decide (f.Matches e) = true ↔ f.selects e' = true
    rw [decide_eq_true_iff, Filter.selects_iff]
    exact hsame.matches_iff f
  · rintro c _ rfl
    exact hrows c

private theorem describes_ofStore (h : ∀ k, (s.table? k).isSome) : (ofStore s).Describes s where
  enforces := rfl
  rows k := by
    obtain ⟨t, ht⟩ := Option.isSome_iff_exists.mp (h k)
    refine ⟨t, ht, fun c => ?_⟩
    have hentry : (ofStore s).held? k c = t.find? c := by
      simp only [ofStore, ht, Option.bind_some]
    rw [hentry]
    cases hfind : t.find? c with
    | none => exact .none
    | some e => exact .some (Table.find?_spec hfind).1.same_self

/-! ## Calls -/

theorem Describes.created (h : m.Describes s) {e : Entry k} (he : e.Proper) :
    (s.created e).1 = (m.created e).1 ∧ (m.created e).2.Describes (s.created e).2 := by
  obtain ⟨t, ht, hrows⟩ := h.writable k
  have htaken : t.contains e.code = (m.held? k e.code).isSome := isSome_eq (hrows e.code)
  have hcontained : s.contained e.code = .ok (t.contains e.code) := by
    rw [Store.contained, Store.contains_of_writable ht]
    rfl
  have href := h.referenceHolds e
  unfold Store.created Holdings.created
  cases hheld : (m.held? k e.code).isSome with
  | true =>
    rw [hheld] at htaken
    rw [htaken] at hcontained
    simp only [Store.insert_of_taken ht htaken, Store.createFault, StoreFailure.isIntegrity,
      hcontained, if_true]
    exact ⟨trivial, h⟩
  | false =>
    rw [hheld] at htaken
    rw [htaken] at hcontained
    obtain ⟨t', ht'⟩ := Table.insert?_of_free htaken
    rw [Store.insert_of_placed ht ht', href]
    cases m.dangles e with
    | true =>
      simp only [Store.createFault, hcontained, Bool.not_true, Bool.false_eq_true, if_false,
        if_true]
      exact ⟨rfl, h⟩
    | false =>
      simp only [Bool.not_false, Bool.false_eq_true, if_false, if_true]
      refine ⟨trivial, h.set (Store.table?_of_writable ht) ?_ fun d hd =>
        Table.find?_insert?_of_ne ht' hd⟩
      rw [Table.find?_insert?_self ht']
      exact .some he.same_inserted

theorem Describes.updated (h : m.Describes s) {e : Entry k} (he : e.Proper) :
    (s.updated e).1 = (m.updated e).1 ∧ (m.updated e).2.Describes (s.updated e).2 := by
  obtain ⟨t, ht, hrows⟩ := h.writable k
  have href := h.referenceHolds e
  have hrow := hrows e.code
  unfold Store.updated Holdings.updated
  generalize m.held? k e.code = held, hfind : t.find? e.code = row at hrow
  cases hrow with
  | none =>
    rw [Store.update_of_absent ht hfind]
    exact ⟨rfl, h⟩
  | @some old old' hsame =>
    rw [Store.update_of_present ht hfind, href]
    cases m.dangles e with
    | true => exact ⟨rfl, h⟩
    | false =>
      refine ⟨rfl, h.set (Store.table?_of_writable ht) ?_ fun d hd => Table.find?_replace_of_ne hd⟩
      rw [Table.find?_replace_self hfind]
      exact .some (he.same_replaced hsame)

theorem Describes.deleted (h : m.Describes s) (c : Code k) :
    (s.deleted c).1 = (m.deleted c).1 ∧ (m.deleted c).2.Describes (s.deleted c).2 := by
  obtain ⟨t, ht, hrows⟩ := h.writable k
  have hrow := hrows c
  unfold Store.deleted Holdings.deleted
  generalize hheld : m.held? k c = held, hfind : t.find? c = row at hrow
  cases hrow with
  | none =>
    rw [Store.delete_of_absent ht hfind]
    exact ⟨rfl, h⟩
  | some hsame =>
    rw [Store.delete_of_present ht hfind]
    refine ⟨rfl, (h.set (Store.table?_of_writable ht) ?_ fun d hd =>
      Table.find?_erase_of_ne hd).withoutReferences c⟩
    rw [Table.find?_erase_self]
    exact .none

theorem Describes.found (h : m.Describes s) (c : Code k) :
    SameOutcome ((m.found c).map (.entry k)) ((s.found c).map (.entry k)) := by
  obtain ⟨t, ht, hrows⟩ := h.writable k
  have hrow := hrows c
  unfold Store.found Holdings.found
  rw [Store.find_of_writable ht]
  generalize m.held? k c = held, t.find? c = row at hrow
  cases hrow with
  | none => exact .error _
  | some hsame => exact .ok (.entry hsame)

theorem Describes.listed (h : m.Describes s) (f : Filter k) :
    SameOutcome ((m.listed f).map fun found => .page k found.1 found.2)
      ((s.listed f).map fun found => .page k found.1 found.2) := by
  obtain ⟨t, ht, -⟩ := h.rows k
  have hmatching := h.matching ht f
  rw [Store.listed_of_table ht, Holdings.listed, hmatching.length_eq]
  split
  · exact .error _
  · exact .ok (.page _ (List.forall₂_take _ (List.forall₂_drop _ hmatching)))

/-- One call: the same outcome, and the holdings after it tell what the store holds after it. -/
theorem Describes.answer (h : m.Describes s) {call : Call} (hcall : call.BringsProper) :
    SameOutcome (m.answer call).1 (s.answer call).1 ∧
      (m.answer call).2.Describes (s.answer call).2 := by
  have hdone (x : Except Fault Unit) :
      SameOutcome (x.map fun _ => .done) (x.map fun _ => .done) := by
    cases x with
    | error f => exact .error f
    | ok _ => exact .ok .done
  cases call with
  | create k e =>
    obtain ⟨houtcome, hafter⟩ := h.created hcall
    exact ⟨by rw [Holdings.answer, Store.answer, houtcome]; exact hdone _, hafter⟩
  | update k e =>
    obtain ⟨houtcome, hafter⟩ := h.updated hcall
    exact ⟨by rw [Holdings.answer, Store.answer, houtcome]; exact hdone _, hafter⟩
  | delete k c =>
    obtain ⟨houtcome, hafter⟩ := h.deleted c
    exact ⟨by rw [Holdings.answer, Store.answer, houtcome]; exact hdone _, hafter⟩
  | find k c => exact ⟨h.found c, h⟩
  | list k f => exact ⟨h.listed f, h⟩
  | contains k c =>
    obtain ⟨t, ht, hrows⟩ := h.writable k
    refine ⟨?_, h⟩
    rw [Holdings.answer, Store.answer, Store.contained, Store.contains_of_writable ht,
      Table.contains, isSome_eq (hrows c)]
    exact .ok (.present _)

end Holdings

namespace Call

/-- Calls to the repositories over a store, one after the other: each has the outcome that the
holdings of the store give it, and leaves what they leave. -/
theorem trace_refines {m : Holdings} {w : World} (h : m.Describes w.store)
    (calls : List (Float × Call)) (hcalls : ∀ call ∈ calls, call.2.BringsProper) :
    List.Forall₂ (fun held stored => SameOutcome held.1 stored.1 ∧ held.2.Describes stored.2)
      (m.trace (calls.map Prod.snd)) (trace .stored calls w) := by
  induction calls generalizing m w with
  | nil => exact .nil
  | cons call calls ih =>
    obtain ⟨clock, call⟩ := call
    obtain ⟨hcall, hrest⟩ := List.forall_mem_cons.mp hcalls
    obtain ⟨houtcome, hafter⟩ := h.answer hcall
    obtain ⟨records, hrun⟩ := performs_stored call { w with monotonic := clock }
    rw [List.map_cons, Holdings.trace, trace, hrun]
    exact .cons ⟨houtcome, hafter⟩ (ih hafter hrest)

/-- A unit is deleted that a parameter refers to: the store clears the reference, as the holdings
do. -/
theorem trace_refines_unit_deleted :
    (Holdings.ofStore (Sample.world "").store).Describes (Sample.world "").store ∧
      (∀ call ∈ Sample.calls, call.2.BringsProper) ∧
      List.Forall₂ (fun held stored => SameOutcome held.1 stored.1 ∧ held.2.Describes stored.2)
        ((Holdings.ofStore (Sample.world "").store).trace (Sample.calls.map Prod.snd))
        (trace .stored Sample.calls (Sample.world "")) := by
  have hstore : (Holdings.ofStore (Sample.world "").store).Describes (Sample.world "").store :=
    Holdings.describes_ofStore fun k => by cases k <;> rfl
  have hunit : Entry.Proper (k := .uom) (Sample.kilogram "Kilogram") :=
    ⟨⟨.epoch, rfl, rfl⟩, fun _ ht => (nomatch ht), trivial⟩
  have hload : Entry.Proper (k := .parameter) Sample.load :=
    ⟨⟨.epoch, rfl, rfl⟩, fun _ ht => (nomatch ht), fun _ hx => (nomatch hx),
      fun _ hx => (nomatch hx)⟩
  have hcalls : ∀ call ∈ Sample.calls, call.2.BringsProper := by
    simp only [Sample.calls, List.forall_mem_cons]
    exact ⟨hunit, hload, trivial, trivial, trivial, trivial, trivial, List.forall_mem_nil _⟩
  exact ⟨hstore, hcalls, trace_refines hstore Sample.calls hcalls⟩

end Call

end CostCatalog
