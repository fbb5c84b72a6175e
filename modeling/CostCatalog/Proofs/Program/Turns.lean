import CostCatalog.Proofs.Program.Disciplines
import CostCatalog.Proofs.Program.Runs
import CostCatalog.Proofs.Store

/-!
# The turns of one program

What a schedule does to one of its programs: if it comes to its end there is a turn for every request
that it asks before, `Pool.exists_turn`, and what holds of it whatever it is told holds throughout,
`Pool.program_run`. Whatever is asked, no table goes, `Pool.stands_run`.
-/

namespace CostCatalog

variable {k : Kind}

/-! ## Tables that stand -/

/-- The tables of a store are there in another one, which enforces references if the first does. -/
structure Store.Stands (s s' : Store) : Prop where
  uoms : s.uoms.isSome = true → s'.uoms.isSome = true
  parameters : s.parameters.isSome = true → s'.parameters.isSome = true
  enforces : s'.enforces = s.enforces

namespace Store

variable {s s' s'' : Store}

theorem Stands.refl (s : Store) : s.Stands s := ⟨id, id, rfl⟩

theorem Stands.trans (h : s.Stands s') (h' : s'.Stands s'') : s.Stands s'' :=
  ⟨h'.uoms ∘ h.uoms, h'.parameters ∘ h.parameters, h'.enforces.trans h.enforces⟩

theorem stands_withTable (s : Store) (t : Table k) : s.Stands (s.withTable t) := by
  cases k with
  | uom => exact ⟨fun _ => rfl, id, rfl⟩
  | parameter => exact ⟨id, fun _ => rfl, rfl⟩

private theorem stands_afterDelete (s : Store) (c : Code k) : s.Stands (afterDelete c s) := by
  cases k with
  | parameter => exact .refl s
  | uom =>
    simp only [afterDelete, clearReferences]
    split
    · exact ⟨id, fun h => by rw [Option.isSome_map]; exact h, rfl⟩
    · exact .refl s

theorem writable_iff {t : Table k} :
    s.writable k = .ok t ↔ s.table? k = some t ∧ s.canWrite k = true := by
  unfold writable
  cases s.table? k with
  | none => simp
  | some t' =>
    simp only [Option.some.injEq]
    split
    · next h => simp only [Except.ok.injEq, h, and_true]
    · next h => exact iff_of_false (fun h => nomatch h) fun h' => h h'.2

/-- A table that can be written to can be written to as long as all tables stand. -/
theorem Stands.writable (h : s.Stands s') {t : Table k} (ht : s.writable k = .ok t) :
    ∃ t', s'.writable k = .ok t' := by
  obtain ⟨htable, hcan⟩ := writable_iff.mp ht
  cases k with
  | uom =>
    obtain ⟨t', ht'⟩ := Option.isSome_iff_exists.mp (h.uoms (Option.isSome_of_mem htable))
    exact ⟨t', writable_iff.mpr ⟨ht', rfl⟩⟩
  | parameter =>
    obtain ⟨t', ht'⟩ := Option.isSome_iff_exists.mp (h.parameters (Option.isSome_of_mem htable))
    refine ⟨t', writable_iff.mpr ⟨ht', ?_⟩⟩
    simp only [canWrite, Bool.or_eq_true] at hcan ⊢
    rw [h.enforces]
    exact hcan.imp_right h.uoms

end Store

/-- No request takes a table away. -/
theorem World.stands_answer (w : World) (r : Request) : w.store.Stands (w.answer r).2.store := by
  have hsame {w' : World} (h : w'.store = w.store) : w.store.Stands w'.store := h ▸ .refl w.store
  have hrow {x : Except StoreFailure (Bool × Store)}
      (hx : ∀ found s, x = .ok (found, s) → w.store.Stands s) :
      w.store.Stands (w.onRow x).2.store := by
    match x with
    | .ok (found, s) => exact hx found s rfl
    | .error f => exact .refl w.store
  cases r with
  | insert k e =>
    cases hinsert : w.store.insert e with
    | error f => exact hsame (by rw [World.answer_insert_error hinsert])
    | ok s =>
      rw [World.answer_insert_ok hinsert]
      obtain ⟨t, t', -, -, rfl⟩ := Store.insert_ok hinsert
      exact w.store.stands_withTable t'
  | update k e =>
    refine hrow fun found s h => ?_
    obtain ⟨t, -, -, rfl⟩ := Store.update_ok h
    split
    · exact w.store.stands_withTable _
    · exact .refl w.store
  | delete k c =>
    refine hrow fun found s h => ?_
    obtain ⟨t, -, -, rfl⟩ := Store.delete_ok h
    split
    · exact (w.store.stands_withTable _).trans (Store.stands_afterDelete _ c)
    · exact .refl w.store
  | cacheGet | cacheSet | cacheDelete => exact hsame (w.onCache_frame ..).2
  | cacheDeleteMatching pattern => exact hsame (w.deleteMatching_frame pattern).2
  | find | count | page | contains | now | log | mark => exact .refl w.store

/-! ## Turns -/

namespace Pool

variable {ι α : Type} {p : Pool ι α} {i : ι} {a : α}

/-- The program whose turn it is asks a request. -/
def Asks (p : Pool ι α) (t : Turn ι) (r : Request) : Prop := ∃ next, p.programs t.who = .ask r next

variable [DecidableEq ι]

/-- A program that is at a request and later done has had a turn, and was at the request until then. -/
theorem exists_turn {r : Request} {next : r.Reply → Program α} (h : p.programs i = .ask r next)
    {turns : List (Turn ι)} (hdone : (p.run turns).programs i = .done a) :
    ∃ between u rest, turns = between ++ u :: rest ∧ u.who = i ∧
      (p.run between).programs i = .ask r next := by
  induction turns generalizing p with
  | nil =>
    cases h.symm.trans hdone
  | cons t turns ih =>
    by_cases ht : t.who = i
    · exact ⟨[], t, turns, rfl, ht, h⟩
    · obtain ⟨between, u, rest, rfl, hu, hasks⟩ := ih ((programs_step_of_ne ht).trans h) hdone
      exact ⟨t :: between, u, rest, rfl, hu, hasks⟩

/-- What holds of a program whatever it is told holds of it throughout a schedule. -/
theorem program_run {P : Program α → Prop}
    (hnext : ∀ r next, P (.ask r next) → ∀ reply, P (next reply)) (h : P (p.programs i))
    (turns : List (Turn ι)) : P ((p.run turns).programs i) := by
  induction turns generalizing p with
  | nil => exact h
  | cons t turns ih =>
    refine ih ?_
    by_cases ht : t.who = i
    · subst ht
      cases hprogram : p.programs t.who with
      | done a =>
        rw [step_of_done hprogram]
        exact h
      | ask r next =>
        rw [programs_step hprogram]
        exact hnext r next (hprogram ▸ h) _
    · rw [programs_step_of_ne ht]
      exact h

private theorem stands_step (p : Pool ι α) (t : Turn ι) :
    p.world.store.Stands (p.step t).world.store := by
  unfold step
  cases p.programs t.who with
  | done a => exact .refl _
  | ask r next => exact (p.world.clocked t).stands_answer r

/-- No schedule takes a table away. -/
theorem stands_run (p : Pool ι α) (turns : List (Turn ι)) :
    p.world.store.Stands (p.run turns).world.store := by
  induction turns generalizing p with
  | nil => exact .refl _
  | cons t turns ih => exact (p.stands_step t).trans (ih (p.step t))

end Pool

end CostCatalog
