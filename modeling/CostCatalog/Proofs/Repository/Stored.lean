import CostCatalog.Proofs.Program.Runs
import CostCatalog.Repository.Call

/-!
# What the repositories over the store do

One specification for each operation: its outcome and the store after it, as a function of the store
before it. Beyond the store an operation changes nothing in the world but the log, and it looks at
nothing else, `Call.performs_stored`.
-/

namespace CostCatalog

variable {k : Kind} {α : Type}

/-! ## Outcomes -/

namespace Store

/-- The entry with a code, or why there is none. -/
def found (s : Store) (c : Code k) : Except Fault (Entry k) :=
  match s.find c with
  | .ok (some e) => .ok e
  | .ok none => .error (.ofRule (.notFound k))
  | .error f => .error (f.toFault "select")

/-- The page and the total of a filter. -/
def listed (s : Store) (f : Filter k) : Except Fault (List (Entry k) × Int) :=
  match s.count f, s.page f with
  | .ok total, .ok entries => .ok (entries, total)
  | .error g, _ => .error (g.toFault "select")
  | .ok _, .error g => .error (g.toFault "select")

/-- Whether there is an entry with a code. -/
def contained (s : Store) (c : Code k) : Except Fault Bool :=
  (s.contains c).mapError (·.toFault "select")

/-- What the failure of an insertion is reported as. A broken constraint means a code that is taken
if the code is there. -/
def createFault (s : Store) (c : Code k) (f : StoreFailure) : Fault :=
  if f.isIntegrity then
    match s.contained c with
    | .ok true => .ofRule (.alreadyExists k)
    | .ok false => f.toFault "insert"
    | .error g => g
  else f.toFault "insert"

/-- A new entry stored. -/
def created (s : Store) (e : Entry k) : Except Fault Unit × Store :=
  match s.insert e with
  | .ok s' => (.ok (), s')
  | .error f => (.error (s.createFault e.code f), s)

/-- The outcome of a statement that says whether it found a row. -/
def changed (k : Kind) (operation : String) (s : Store) :
    Except StoreFailure (Bool × Store) → Except Fault Unit × Store
  | .ok (true, s') => (.ok (), s')
  | .ok (false, s') => (.error (.ofRule (.notFound k)), s')
  | .error f => (.error (f.toFault operation), s)

/-- An entry changed. -/
def updated (s : Store) (e : Entry k) : Except Fault Unit × Store :=
  changed k "update" s (s.update e)

/-- An entry deleted. -/
def deleted (s : Store) (c : Code k) : Except Fault Unit × Store :=
  changed k "delete" s (s.delete c)

/-- The outcome of a call of the repositories over the store, and the store after it. -/
def answer (s : Store) : Call → Except Fault Reply × Store
  | .create _ e => ((s.created e).1.map fun _ => .done, (s.created e).2)
  | .find k c => ((s.found c).map (.entry k), s)
  | .list k f => ((s.listed f).map fun found => .page k found.1 found.2, s)
  | .update _ e => ((s.updated e).1.map fun _ => .done, (s.updated e).2)
  | .delete _ c => ((s.deleted c).1.map fun _ => .done, (s.deleted c).2)
  | .contains _ c => ((s.contained c).map .present, s)

end Store

/-- A page out of a table that is there, if the rows before it can be skipped. -/
theorem Store.listed_of_table {s : Store} {t : Table k} (h : s.table? k = some t) (f : Filter k) :
    s.listed f =
      if maxOffset < f.page.offset then .error (.unexpected .integerTooLarge)
      else .ok (t.page f, ((t.selected f).length : Int)) := by
  have hreadable : s.readable k = .ok t := by rw [readable, h]
  have hcount : s.count f = .ok (t.selected f).length := by
    rw [count, hreadable]
    rfl
  rw [listed, hcount, page]
  by_cases hfar : maxOffset < f.page.offset
  · rw [if_pos hfar, if_pos hfar]
    rfl
  · rw [if_neg hfar, if_neg hfar, hreadable]
    rfl

/-! ## Operations -/

/-- An action with an outcome that leaves a store and changes nothing else but the log. -/
def Performs (a : Action α) (w : World) (x : Except Fault α) (s : Store) : Prop :=
  ∃ records, a.perform w = (x, { w with store := s, records })

namespace Performs

variable {β : Type} {a : Action α} {f : α → Action β} {w : World} {s s' : Store}

theorem bind_ok {v : α} {y : Except Fault β} (ha : Performs a w (.ok v) s)
    (hf : ∀ records, Performs (f v) { w with store := s, records } y s') :
    Performs (a >>= f) w y s' := by
  obtain ⟨records, ha⟩ := ha
  obtain ⟨records', hf⟩ := hf records
  exact ⟨records', by rw [Action.perform_bind_ok ha, hf]⟩

theorem bind_error {e : Fault} (ha : Performs a w (.error e) s) :
    Performs (a >>= f) w (.error e) s := by
  obtain ⟨records, ha⟩ := ha
  exact ⟨records, Action.perform_bind_error ha f⟩

/-- An action that goes on with a pure function of its result. -/
theorem map {x : Except Fault α} (ha : Performs a w x s) (g : α → β) :
    Performs (a >>= fun v => pure (g v)) w (x.map g) s := by
  obtain ⟨records, ha⟩ := ha
  exact ⟨records, Action.perform_map ha g⟩

theorem attempt {x : Except Fault α} (ha : Performs a w x s) :
    Performs (Action.attempt a) w (.ok x) s := by
  obtain ⟨records, ha⟩ := ha
  exact ⟨records, by rw [Action.perform_attempt, ha]⟩

end Performs

namespace Repository

variable (w : World)

theorem performs_settle (operation : String) (x : Except StoreFailure α) :
    Performs (settle operation x) w (x.mapError (·.toFault operation)) w.store := by
  cases x with
  | ok a => exact ⟨w.records, rfl⟩
  | error f =>
    unfold settle
    cases hr : f.record operation with
    | none =>
      refine ⟨w.records, ?_⟩
      simp only [hr]
      rfl
    | some r =>
      refine ⟨r :: w.records, ?_⟩
      simp only [hr]
      rfl

/-- A request that leaves the world alone. -/
theorem performs_read {r : Request} {x : r.Reply} (h : w.answer r = (x, w)) :
    Performs (Action.request r) w (.ok x) w.store :=
  ⟨w.records, by rw [Action.perform_request, h]⟩

/-- A request that may change the store. -/
private theorem performs_write {r : Request} {x : r.Reply} {s : Store}
    (h : w.answer r = (x, { w with store := s })) : Performs (Action.request r) w (.ok x) s :=
  ⟨w.records, by rw [Action.perform_request, h]⟩

theorem performs_storedContains (c : Code k) :
    Performs (storedContains k c) w (w.store.contained c) w.store :=
  (performs_read w (x := w.store.contains c) rfl).bind_ok fun records =>
    performs_settle { w with records } "select" (w.store.contains c)

theorem performs_storedFind (c : Code k) :
    Performs (storedFind k c) w (w.store.found c) w.store := by
  apply (performs_read w (r := .find k c) (x := w.store.find c) rfl).bind_ok
  intro records
  have hsettle := performs_settle { w with records } "select" (w.store.find c)
  unfold Store.found
  generalize w.store.find c = found at hsettle ⊢
  cases found with
  | error f => exact hsettle.bind_error
  | ok found =>
    apply hsettle.bind_ok
    intro records
    cases found <;> exact ⟨records, rfl⟩

theorem performs_storedList (f : Filter k) :
    Performs (storedList k f) w (w.store.listed f) w.store := by
  apply (performs_read w (r := .count k f) (x := w.store.count f) rfl).bind_ok
  intro records
  have hcount := performs_settle { w with records } "select" (w.store.count f)
  unfold Store.listed
  generalize w.store.count f = count at hcount ⊢
  cases count with
  | error g => exact hcount.bind_error
  | ok total =>
    apply hcount.bind_ok
    intro records
    refine (performs_read { w with records } (r := .page k f) (x := w.store.page f) rfl).bind_ok
      ?_
    intro records
    have hpage := performs_settle { w with records } "select" (w.store.page f)
    generalize w.store.page f = page at hpage ⊢
    cases page with
    | error g => exact hpage.bind_error
    | ok entries => exact hpage.map fun entries => (entries, (total : Int))

theorem performs_storedCreate (e : Entry k) :
    Performs (storedCreate k e) w (w.store.created e).1 (w.store.created e).2 := by
  unfold storedCreate Store.created
  cases hinsert : w.store.insert e with
  | ok s =>
    exact (performs_write w (World.answer_insert_ok hinsert)).bind_ok fun records => ⟨records, rfl⟩
  | error f =>
    apply (performs_read w (World.answer_insert_error hinsert)).bind_ok
    intro records
    refine (performs_settle { w with records } "insert" (.error f)).attempt.bind_ok
      ?_
    intro records
    have hcontains := performs_storedContains { w with records } e.code
    unfold Store.createFault
    show Performs (if f.isIntegrity then _ else _) _ (.error _) _
    split
    · generalize w.store.contained e.code = found at hcontains ⊢
      cases found with
      | error g => exact hcontains.bind_error
      | ok found =>
        apply hcontains.bind_ok
        intro records
        cases found <;> exact ⟨records, rfl⟩
    · exact ⟨records, rfl⟩

/-- A statement that says whether it found a row, and what is made of its answer. -/
private theorem performs_row (operation : String) {statement : Action (Except StoreFailure Bool)}
    {x : Except StoreFailure (Bool × Store)}
    (h : statement.perform w = (.ok (w.onRow x).1, (w.onRow x).2)) :
    Performs (do needRow k (← settle operation (← statement))) w
      (Store.changed k operation w.store x).1 (Store.changed k operation w.store x).2 := by
  cases x with
  | error f =>
    have hrun : Performs statement w (.ok (.error f)) w.store := ⟨w.records, h⟩
    exact hrun.bind_ok fun records =>
      (performs_settle { w with records } operation (.error f)).bind_error
  | ok found =>
    obtain ⟨found, s⟩ := found
    have hrun : Performs statement w (.ok (.ok found)) s := ⟨w.records, h⟩
    apply hrun.bind_ok
    intro records
    refine (performs_settle { w with store := s, records } operation (.ok found)).bind_ok
      ?_
    intro records
    cases found <;> exact ⟨records, rfl⟩

theorem performs_storedUpdate (e : Entry k) :
    Performs (storedUpdate k e) w (w.store.updated e).1 (w.store.updated e).2 :=
  performs_row w "update" rfl

theorem performs_storedDelete (c : Code k) :
    Performs (storedDelete k c) w (w.store.deleted c).1 (w.store.deleted c).2 :=
  performs_row w "delete" rfl

end Repository

/-- A call of the repositories over the store has the outcome, and leaves the store, that follow
from the store before it. -/
theorem Call.performs_stored (call : Call) (w : World) :
    Performs (call.on .stored) w (w.store.answer call).1 (w.store.answer call).2 := by
  cases call with
  | create k e => exact (Repository.performs_storedCreate w e).map fun _ => Reply.done
  | find k c => exact (Repository.performs_storedFind w c).map (Reply.entry k)
  | list k f =>
    exact (Repository.performs_storedList w f).map fun found => Reply.page k found.1 found.2
  | update k e => exact (Repository.performs_storedUpdate w e).map fun _ => Reply.done
  | delete k c => exact (Repository.performs_storedDelete w c).map fun _ => Reply.done
  | contains k c => exact (Repository.performs_storedContains w c).map Reply.present

end CostCatalog
