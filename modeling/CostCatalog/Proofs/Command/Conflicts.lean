import CostCatalog.Proofs.Command.Creations
import CostCatalog.Proofs.Program.Turns

/-!
# Codes that are taken and free again

The store says of a rejected entry only that some constraint is broken; whether its code is taken is
asked after that, in a request of its own, and in between others may act. So a rejection for a code that
is taken ends as a conflict exactly if the code is taken still, or again, at the second look,
`rejection_is_conflict_iff`. If it has been freed in between, the failure of the store is reported.

That a program looks again after each such rejection is settled for each program by itself, whatever it
is told, `Program.Rechecks`.
-/

namespace CostCatalog

variable {k : Kind} {α β : Type}

/-- The failure of an insertion under a code that is taken. -/
def Store.duplicate (k : Kind) : StoreFailure :=
  .integrity ("UNIQUE constraint failed: " ++ tableName k)

/-! ## Second looks -/

namespace Program

/-- A program writes to the log, looks whether the code of an entry is taken, and ends by what it
sees. -/
def LooksAgain (e : Entry k) (p : Program (Except Fault α)) : Prop :=
  ∃ record next, p = .ask (.log record) (fun _ => .ask (.contains k e.code) next) ∧
    next (.ok true) = .done (.error (.ofRule (.alreadyExists k))) ∧
    next (.ok false) = .done (.error ((Store.duplicate k).toFault "insert"))

/-- An insertion that is rejected for a code that is taken is followed by a second look. -/
def LooksAfter : (r : Request) → (r.Reply → Program (Except Fault α)) → Prop
  | .insert k e, next => (next (.error (Store.duplicate k))).LooksAgain e
  | _, _ => True

/-- Every such rejection in a program is followed by a second look, whatever the program is told. -/
def Rechecks : Program (Except Fault α) → Prop
  | .done _ => True
  | .ask r next => LooksAfter r next ∧ ∀ reply, (next reply).Rechecks

/-- What would come after a program that looks again does not, since that ends with a fault. -/
theorem LooksAgain.bind {e : Entry k} {p : Program (Except Fault α)} (h : p.LooksAgain e)
    (f : α → Action β) : (p.bind (ExceptT.bindCont f)).LooksAgain e := by
  obtain ⟨record, next, rfl, htaken, hfree⟩ := h
  refine ⟨record, fun reply => (next reply).bind (ExceptT.bindCont f), rfl, ?_, ?_⟩
  · show (next (.ok true)).bind _ = _
    rw [htaken]
    rfl
  · show (next (.ok false)).bind _ = _
    rw [hfree]
    rfl

end Program

/-- Every rejection for a code that is taken is followed by a second look. -/
def Action.Rechecks (a : Action α) : Prop := Program.Rechecks (ExceptT.run a)

namespace Action

theorem Rechecks.bind {a : Action α} {f : α → Action β} (ha : a.Rechecks)
    (hf : ∀ x, (f x).Rechecks) : (a >>= f).Rechecks := by
  have hprogram (p : Program (Except Fault α)) (hp : p.Rechecks) :
      (p.bind (ExceptT.bindCont f)).Rechecks := by
    induction p with
    | done x =>
      cases x with
      | ok x => exact hf x
      | error e => exact trivial
    | ask r next ih =>
      refine ⟨?_, fun reply => ih reply (hp.2 reply)⟩
      cases r with
      | insert k e => exact Program.LooksAgain.bind hp.1 f
      | _ => exact trivial
  exact hprogram (ExceptT.run a) ha

theorem rechecks_pure (x : α) : (pure x : Action α).Rechecks := trivial

theorem rechecks_fail (f : Fault) : (fail f : Action α).Rechecks := trivial

theorem rechecks_ofExcept (x : Except Fault α) : (ofExcept x).Rechecks := trivial

theorem rechecks_log (r : LogRecord) : (log r).Rechecks := ⟨trivial, fun _ => trivial⟩

private theorem rechecks_settle (operation : String) (x : Except StoreFailure α) :
    (Repository.settle operation x).Rechecks := by
  match x with
  | .ok x => exact rechecks_pure x
  | .error (.integrity _) | .error (.operational _) | .error (.driver _) | .error (.other _) =>
    exact (rechecks_log _).bind fun _ => rechecks_fail _
  | .error .integerTooLarge => exact rechecks_fail _

end Action

open CostCatalog.Action

namespace Repository

theorem rechecks_storedContains (c : Code k) : (storedContains k c).Rechecks :=
  ⟨trivial, fun reply => rechecks_settle "select" reply⟩

/-- The failure of an insertion is reported, or the second look is. -/
theorem rechecks_storedCreate (e : Entry k) : (storedCreate k e).Rechecks := by
  refine ⟨⟨_, _, rfl, rfl, rfl⟩, fun reply => ?_⟩
  match reply with
  | .ok () => exact trivial
  | .error (.integrity detail) =>
    refine ⟨trivial, fun _ => ?_⟩
    exact (rechecks_storedContains e.code).bind fun found => by
      cases found <;> exact rechecks_fail _
  | .error (.operational _) | .error (.driver _) | .error (.other _) =>
    exact ⟨trivial, fun _ => trivial⟩
  | .error .integerTooLarge => exact trivial

end Repository

namespace Command

open CostCatalog.Repository

/-! ## Runs that make entries -/

theorem rechecks_making (c : Code k) (build : Timestamp → Except Fault (Entry k)) :
    (making (.stored k) c build).Rechecks := by
  refine (rechecks_storedContains c).bind fun taken => ?_
  split
  · exact rechecks_fail _
  · refine ⟨trivial, fun now => ?_⟩
    exact (rechecks_ofExcept (build now)).bind fun e => (rechecks_storedCreate e).bind fun _ =>
      (rechecks_log _).bind fun _ => rechecks_pure e

private theorem rechecks_create (cmd : Creation k) : (create (.stored k) cmd).Rechecks := by
  cases k with
  | uom =>
    show (createUom _ cmd).Rechecks
    rw [createUom_eq]
    exact (rechecks_ofExcept _).bind fun c => (rechecks_ofExcept _).bind fun category =>
      rechecks_making ..
  | parameter =>
    show (createParameter _ cmd).Rechecks
    rw [createParameter_eq]
    exact (rechecks_ofExcept _).bind fun c => (rechecks_ofExcept _).bind fun category =>
      (rechecks_ofExcept _).bind fun dataType => rechecks_making ..

/-- Who asks the store to keep a new entry: the repository that is handed it, or a command. -/
inductive Maker (k : Kind) where
  | repository (e : Entry k)
  | command (cmd : Creation k)

/-- What a maker does. -/
def Maker.action : Maker k → Action Unit
  | .repository e => (Repository.stored k).create e
  | .command cmd => do let _ ← create (.stored k) cmd; pure ()

private theorem Maker.rechecks (m : Maker k) : m.action.Rechecks := by
  cases m with
  | repository e => exact rechecks_storedCreate e
  | command cmd => exact (rechecks_create cmd).bind fun _ => rechecks_pure ()

end Command

/-! ## Rejections in a schedule -/

/-- At a turn a program asks the store to keep an entry whose code is taken. -/
structure Pool.Rejects {ι : Type} (p : Pool ι α) (t : Turn ι) (e : Entry k) : Prop where
  asks : p.Asks t (.insert k e)
  taken : p.world.store.IsTaken e.code

/-- At a turn a program looks again whether the code of an entry is taken, and what becomes of it in
the end is told by what it sees: a conflict if the code is taken, and the failure of the store if it is
free. -/
structure Pool.Settles {ι : Type} (p : Pool ι (Except Fault α)) (u : Turn ι) (e : Entry k)
    (final : Program (Except Fault α)) : Prop where
  looks : p.Asks u (.contains k e.code)
  conflict : final = .done (.error (.ofRule (.alreadyExists k))) ↔ p.world.store.IsTaken e.code
  failure : final = .done (.error ((Store.duplicate k).toFault "insert")) ↔
    ¬ p.world.store.IsTaken e.code

namespace Pool

variable {ι : Type} [DecidableEq ι] {p : Pool ι (Except Fault α)} {t : Turn ι} {e : Entry k}

/-- The store has the last word, and rejects the entry. -/
private theorem Rejects.looksAgain (h : p.Rejects t e) (hrechecks : (p.programs t.who).Rechecks) :
    ((p.step t).programs t.who).LooksAgain e := by
  obtain ⟨⟨next, hasks⟩, table, hwritable, htaken⟩ := h
  have hrejected : (p.world.clocked t).answer (.insert k e) =
      (.error (Store.duplicate k), p.world.clocked t) :=
    World.answer_insert_error (Store.insert_of_taken hwritable htaken)
  rw [hasks] at hrechecks
  rw [programs_step hasks, hrejected]
  exact hrechecks.1

/-- A second look tells whether the code is taken. -/
private theorem settles_of_asks {next : Except StoreFailure Bool → Program (Except Fault α)}
    {u : Turn ι} (hasks : p.programs u.who = .ask (.contains k e.code) next)
    (htaken : next (.ok true) = .done (.error (.ofRule (.alreadyExists k))))
    (hfree : next (.ok false) = .done (.error ((Store.duplicate k).toFault "insert")))
    {table : Table k} (hwritable : p.world.store.writable k = .ok table)
    (rest : List (Turn ι)) : p.Settles u e ((p.run (u :: rest)).programs u.who) := by
  have hseen : (p.step u).programs u.who = next (.ok (table.contains e.code)) :=
    (programs_step hasks).trans (congrArg next (Store.contains_of_writable hwritable e.code))
  have htable : p.world.store.IsTaken e.code ↔ table.contains e.code = true := by
    constructor
    · rintro ⟨table', hwritable', h⟩
      cases hwritable.symm.trans hwritable'
      exact h
    · exact fun h => ⟨table, hwritable, h⟩
  rw [run_cons]
  cases hcontains : table.contains e.code with
  | true =>
    rw [hcontains, htaken] at hseen
    have hstill : p.world.store.IsTaken e.code := htable.mpr hcontains
    rw [run_done hseen rest]
    exact ⟨⟨next, hasks⟩, iff_of_true rfl hstill, iff_of_false (fun h => nomatch h) fun h => h hstill⟩
  | false =>
    rw [hcontains, hfree] at hseen
    have hgone : ¬ p.world.store.IsTaken e.code := fun h => by
      rw [htable, hcontains] at h
      cases h
    rw [run_done hseen rest]
    exact ⟨⟨next, hasks⟩, iff_of_false (fun h => nomatch h) hgone, iff_of_true rfl hgone⟩

/-- After a rejection there is a turn at which the program looks again. -/
private theorem Rejects.exists_settles (h : p.Rejects t e) (hrechecks : (p.programs t.who).Rechecks)
    {turns : List (Turn ι)} {x : Except Fault α}
    (hdone : (p.run (t :: turns)).programs t.who = .done x) :
    ∃ between u rest, turns = between ++ u :: rest ∧ u.who = t.who ∧
      (p.run (t :: between)).Settles u e ((p.run (t :: turns)).programs t.who) := by
  obtain ⟨record, next, hlogs, htaken, hfree⟩ := h.looksAgain hrechecks
  obtain ⟨table, hwritable, -⟩ := h.taken
  -- Its next turn writes to the log, and the one after that looks.
  obtain ⟨first, v, turns, rfl, hv, hlogs⟩ := exists_turn hlogs hdone
  rw [run_cons, run_append, run_cons] at hdone
  have hasks := programs_step (hv.symm ▸ hlogs)
  rw [hv] at hasks
  obtain ⟨second, u, rest, rfl, hu, hasks⟩ := exists_turn hasks hdone
  have hbetween : p.run (t :: (first ++ v :: second)) =
      (((p.step t).run first).step v).run second := by
    rw [run_cons, run_append, run_cons]
  have hturns : t :: (first ++ v :: (second ++ u :: rest)) =
      (t :: (first ++ v :: second)) ++ u :: rest := by
    rw [List.cons_append, List.append_assoc, List.cons_append]
  refine ⟨first ++ v :: second, u, rest, (List.cons.inj hturns).2, hu, ?_⟩
  obtain ⟨table', hwritable'⟩ := (stands_run p (t :: (first ++ v :: second))).writable hwritable
  rw [← hbetween, ← hu] at hasks
  rw [hturns, run_append, ← hu]
  exact settles_of_asks hasks htaken hfree hwritable' rest

end Pool

namespace Command

variable {ι : Type} [DecidableEq ι]

/-- Makers of entries side by side with any other programs, in any order of their steps. Whenever the
store rejects an entry because its code is taken, and the maker comes to an end, it looks again at a
later turn; and it ends with a conflict if and only if the code is taken then, and with the failure of
the store if and only if it is not. -/
theorem rejection_is_conflict_iff (actions : ι → Action Unit) (w : World)
    (before after : List (Turn ι)) {t : Turn ι} {m : Maker k} {e : Entry k}
    (hmaker : actions t.who = m.action)
    (hrejects : ((Pool.ofActions actions w).run before).Rejects t e)
    (hdone : ∃ x, ((Pool.ofActions actions w).run (before ++ t :: after)).programs t.who = .done x) :
    ∃ between u rest, after = between ++ u :: rest ∧ u.who = t.who ∧
      ((Pool.ofActions actions w).run (before ++ t :: between)).Settles u e
        (((Pool.ofActions actions w).run (before ++ t :: after)).programs t.who) := by
  have hrechecks : (((Pool.ofActions actions w).run before).programs t.who).Rechecks := by
    refine Pool.program_run (fun r next h => h.2) ?_ before
    show (actions t.who).Rechecks
    rw [hmaker]
    exact m.rechecks
  obtain ⟨x, hx⟩ := hdone
  rw [Pool.run_append] at hx
  obtain ⟨between, u, rest, hafter, hu, hsettles⟩ := hrejects.exists_settles hrechecks hx
  exact ⟨between, u, rest, hafter, hu, by rwa [Pool.run_append, Pool.run_append]⟩

/-- One caller stores the kilogram under another name, the other ends it. -/
def rivals : Fin 2 → Action Unit
  | 0 => (Maker.repository (k := .uom) (Sample.kilogram "Kilo")).action
  | 1 => (Repository.stored .uom).delete (Sample.kilogram "").code

/-- A turn of one of the two. -/
def rivalTurn (i : Fin 2) : Turn (Fin 2) := { who := i, wall := .epoch, monotonic := 0.0 }

/-- The kilogram is stored already when its maker comes. -/
theorem rivals_rejects :
    (Pool.ofActions rivals Sample.stocked).Rejects (rivalTurn 0) (k := .uom)
      (Sample.kilogram "Kilo") :=
  ⟨⟨_, rfl⟩, _, rfl, by decide⟩

/-- With nobody in between the maker ends with a conflict. -/
theorem rejection_is_conflict_iff_alone :
    ∃ between u rest, [rivalTurn 0, rivalTurn 0] = between ++ u :: rest ∧ u.who = 0 ∧
      ((Pool.ofActions rivals Sample.stocked).run (rivalTurn 0 :: between)).Settles (k := .uom) u
        (Sample.kilogram "Kilo") (.done (.error (.ofRule (.alreadyExists .uom)))) :=
  rejection_is_conflict_iff (k := .uom) (m := .repository (Sample.kilogram "Kilo")) rivals
    Sample.stocked [] [rivalTurn 0, rivalTurn 0] (t := rivalTurn 0) rfl rivals_rejects ⟨_, rfl⟩

/-- The kilogram is ended after the maker was rejected and before it looks again. -/
theorem rivals_in_between :
    (Pool.ofActions rivals Sample.stocked).Rejects (rivalTurn 0) (k := .uom)
        (Sample.kilogram "Kilo") ∧
      ((Pool.ofActions rivals Sample.stocked).run
        [rivalTurn 0, rivalTurn 1, rivalTurn 0, rivalTurn 0]).programs 0 =
          .done (.error ((Store.duplicate .uom).toFault "insert")) :=
  ⟨rivals_rejects, rfl⟩

end Command

end CostCatalog
