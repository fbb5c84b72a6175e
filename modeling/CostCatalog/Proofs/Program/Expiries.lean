import CostCatalog.Program.Expiry
import CostCatalog.Proofs.Program.Disciplines

/-!
# Actions cut short

An action under a deadline has the outcome of the work that it is, `Action.within_fst`. Wherever it
is cut, what every reply keeps of the world has been kept, `Program.runUntil_follows`.
-/

namespace CostCatalog

variable {σ α : Type}

/-! ## The outcome -/

/-- A program that runs alone in a world, as the loop that runs it sees it: it pauses where it waits,
and passes a cancellation on. -/
def Program.work {α : Type} : Program (Except Fault α) → World → Work α
  | .done result, _ => .done result
  | .ask r next, w =>
    let rest := (next (w.answer r).1).work (w.answer r).2
    if r.waits then .pause (.done (.error Work.cancellation)) rest else rest

/-- What becomes of work without a limit is its own result. -/
private theorem Program.work_run_none (p : Program (Except Fault α)) (w : World) :
    (p.work w).run none = ⟨some (p.run w).1, false, []⟩ := by
  induction p generalizing w with
  | done result => rfl
  | ask r next ih =>
    unfold Program.work
    split <;> exact ih _ _

/-- Work is cancelled at the pause at which the program is cut. -/
private theorem Program.work_run_some (p : Program (Except Fault α)) (cut : Cut) (w : World) :
    (p.work w).run (some cut.waits) = match (p.runUntil cut w).1 with
      | some result => ⟨some result, false, []⟩
      | none => ⟨some (.error Work.cancellation), true, []⟩ := by
  induction p generalizing cut w with
  | done result => rfl
  | ask r next ih =>
    obtain ⟨waits, applied⟩ := cut
    by_cases hwaits : r.waits = true
    · cases waits with
      | zero => simp [Program.work, Program.runUntil, hwaits, Work.run]
      | succ n => simp [Program.work, Program.runUntil, hwaits, Work.run, ← ih]
    · simp [Program.work, Program.runUntil, hwaits, ← ih]

/-- A result that was not cancelled, for the caller who set the limit. -/
theorem outcome_of_not_cancelled (operation : String) (limit : Option Duration)
    (result : Except Fault α) :
    (⟨some result, false, []⟩ : WorkResult α).outcome operation limit =
      some (underLimit operation limit result) := by
  unfold WorkResult.outcome
  simp only [Option.map_some, Option.some.injEq]
  split <;> rfl

/-- An action under a deadline has the outcome of the work that it is. -/
theorem Action.within_fst (operation : String) (limit : Option Duration) (cut : Cut) (a : Action α)
    (w : World) : some (a.within operation limit cut w).1 =
      ((Program.work (ExceptT.run a) w).within operation limit cut.waits).1 := by
  unfold Action.within Work.within
  cases limit with
  | none =>
    simp [Program.work_run_none, outcome_of_not_cancelled]
    rfl
  | some d =>
    by_cases hspent : d.isSpent = true
    · simp [hspent]
    · simp only [hspent, Bool.false_eq_true, ↓reduceIte, Program.work_run_some]
      cases hrun : Program.runUntil (ExceptT.run a) cut w with
      | mk result w' =>
        cases result with
        | some result => simp [outcome_of_not_cancelled]
        | none => rfl

/-! ## The world -/

/-- Wherever a program is cut, it has kept what every reply keeps. -/
private theorem Program.runUntil_follows {d : Discipline σ} {ends : α → σ → Prop}
    {inv : σ → World → Prop} (hkept : ∀ g w r, inv g w → d.may g r →
      d.relies g r (w.answer r).1 ∧ inv (d.after g r (w.answer r).1) (w.answer r).2)
    {p : Program α} {g : σ} {w : World} (hp : p.Follows d ends g) (hinv : inv g w) (cut : Cut) :
    ∃ g', inv g' (p.runUntil cut w).2 := by
  induction p generalizing cut g w with
  | done a => exact ⟨g, hinv⟩
  | ask r next ih =>
    obtain ⟨hrelies, hinv'⟩ := hkept g w r hinv hp.1
    have hnext := ih (w.answer r).1 (hp.2 _ hrelies) hinv'
    obtain ⟨waits, applied⟩ := cut
    unfold runUntil
    by_cases hwaits : r.waits = true
    · cases waits with
      | zero =>
        cases applied with
        | true => simpa [hwaits] using ⟨_, hinv'⟩
        | false => simpa [hwaits] using ⟨g, hinv⟩
      | succ n => simpa [hwaits] using hnext ⟨n, applied⟩
    · simpa [hwaits] using hnext ⟨waits, applied⟩

/-- Under a deadline an action keeps what every reply keeps. -/
theorem Action.within_follows {d : Discipline σ} {ends : Except Fault α → σ → Prop}
    {inv : σ → World → Prop}
    (hkept : ∀ g w r, inv g w → d.may g r →
      d.relies g r (w.answer r).1 ∧ inv (d.after g r (w.answer r).1) (w.answer r).2)
    {a : Action α} {g : σ} {w : World} (ha : a.Follows d ends g) (hinv : inv g w)
    (operation : String) (limit : Option Duration) (cut : Cut) :
    ∃ g', inv g' (a.within operation limit cut w).2 := by
  unfold Action.within
  cases limit with
  | none =>
    obtain ⟨g', -, hinv'⟩ := Program.run_follows hkept ha hinv
    exact ⟨g', hinv'⟩
  | some limit =>
    by_cases hspent : limit.isSpent = true
    · simpa [hspent] using ⟨g, hinv⟩
    · obtain ⟨g', hinv'⟩ := Program.runUntil_follows hkept ha hinv cut
      refine ⟨g', ?_⟩
      simp only [hspent, Bool.false_eq_true, ↓reduceIte]
      cases hrun : Program.runUntil (ExceptT.run a) cut w with
      | mk result w' =>
        rw [hrun] at hinv'
        cases result <;> exact hinv'

end CostCatalog
