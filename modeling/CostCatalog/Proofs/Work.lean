import CostCatalog.Deadline

/-!
# Work under a limit

What a deadline error says of the work it is raised for. Work is cancelled exactly when its limit
passes before it is done, `task_cancelled_iff`, and work that is not cancelled runs as it would alone,
`task_of_in_time`. The caller is told of the limit if the work was cancelled and passes that on, and
also if the work ran into a passing of time of its own, `WorkResult.outcome_cases`. So a deadline error
means the deadline exactly where work does not time out by itself before its limit, `heeds_iff`.
-/

namespace CostCatalog

variable {α : Type}

/-- A fault says that a deadline passed. -/
def Fault.IsDeadline : Fault → Prop
  | .known (.timeout ..) _ => True
  | _ => False

theorem Fault.isDeadline_pastDeadline (operation : String) (limit : Option Duration) :
    (pastDeadline operation limit).IsDeadline := trivial

/-! ## Results -/

namespace WorkResult

/-- Work ended by a passing of time that it met with itself. -/
def TimesOut (r : WorkResult α) : Prop :=
  ∃ text, r.result = some (.error (.unexpected (.raised .timeout text)))

/-- Work ended by a deadline error of its own making. -/
def NamesDeadline (r : WorkResult α) : Prop := ∃ f, r.result = some (.error f) ∧ f.IsDeadline

/-- A caller is told of the limit, because work was cancelled or timed out by itself; or is told what
work came to. -/
private theorem outcome_cases (operation : String) (limit : Option Duration) (r : WorkResult α) :
    (r.outcome operation limit = some (.error (.pastDeadline operation limit)) ∧
        (r.cancelled = true ∨ r.TimesOut)) ∨
      (r.outcome operation limit = r.result ∧ ¬ r.TimesOut) := by
  obtain ⟨result, cancelled, diary⟩ := r
  have hother {x : Except Fault α} (hx : ∀ text, x ≠ .error (.unexpected (.raised .timeout text))) :
      ¬ TimesOut ⟨some x, cancelled, diary⟩ := fun ⟨text, htext⟩ =>
    hx text (Option.some.inj htext)
  match result with
  | none => exact .inr ⟨rfl, fun ⟨_, htext⟩ => nomatch htext⟩
  | some (.ok a) => exact .inr ⟨rfl, hother fun _ h => nomatch h⟩
  | some (.error (.known c context)) => exact .inr ⟨rfl, hother fun _ h => nomatch h⟩
  | some (.error (.unexpected a)) =>
    cases a with
    | raised family text =>
      cases family with
      | timeout => exact .inl ⟨rfl, .inr ⟨text, rfl⟩⟩
      | cancelled =>
        cases cancelled with
        | true => exact .inl ⟨rfl, .inl rfl⟩
        | false => exact .inr ⟨rfl, hother fun _ h => nomatch h⟩
      | _ => exact .inr ⟨rfl, hother fun _ h => nomatch h⟩
    | _ => exact .inr ⟨rfl, hother fun _ h => nomatch h⟩

end WorkResult

namespace Work

variable {operation : String} {limit : Option Duration} {pauses : Nat} {w : Work α}

/-! ## Limits that pass -/

/-- Left alone, work is done before it pauses for one time more than `n`. -/
def DoneWithin : Nat → Work α → Prop
  | _, .done _ => True
  | n, .note _ rest => DoneWithin n rest
  | 0, .pause .. => False
  | n + 1, .pause _ rest => DoneWithin n rest
  | _, .hang _ => False

/-- The limit passes before work is done: it is spent from the start, or work takes more pauses than
fit into it. -/
def Overruns (limit : Option Duration) (pauses : Nat) (w : Work α) : Prop :=
  ∃ d, limit = some d ∧ (d.isSpent = true ∨ ¬ w.DoneWithin pauses)

private theorem cancelled_run_none (w : Work α) : (run none w).cancelled = false := by
  induction w with
  | done result => rfl
  | note line rest ih => exact ih
  | pause cancelled rest _ ih => exact ih
  | hang cancelled => rfl

/-- A budget that suffices makes no difference. -/
private theorem run_of_doneWithin {n : Nat} (h : w.DoneWithin n) : run (some n) w = run none w := by
  induction w generalizing n with
  | done result => rfl
  | note line rest ih => simp only [run, ih h]
  | pause cancelled rest _ ih =>
    cases n with
    | zero => exact h.elim
    | succ n => exact ih h
  | hang cancelled => exact h.elim

private theorem cancelled_run_some_iff {n : Nat} :
    (run (some n) w).cancelled = true ↔ ¬ w.DoneWithin n := by
  induction w generalizing n with
  | done result => simp [run, DoneWithin]
  | note line rest ih => exact ih
  | pause cancelled rest _ ih =>
    cases n with
    | zero => simp [run, DoneWithin]
    | succ n => exact ih
  | hang cancelled => simp [run, DoneWithin]

/-! ## The work itself -/

/-- What becomes of work under a limit, before its caller is told: work whose limit is spent is
cancelled before its first step. -/
def task (limit : Option Duration) (pauses : Nat) (w : Work α) : WorkResult α :=
  match limit with
  | none => run none w
  | some d => if d.isSpent then ⟨some (.error cancellation), true, []⟩ else run (some pauses) w

private theorem within_eq (operation : String) (limit : Option Duration) (pauses : Nat) (w : Work α) :
    w.within operation limit pauses =
      ((w.task limit pauses).outcome operation limit, (w.task limit pauses).diary) := by
  cases limit with
  | none => rfl
  | some d =>
    by_cases hspent : d.isSpent = true
    · simp only [within, task, hspent, if_true]
      rfl
    · simp only [within, task, hspent, Bool.false_eq_true, if_false]

/-- Work is cancelled exactly when its limit passes before it is done. -/
private theorem task_cancelled_iff :
    (w.task limit pauses).cancelled = true ↔ w.Overruns limit pauses := by
  cases limit with
  | none => simp [task, Overruns, cancelled_run_none]
  | some d =>
    by_cases hspent : d.isSpent = true
    · simp [task, Overruns, hspent]
    · simp [task, Overruns, hspent, cancelled_run_some_iff]

/-- Work that is done in time runs as it would alone. -/
private theorem task_of_in_time (h : ¬ w.Overruns limit pauses) :
    w.task limit pauses = run none w := by
  cases limit with
  | none => rfl
  | some d =>
    have hspent : ¬ d.isSpent = true := fun hspent => h ⟨d, rfl, .inl hspent⟩
    have hdone : w.DoneWithin pauses := Classical.byContradiction fun hnot =>
      h ⟨d, rfl, .inr hnot⟩
    simp only [task, hspent, run_of_doneWithin hdone, Bool.false_eq_true, if_false]

/-! ## What a deadline error means -/

/-- The caller of work is told that the deadline passed. -/
def ToldOfDeadline (operation : String) (limit : Option Duration) (pauses : Nat) (w : Work α) : Prop :=
  ∃ f, (w.within operation limit pauses).1 = some (.error f) ∧ f.IsDeadline

/-- The caller of work is told of the deadline only if a limit was given and passed before the work was
done, and is told what the work came to in every other case. -/
structure Heeds (operation : String) (limit : Option Duration) (pauses : Nat) (w : Work α) : Prop where
  late : w.ToldOfDeadline operation limit pauses → w.Overruns limit pauses
  own : ¬ w.ToldOfDeadline operation limit pauses →
    (w.within operation limit pauses).1 = (w.task limit pauses).result
  unlimited : limit = none → ¬ w.ToldOfDeadline operation limit pauses

private theorem not_overruns_none : ¬ w.Overruns none pauses := fun ⟨_, hd, _⟩ => nomatch hd

/-- Callers are told of the deadline when the work was cancelled or timed out by itself, and else are
told what the work came to. -/
theorem toldOfDeadline_cases (operation : String) (h : ¬ (w.task limit pauses).NamesDeadline) :
    (w.ToldOfDeadline operation limit pauses ∧
        (w.Overruns limit pauses ∨ (w.task limit pauses).TimesOut)) ∨
      (¬ w.ToldOfDeadline operation limit pauses ∧ ¬ (w.task limit pauses).TimesOut ∧
        (w.within operation limit pauses).1 = (w.task limit pauses).result) := by
  have hwithin := congrArg Prod.fst (within_eq operation limit pauses w)
  rcases (w.task limit pauses).outcome_cases operation limit with ⟨houtcome, hwhy⟩ | ⟨houtcome, hwhy⟩
  · exact .inl ⟨⟨_, hwithin.trans houtcome, Fault.isDeadline_pastDeadline operation limit⟩,
      hwhy.imp_left task_cancelled_iff.mp⟩
  · have hown := hwithin.trans houtcome
    exact .inr ⟨fun ⟨f, hf, hdeadline⟩ => h ⟨f, hown.symm.trans hf, hdeadline⟩, hwhy, hown⟩

/-- For work that raises no deadline error itself, whatever it does when it is cancelled, and under every
limit: work that is done in time runs as it would alone, and its caller is told of the deadline only if
the deadline passed and else what the work came to, if and only if the work does not time out by itself
in time. -/
theorem heeds_iff (operation : String) (limit : Option Duration) (pauses : Nat) (w : Work α)
    (h : ¬ (w.task limit pauses).NamesDeadline) :
    (¬ w.Overruns limit pauses → w.task limit pauses = run none w) ∧
      (w.Heeds operation limit pauses ↔
        ((w.task limit pauses).TimesOut → w.Overruns limit pauses)) := by
  refine ⟨task_of_in_time, fun hheeds htimesOut => ?_, fun hlate => ?_⟩
  · rcases toldOfDeadline_cases operation h with ⟨htold, -⟩ | ⟨-, hnot, -⟩
    · exact hheeds.late htold
    · exact absurd htimesOut hnot
  · rcases toldOfDeadline_cases operation h with ⟨htold, hwhy⟩ | ⟨hnot, -, hown⟩
    · have hoverruns := hwhy.elim id hlate
      refine ⟨fun _ => hoverruns, fun hnot => absurd htold hnot, fun hlimit => ?_⟩
      rw [hlimit] at hoverruns
      exact absurd hoverruns not_overruns_none
    · exact ⟨fun htold => absurd htold hnot, fun _ => hown, fun _ => hnot⟩

/-- Work that waits for ever, and passes on that it is cancelled. -/
def waiting : Work Unit := .note "started" (.hang (.note "cancelled" (.done (.error cancellation))))

theorem heeds_iff_waiting :
    ¬ (waiting.task (some (.whole 30)) 2).NamesDeadline ∧
      waiting.Heeds "wait" (some (.whole 30)) 2 := by
  have hplain : ¬ (waiting.task (some (.whole 30)) 2).NamesDeadline := by
    rintro ⟨f, hf, hdeadline⟩
    cases hf
    exact hdeadline
  have hoverruns : waiting.Overruns (some (.whole 30)) 2 := ⟨.whole 30, rfl, .inr id⟩
  exact ⟨hplain, (heeds_iff "wait" (some (.whole 30)) 2 waiting hplain).2.mpr fun _ => hoverruns⟩

/-- Work that meets with a passing of time of its own. -/
def timingOut : Work Unit :=
  .note "started" (.done (.error (.unexpected (.raised .timeout "inner"))))

/-- Without any limit the caller is told that the deadline passed. -/
theorem timingOut_without_limit :
    timingOut.within "fetch" none 0 = (some (.error (.pastDeadline "fetch" none)), ["started"]) ∧
      ¬ timingOut.Heeds "fetch" none 0 :=
  ⟨rfl, fun h => h.unlimited rfl ⟨_, rfl, Fault.isDeadline_pastDeadline "fetch" none⟩⟩

end Work

end CostCatalog
