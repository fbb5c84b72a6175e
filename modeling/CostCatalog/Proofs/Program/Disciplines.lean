import CostCatalog.Program.Pool
import CostCatalog.Repository.Basic

/-!
# Disciplines

How to reason about programs that run side by side. A discipline says what a program may ask in each
of its phases, what it relies on in the reply, and which phase comes next; `Program.Follows` is that
a program keeps to one whatever it is told. This is settled for each program by itself, part by part
along its binds.

A property of the phases of all programs and of their world then holds throughout every schedule if
one reply keeps it, and keeps what the discipline relies on: `Pool.run_follows`.
-/

namespace CostCatalog

/-- What programs may ask, what they rely on, and how they go on, in each phase. Writing to the log
is always allowed and changes no phase. -/
structure Discipline (σ : Type) where
  may : σ → Request → Prop
  relies : σ → (r : Request) → r.Reply → Prop
  after : σ → (r : Request) → r.Reply → σ
  may_log : ∀ g r, may g (.log r)
  after_log : ∀ g r, after g (.log r) () = g

variable {σ α β : Type} {d : Discipline σ}

/-- A program keeps to a discipline from a phase on, and ends as it should. -/
def Program.Follows (d : Discipline σ) (ends : α → σ → Prop) : Program α → σ → Prop
  | .done a, g => ends a g
  | .ask r next, g =>
    d.may g r ∧ ∀ reply, d.relies g r reply → (next reply).Follows d ends (d.after g r reply)

/-- An action keeps to a discipline. -/
def Action.Follows (d : Discipline σ) (ends : Except Fault α → σ → Prop) (a : Action α) (g : σ) :
    Prop :=
  Program.Follows d ends (ExceptT.run a) g

/-! ## Along the parts of a program -/

namespace Program

theorem Follows.mono {ends ends' : α → σ → Prop} {p : Program α} {g : σ}
    (h : p.Follows d ends g) (himp : ∀ a g', ends a g' → ends' a g') : p.Follows d ends' g := by
  induction p generalizing g with
  | done a => exact himp a g h
  | ask r next ih => exact ⟨h.1, fun reply hreply => ih reply (h.2 reply hreply)⟩

theorem Follows.bind {ends : β → σ → Prop} {p : Program α} {f : α → Program β} {g : σ}
    (h : p.Follows d (fun a g' => (f a).Follows d ends g') g) : (p.bind f).Follows d ends g := by
  induction p generalizing g with
  | done a => exact h
  | ask r next ih => exact ⟨h.1, fun reply hreply => ih reply (h.2 reply hreply)⟩

/-- A program run alone keeps to its discipline, and keeps what one reply keeps. -/
theorem run_follows {ends : α → σ → Prop} {inv : σ → World → Prop}
    (hkept : ∀ g w r, inv g w → d.may g r →
      d.relies g r (w.answer r).1 ∧ inv (d.after g r (w.answer r).1) (w.answer r).2)
    {p : Program α} {g : σ} {w : World} (hp : p.Follows d ends g) (hinv : inv g w) :
    ∃ g', ends (p.run w).1 g' ∧ inv g' (p.run w).2 := by
  induction p generalizing g w with
  | done a => exact ⟨g, hp, hinv⟩
  | ask r next ih =>
    obtain ⟨hrelies, hinv'⟩ := hkept g w r hinv hp.1
    exact ih _ (hp.2 _ hrelies) hinv'

end Program

namespace Action

variable {ends : Except Fault α → σ → Prop} {ends' : Except Fault β → σ → Prop} {g : σ}

theorem follows_pure {a : α} (h : ends (.ok a) g) : (pure a : Action α).Follows d ends g := h

theorem follows_fail {f : Fault} (h : ends (.error f) g) :
    (fail f : Action α).Follows d ends g := h

theorem follows_ofExcept {x : Except Fault α} (h : ends x g) : (ofExcept x).Follows d ends g := h

theorem Follows.mono {ends' : Except Fault α → σ → Prop} {a : Action α}
    (h : a.Follows d ends g) (himp : ∀ x g', ends x g' → ends' x g') : a.Follows d ends' g :=
  Program.Follows.mono h himp

/-- A bind goes on from where its first part ended, unless that was with a fault. -/
theorem follows_bind (mid : Except Fault α → σ → Prop) {a : Action α} {f : α → Action β}
    (h : a.Follows d mid g) (hok : ∀ v g', mid (.ok v) g' → (f v).Follows d ends' g')
    (herror : ∀ e g', mid (.error e) g' → ends' (.error e) g') :
    (a >>= f).Follows d ends' g := by
  refine Program.Follows.bind (f := ExceptT.bindCont f) (h.mono ?_)
  intro x g' hx
  cases x with
  | ok v => exact hok v g' hx
  | error e => exact herror e g' hx

/-- A request, and what is made of the reply. -/
theorem follows_ask {r : Request} {f : r.Reply → Action β} (hmay : d.may g r)
    (h : ∀ reply, d.relies g r reply → (f reply).Follows d ends' (d.after g r reply)) :
    (request r >>= f).Follows d ends' g := ⟨hmay, h⟩

/-- A record written, and what comes after it. -/
theorem follows_log_bind {r : LogRecord} {f : Unit → Action β} (h : (f ()).Follows d ends' g) :
    (log r >>= f).Follows d ends' g :=
  ⟨d.may_log g r, fun _ _ => (d.after_log g r).symm ▸ h⟩

theorem Follows.attempt {a : Action α} {ends : Except Fault (Except Fault α) → σ → Prop}
    (h : a.Follows d (fun x g' => ends (.ok x) g') g) : (Action.attempt a).Follows d ends g :=
  Program.Follows.bind h

/-- The result of a statement ends as its failure is reported; that it is logged plays no part. -/
theorem follows_settle {operation : String} {x : Except StoreFailure α}
    (h : ends (x.mapError (·.toFault operation)) g) :
    (Repository.settle operation x).Follows d ends g := by
  cases x with
  | ok a => exact h
  | error f =>
    unfold Repository.settle
    cases hr : f.record operation with
    | none =>
      simp only [hr]
      exact h
    | some r =>
      simp only [hr]
      exact follows_log_bind h

/-- A statement settled, and what is made of its result. -/
theorem follows_settle_bind {operation : String} {x : Except StoreFailure α} {f : α → Action β}
    (hok : ∀ v, x = .ok v → (f v).Follows d ends' g)
    (herror : ∀ e, x = .error e → ends' (.error (e.toFault operation)) g) :
    (Repository.settle operation x >>= f).Follows d ends' g := by
  refine follows_bind (fun y g' => y = x.mapError (·.toFault operation) ∧ g' = g)
    (follows_settle ⟨rfl, rfl⟩) ?_ ?_
  · rintro v g' ⟨hv, rfl⟩
    cases x with
    | ok a =>
      cases hv
      exact hok _ rfl
    | error e => cases hv
  · rintro e g' ⟨he, rfl⟩
    cases x with
    | ok a => cases he
    | error e =>
      cases he
      exact herror _ rfl

/-- A failure that is reported but not raised, and what is made of its report. -/
theorem follows_report_bind {operation : String} {f : StoreFailure}
    {next : Except Fault α → Action β}
    (h : (next (.error (f.toFault operation))).Follows d ends' g) :
    (attempt (Repository.settle operation (.error f)) >>= next).Follows d ends' g := by
  refine follows_bind (fun x g' => x = .ok (.error (f.toFault operation)) ∧ g' = g)
    (Follows.attempt (follows_settle ⟨rfl, rfl⟩)) ?_ ?_
  · rintro x g' ⟨hx, rfl⟩
    cases hx
    exact h
  · rintro e g' ⟨he, -⟩
    cases he

end Action

/-! ## In a pool -/

/-- Whether a program is done. -/
def Program.isDone : Program α → Bool
  | .done _ => true
  | .ask _ _ => false

theorem Program.done_of_isDone {p : Program α} (h : p.isDone = true) : ∃ a, p = .done a := by
  cases p with
  | done a => exact ⟨a, rfl⟩
  | ask r next => cases h

namespace Pool

variable {ι : Type} {ends : ι → α → σ → Prop} {p : Pool ι α}

/-- Every program of a pool keeps to a discipline, each from its phase and to its end. -/
def Follows (d : Discipline σ) (ends : ι → α → σ → Prop) (p : Pool ι α) (phases : ι → σ) : Prop :=
  ∀ i, (p.programs i).Follows d (ends i) (phases i)

/-- A program that is done has ended as it should. -/
theorem Follows.ended {phases : ι → σ} (h : p.Follows d ends phases) {i : ι} {a : α}
    (hdone : p.programs i = .done a) : ends i a (phases i) := by
  have hi := h i
  rw [hdone] at hi
  exact hi

variable [DecidableEq ι]

theorem run_append (p : Pool ι α) (turns turns' : List (Turn ι)) :
    p.run (turns ++ turns') = (p.run turns).run turns' := List.foldl_append ..

theorem run_cons (p : Pool ι α) (t : Turn ι) (turns : List (Turn ι)) :
    p.run (t :: turns) = (p.step t).run turns := rfl

/-- The turn of one program leaves every other where it is. -/
theorem programs_step_of_ne {t : Turn ι} {i : ι} (h : t.who ≠ i) :
    (p.step t).programs i = p.programs i := by
  unfold step
  cases p.programs t.who with
  | done a => rfl
  | ask r next => exact Function.update_of_ne h.symm _ _

/-- At its turn a program goes on with the reply to its request. -/
theorem programs_step {t : Turn ι} {r : Request} {next : r.Reply → Program α}
    (h : p.programs t.who = .ask r next) :
    (p.step t).programs t.who = next ((p.world.clocked t).answer r).1 := by
  unfold step
  rw [h]
  exact Function.update_self ..

/-- The turn of a program that is done changes nothing. -/
theorem step_of_done {t : Turn ι} {a : α} (h : p.programs t.who = .done a) : p.step t = p := by
  unfold step
  rw [h]

/-- A program that is done stays as it is. -/
theorem run_done {i : ι} {a : α} (h : p.programs i = .done a) (turns : List (Turn ι)) :
    (p.run turns).programs i = .done a := by
  induction turns generalizing p with
  | nil => exact h
  | cons t turns ih =>
    apply ih
    by_cases ht : t.who = i
    · subst ht
      rw [step_of_done h]
      exact h
    · exact (programs_step_of_ne ht).trans h

/-- What one reply keeps of a property of phases and world. -/
def Kept (d : Discipline σ) (inv : (ι → σ) → World → Prop) (good : World → Prop) : Prop :=
  ∀ (phases : ι → σ) (w : World) (i : ι) (r : Request), inv phases w → d.may (phases i) r →
    good (w.answer r).2 → d.relies (phases i) r (w.answer r).1 ∧
      inv (Function.update phases i (d.after (phases i) r (w.answer r).1)) (w.answer r).2

/-- A property of the world holds throughout a schedule. -/
def Always (good : World → Prop) (p : Pool ι α) : List (Turn ι) → Prop
  | [] => good p.world
  | t :: turns => good p.world ∧ (p.step t).Always good turns

theorem Always.first {good : World → Prop} {turns : List (Turn ι)} (h : p.Always good turns) :
    good p.world := by
  cases turns with
  | nil => exact h
  | cons t turns => exact h.1

theorem always_of_forall {good : World → Prop} (h : ∀ w, good w) (turns : List (Turn ι)) :
    p.Always good turns := by
  induction turns generalizing p with
  | nil => exact h _
  | cons t turns ih => exact ⟨h _, ih⟩

/-- One turn keeps to the discipline, and keeps a property that one reply keeps. Only the phase of the
program whose turn it is changes. -/
theorem step_follows {inv : (ι → σ) → World → Prop} {good : World → Prop} (hkept : Kept d inv good)
    {t : Turn ι} (hclocked : ∀ phases w, inv phases w → inv phases (w.clocked t)) {phases : ι → σ}
    (hp : p.Follows d ends phases) (hinv : inv phases p.world) (hgood : good (p.step t).world) :
    ∃ phases', (p.step t).Follows d ends phases' ∧ inv phases' (p.step t).world ∧
      ∀ j, t.who ≠ j → phases' j = phases j := by
  have hwho := hp t.who
  unfold step at hgood ⊢
  cases hprogram : p.programs t.who with
  | done a => exact ⟨phases, hp, hinv, fun _ _ => rfl⟩
  | ask r next =>
    rw [hprogram] at hwho hgood
    obtain ⟨hmay, hnext⟩ := hwho
    obtain ⟨hrelies, hinv'⟩ :=
      hkept phases (p.world.clocked t) t.who r (hclocked _ _ hinv) hmay hgood
    refine ⟨_, ?_, hinv', fun j hj => Function.update_of_ne hj.symm _ _⟩
    intro i
    by_cases hi : i = t.who
    · subst hi
      simp only [Function.update_self]
      exact hnext _ hrelies
    · simp only [Function.update_of_ne hi]
      exact hp i

/-- Every schedule keeps to the discipline, and keeps what one reply keeps. -/
theorem run_follows {inv : (ι → σ) → World → Prop} {good : World → Prop} (hkept : Kept d inv good)
    (turns : List (Turn ι))
    (hclocked : ∀ t ∈ turns, ∀ phases w, inv phases w → inv phases (w.clocked t))
    {phases : ι → σ} (hp : p.Follows d ends phases) (hinv : inv phases p.world)
    (hgood : p.Always good turns) :
    ∃ phases', (p.run turns).Follows d ends phases' ∧ inv phases' (p.run turns).world := by
  induction turns generalizing p phases with
  | nil => exact ⟨phases, hp, hinv⟩
  | cons t turns ih =>
    obtain ⟨phases', hp', hinv', -⟩ :=
      step_follows hkept (hclocked t (List.mem_cons_self ..)) hp hinv hgood.2.first
    exact ih (fun u hu => hclocked u (List.mem_cons_of_mem t hu)) hp' hinv' hgood.2

end Pool

end CostCatalog
