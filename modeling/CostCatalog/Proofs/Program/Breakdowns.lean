import CostCatalog.Program.Breakdown
import CostCatalog.Proofs.Program.Mishaps

/-!
# Running programs under a breakdown

The run of an action through its parts, as without a breakdown, with the requests of the parts one
after the other. An action that never calls the cache runs as it does with a sound one,
`Action.IsBare.performUnder`.
-/

namespace CostCatalog

variable {α β : Type} {b : Breakdown}

/-! ## Requests -/

namespace World

variable {w : World} {r : Request}

/-- A request that is no call of the cache does not fail with it. -/
theorem answerUnder_of_bare (h : ¬ r.IsCacheCall) : w.answerUnder b r = w.answer r := by
  rw [answerUnder, r.failed_of_bare h]

theorem answerUnder_of_sound (h : b r = none) : w.answerUnder b r = w.answer r := by
  rw [answerUnder, h]
  rfl

end World

/-! ## Parts of an action -/

private theorem Program.runUnder_bind (p : Program α) (f : α → Program β) (w : World) :
    (p.bind f).runUnder b w =
      let (x, made, w₁) := p.runUnder b w
      let (y, made', w₂) := (f x).runUnder b w₁
      (y, made ++ made', w₂) := by
  induction p generalizing w with
  | done a => rfl
  | ask r next ih =>
    have hnext := ih (w.answerUnder b r).1 (w.answerUnder b r).2
    simp only [bind, runUnder, hnext, List.cons_append]

namespace Action

variable {w w₁ w₂ : World} {made made' : List Request}

theorem performUnder_bind_ok {a : Action α} {f : α → Action β} {x : α} {y : Except Fault β}
    (ha : a.performUnder b w = (.ok x, made, w₁)) (hf : (f x).performUnder b w₁ = (y, made', w₂)) :
    (a >>= f).performUnder b w = (y, made ++ made', w₂) := by
  have hrun : (a >>= f).performUnder b w = _ :=
    Program.runUnder_bind (ExceptT.run a) (ExceptT.bindCont f) w
  rw [hrun]
  simp only [performUnder] at ha hf
  simp only [ha, ExceptT.bindCont]
  exact congrArg (fun z => (z.1, made ++ z.2.1, z.2.2)) hf

/-- Going on with a pure function of the result. -/
theorem performUnder_map {a : Action α} {x : α} (h : a.performUnder b w = (.ok x, made, w₁))
    (g : α → β) : (a >>= fun v => pure (g v)).performUnder b w = (.ok (g x), made, w₁) := by
  have hpure : (pure (g x) : Action β).performUnder b w₁ = (.ok (g x), [], w₁) := rfl
  rw [performUnder_bind_ok (f := fun v => pure (g v)) h hpure, List.append_nil]

theorem performUnder_request (r : Request) :
    (request r).performUnder b w = (.ok (w.answerUnder b r).1, [r], (w.answerUnder b r).2) := rfl

theorem performUnder_log (r : LogRecord) :
    (log r).performUnder b w = (.ok (), [.log r], { w with records := r :: w.records }) := by
  rw [log, performUnder_request, World.answerUnder_of_bare id]
  rfl

end Action

/-! ## Without the cache -/

/-- An action that never calls the cache does what it does with a sound cache. -/
theorem Action.IsBare.performUnder {a : Action α} (h : a.IsBare) (b : Breakdown) (w : World) :
    ∃ made, a.performUnder b w = ((a.perform w).1, made, (a.perform w).2) ∧
      ∀ r ∈ made, ¬ r.IsCacheCall := by
  suffices hprogram : ∀ (p : Program (Except Fault α)) (w : World),
      p.Follows bare (fun _ _ => True) () →
        ∃ made, p.runUnder b w = ((p.run w).1, made, (p.run w).2) ∧ ∀ r ∈ made, ¬ r.IsCacheCall from
    hprogram _ w h
  intro p
  induction p with
  | done x => exact fun _ _ => ⟨[], rfl, fun _ hr => nomatch hr⟩
  | ask r next ih =>
    rintro w ⟨hbare, hnext⟩
    obtain ⟨made, hrun, hmade⟩ := ih (w.answer r).1 (w.answer r).2 (hnext _ trivial)
    refine ⟨r :: made, ?_, List.forall_mem_cons.mpr ⟨hbare, hmade⟩⟩
    simp only [Program.runUnder, Program.run, World.answerUnder_of_bare hbare, hrun]

end CostCatalog
