import CostCatalog.Program.World

/-!
# Running programs

How a run goes through the ways of putting programs together, so that no later proof opens an
action: a bind runs its first part and then, unless that ended with a fault, the second.
-/

namespace CostCatalog

variable {α β : Type}

/-- The reply to an insertion, and the world after it, when the store takes the entry. -/
theorem World.answer_insert_ok {w : World} {k : Kind} {e : Entry k} {s : Store}
    (h : w.store.insert e = .ok s) : w.answer (.insert k e) = (.ok (), { w with store := s }) := by
  simp only [answer, h]

/-- The reply to an insertion that the store refuses; the world stays as it is. -/
theorem World.answer_insert_error {w : World} {k : Kind} {e : Entry k} {f : StoreFailure}
    (h : w.store.insert e = .error f) : w.answer (.insert k e) = (.error f, w) := by
  simp only [answer, h]

theorem Program.run_bind (p : Program α) (f : α → Program β) (w : World) :
    (p.bind f).run w = (f (p.run w).1).run (p.run w).2 := by
  induction p generalizing w with
  | done a => rfl
  | ask r next ih => exact ih _ _

namespace Action

variable (w : World)

@[simp] theorem perform_pure (a : α) : (pure a : Action α).perform w = (.ok a, w) := rfl

@[simp] theorem perform_request (r : Request) :
    (request r).perform w = (.ok (w.answer r).1, (w.answer r).2) := rfl

theorem perform_bind (a : Action α) (f : α → Action β) :
    (a >>= f).perform w =
      match a.perform w with
      | (.ok x, w) => (f x).perform w
      | (.error e, w) => (.error e, w) := by
  have hrun : (a >>= f).perform w =
      (ExceptT.bindCont f (Program.run (ExceptT.run a) w).1 : Program (Except Fault β)).run
        (Program.run (ExceptT.run a) w).2 := Program.run_bind _ _ _
  rw [hrun, perform]
  cases Program.run (ExceptT.run a) w with
  | mk x w' => cases x <;> rfl

theorem perform_bind_ok {a : Action α} {w w' : World} {x : α} (h : a.perform w = (.ok x, w'))
    (f : α → Action β) : (a >>= f).perform w = (f x).perform w' := by
  rw [perform_bind, h]

theorem perform_bind_error {a : Action α} {w w' : World} {e : Fault}
    (h : a.perform w = (.error e, w')) (f : α → Action β) :
    (a >>= f).perform w = (.error e, w') := by
  rw [perform_bind, h]

/-- Going on with a pure function of the result. -/
theorem perform_map {a : Action α} {w w' : World} {x : Except Fault α} (h : a.perform w = (x, w'))
    (g : α → β) : (a >>= fun v => pure (g v)).perform w = (x.map g, w') := by
  cases x with
  | ok v => exact perform_bind_ok h _
  | error e => exact perform_bind_error h _

@[simp] theorem perform_attempt (a : Action α) :
    (attempt a).perform w = (.ok (a.perform w).1, (a.perform w).2) := by
  have hrun : (attempt a).perform w = _ := Program.run_bind (ExceptT.run a) _ w
  exact hrun

end Action

/-! ## What requests leave alone -/

namespace World

variable (w : World)

/-- A call of the cache leaves the clock on the wall and the store alone. -/
theorem onCache_frame (c : CacheCall) (absent : α) (f : Cache → Except Fault α × Cache) :
    (w.onCache c absent f).2.wall = w.wall ∧ (w.onCache c absent f).2.store = w.store := by
  unfold onCache
  split
  · exact ⟨rfl, rfl⟩
  · split <;> exact ⟨rfl, rfl⟩

theorem deleteMatching_frame (pattern : String) :
    (w.deleteMatching pattern).2.wall = w.wall ∧ (w.deleteMatching pattern).2.store = w.store := by
  unfold deleteMatching
  split
  · next w' heq =>
    cases (congrArg Prod.snd heq : _ = w')
    exact w.onCache_frame ..
  · next w' heq =>
    cases (congrArg Prod.snd heq : _ = w')
    split <;> exact w.onCache_frame ..

/-- No request sets the clock on the wall. -/
theorem wall_answer (r : Request) : (w.answer r).2.wall = w.wall := by
  cases r with
  | insert k e => simp only [answer]; split <;> rfl
  | update k e => simp only [answer, onRow]; split <;> rfl
  | delete k c => simp only [answer, onRow]; split <;> rfl
  | cacheGet | cacheSet | cacheDelete => exact (w.onCache_frame ..).1
  | cacheDeleteMatching pattern => exact (w.deleteMatching_frame pattern).1
  | find | count | page | contains | now | log | mark => rfl

end World

private theorem Program.wall_run (p : Program α) (w : World) : (p.run w).2.wall = w.wall := by
  induction p generalizing w with
  | done a => rfl
  | ask r next ih => exact (ih _ _).trans (w.wall_answer r)

namespace Action

variable {a : Action α} {w w' : World} {x : Except Fault α}

/-- An action is done at one reading of the clock on the wall. -/
theorem wall_perform (h : a.perform w = (x, w')) : w'.wall = w.wall :=
  (congrArg (World.wall ∘ Prod.snd) h).symm.trans (Program.wall_run _ w)

theorem now_perform_after (h : a.perform w = (x, w')) :
    Action.now.perform w' = (.ok w.wall, w') := by
  rw [← wall_perform h]
  rfl

end Action

end CostCatalog
