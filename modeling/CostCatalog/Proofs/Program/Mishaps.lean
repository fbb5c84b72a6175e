import CostCatalog.Program.Mishap
import CostCatalog.Proofs.Program.Disciplines
import CostCatalog.Proofs.Program.Runs

/-!
# Running programs while the cache fails

The run of an action through its parts, as without mishaps. What goes wrong with the cache is seen by
the calls of the cache alone: an action without such calls has the outcome, and leaves the store, that
it has with a sound cache, `Action.IsBare.performAmid`; and no call of the cache changes the store.
-/

namespace CostCatalog

variable {α β : Type}

/-! ## Parts of an action -/

theorem Program.runAmid_bind (p : Program α) (f : α → Program β) (q : Prospect) :
    (p.bind f).runAmid q = (f (p.runAmid q).1).runAmid (p.runAmid q).2 := by
  induction p generalizing q with
  | done a => rfl
  | ask r next ih => exact ih _ _

namespace Action

variable (p : Prospect)

@[simp] theorem performAmid_ofExcept (x : Except Fault α) : (ofExcept x).performAmid p = (x, p) := rfl

@[simp] theorem performAmid_attempt (a : Action α) :
    (attempt a).performAmid p = (.ok (a.performAmid p).1, (a.performAmid p).2) := by
  have hrun : (attempt a).performAmid p = _ := Program.runAmid_bind (ExceptT.run a) _ p
  exact hrun

theorem performAmid_bind (a : Action α) (f : α → Action β) :
    (a >>= f).performAmid p =
      match a.performAmid p with
      | (.ok x, p) => (f x).performAmid p
      | (.error e, p) => (.error e, p) := by
  have hrun : (a >>= f).performAmid p =
      (ExceptT.bindCont f (Program.runAmid (ExceptT.run a) p).1 : Program (Except Fault β)).runAmid
        (Program.runAmid (ExceptT.run a) p).2 := Program.runAmid_bind _ _ _
  rw [hrun, performAmid]
  cases Program.runAmid (ExceptT.run a) p with
  | mk x p' => cases x <;> rfl

variable {p}

theorem performAmid_bind_ok {a : Action α} {p' : Prospect} {x : α}
    (h : a.performAmid p = (.ok x, p')) (f : α → Action β) :
    (a >>= f).performAmid p = (f x).performAmid p' := by
  rw [performAmid_bind, h]

theorem performAmid_bind_error {a : Action α} {p' : Prospect} {e : Fault}
    (h : a.performAmid p = (.error e, p')) (f : α → Action β) :
    (a >>= f).performAmid p = (.error e, p') := by
  rw [performAmid_bind, h]

/-- Going on with a pure function of the result. -/
theorem performAmid_map {a : Action α} {p' : Prospect} {x : Except Fault α}
    (h : a.performAmid p = (x, p')) (g : α → β) :
    (a >>= fun v => pure (g v)).performAmid p = (x.map g, p') := by
  cases x with
  | ok v => exact performAmid_bind_ok h _
  | error e => exact performAmid_bind_error h _

end Action

/-! ## With nothing ahead -/

private theorem Program.runAmid_nil (p : Program α) (w : World) :
    p.runAmid { world := w } = ((p.run w).1, { world := (p.run w).2 }) := by
  induction p generalizing w with
  | done a => rfl
  | ask r next ih => exact ih _ _

/-- When nothing goes wrong a run is a run. -/
theorem Action.performAmid_nil (a : Action α) (w : World) :
    a.performAmid { world := w } = ((a.perform w).1, { world := (a.perform w).2 }) :=
  Program.runAmid_nil _ w

/-! ## What mishaps leave alone -/

/-- Two worlds with one store and one reading of the clock on the wall. -/
structure World.Alike (w v : World) : Prop where
  store : w.store = v.store
  wall : w.wall = v.wall

namespace World.Alike

variable {w v u : World}

theorem refl (w : World) : w.Alike w := ⟨rfl, rfl⟩

theorem symm (h : w.Alike v) : v.Alike w := ⟨h.store.symm, h.wall.symm⟩

theorem trans (h : w.Alike v) (h' : v.Alike u) : w.Alike u :=
  ⟨h.store.trans h'.store, h.wall.trans h'.wall⟩

end World.Alike

/-- A request that is a call of the cache. -/
def Request.IsCacheCall : Request → Prop
  | .cacheGet _ | .cacheSet .. | .cacheDelete _ | .cacheDeleteMatching _ => True
  | _ => False

/-- What is said of a failure does not concern a request that is no call of the cache. -/
theorem Request.failed_of_bare {r : Request} (h : ¬ r.IsCacheCall) (failure : Option String) :
    failure.bind r.failed = none := by
  cases failure with
  | none => rfl
  | some summary => cases r <;> first | rfl | exact (h trivial).elim

namespace World

theorem spoil_alike (w : World) (texts : List (String × String)) : (w.spoil texts).Alike w := by
  unfold spoil
  split <;> exact ⟨rfl, rfl⟩

/-- A call of the cache changes nothing but the cache and the log. -/
theorem answer_alike (w : World) {r : Request} (h : r.IsCacheCall) : (w.answer r).2.Alike w := by
  cases r with
  | cacheGet | cacheSet | cacheDelete => exact ⟨(w.onCache_frame ..).2, (w.onCache_frame ..).1⟩
  | cacheDeleteMatching pattern =>
    exact ⟨(w.deleteMatching_frame pattern).2, (w.deleteMatching_frame pattern).1⟩
  | _ => exact h.elim

/-- The cache that a request leaves of the one that it finds. -/
def leaves (w : World) (c : Cache) : Request → Cache
  | .cacheGet key => (c.get key w.monotonic).2
  | .cacheSet key v ttl => (c.set key (.json v) (.whole ttl) w.monotonic).2
  | .cacheDelete key => c.delete [key]
  | .cacheDeleteMatching pattern => (c.deleteMatching pattern).2
  | _ => c

/-- A request does nothing to the cache, or does to it what the cache's own call does. -/
theorem cache_answer (w : World) (r : Request) :
    (w.answer r).2.cache = w.cache ∨
      ∃ c, w.cache = .memory c ∧ (w.answer r).2.cache = .memory (w.leaves c r) := by
  have hcall {α : Type} (call : CacheCall) (absent : α) (f : Cache → Except Fault α × Cache) :
      (w.onCache call absent f).2.cache = w.cache ∨
        ∃ c, w.cache = .memory c ∧ (w.onCache call absent f).2.cache = .memory (f c).2 := by
    unfold onCache
    split
    · exact Or.inl rfl
    · split
      · exact Or.inl rfl
      · next c hc => exact Or.inr ⟨c, hc, rfl⟩
  cases r with
  | insert k e => simp only [answer]; split <;> exact Or.inl rfl
  | update k e => simp only [answer, onRow]; split <;> exact Or.inl rfl
  | delete k c => simp only [answer, onRow]; split <;> exact Or.inl rfl
  | cacheGet | cacheSet | cacheDelete => exact hcall ..
  | cacheDeleteMatching pattern =>
    have h := hcall .deleteMatching 0 fun c =>
      (.ok (c.deleteMatching pattern).1, (c.deleteMatching pattern).2)
    have hsame : (w.deleteMatching pattern).2.cache =
        (w.onCache .deleteMatching 0 fun c =>
          (.ok (c.deleteMatching pattern).1, (c.deleteMatching pattern).2)).2.cache := by
      unfold deleteMatching
      split
      · next heq => exact congrArg (fun y => y.2.cache) heq.symm
      · next heq => split <;> exact congrArg (fun y => y.2.cache) heq.symm
    rw [← hsame] at h
    exact h
  | find | count | page | contains | now | log | mark => exact Or.inl rfl

/-- Any other request is answered out of the store and by the clock on the wall. -/
theorem Alike.answer {w v : World} (h : w.Alike v) {r : Request} (hr : ¬ r.IsCacheCall) :
    (w.answer r).1 = (v.answer r).1 ∧ (w.answer r).2.Alike (v.answer r).2 := by
  obtain ⟨hstore, hwall⟩ := h
  cases r with
  | insert k e =>
    simp only [World.answer, hstore]
    split <;> exact ⟨rfl, by simp [hstore], hwall⟩
  | update k e =>
    simp only [World.answer, onRow, hstore]
    split <;> exact ⟨rfl, by simp [hstore], hwall⟩
  | delete k c =>
    simp only [World.answer, onRow, hstore]
    split <;> exact ⟨rfl, by simp [hstore], hwall⟩
  | find | count | page | contains => exact ⟨by simp only [World.answer, hstore], hstore, hwall⟩
  | now => exact ⟨hwall, hstore, hwall⟩
  | log | mark => exact ⟨rfl, hstore, hwall⟩
  | cacheGet | cacheSet | cacheDelete | cacheDeleteMatching => exact (hr trivial).elim

private theorem answerAmid_alike (w : World) (m : Mishap) {r : Request} (h : r.IsCacheCall) :
    (w.answerAmid m r).2.Alike w := by
  unfold answerAmid
  split
  · exact w.spoil_alike m.spoilt
  · exact ((w.spoil m.spoilt).answer_alike h).trans (w.spoil_alike m.spoilt)

/-- A request that is no call of the cache does not fail with it. -/
private theorem answerAmid_of_bare (w : World) (m : Mishap) {r : Request} (h : ¬ r.IsCacheCall) :
    w.answerAmid m r = (w.spoil m.spoilt).answer r := by
  rw [answerAmid, r.failed_of_bare h]

end World

namespace Prospect

/-- A call of the cache leaves the store and the clock on the wall alone. -/
theorem answer_alike (p : Prospect) {r : Request} (h : r.IsCacheCall) :
    (p.answer r).2.world.Alike p.world := by
  unfold answer
  split
  · exact p.world.answer_alike h
  · exact p.world.answerAmid_alike _ h

/-- Any other request is answered as without mishaps. -/
theorem answer_of_bare (p : Prospect) {w : World} (hw : p.world.Alike w) {r : Request}
    (h : ¬ r.IsCacheCall) :
    (p.answer r).1 = (w.answer r).1 ∧ (p.answer r).2.world.Alike (w.answer r).2 := by
  unfold answer
  split
  · exact hw.answer h
  · next m ahead _ =>
    rw [World.answerAmid_of_bare _ m h]
    exact ((World.spoil_alike _ m.spoilt).trans hw).answer h

end Prospect

/-- No request sets the clock on the wall. -/
theorem Prospect.wall_answer (p : Prospect) (r : Request) :
    (p.answer r).2.world.wall = p.world.wall := by
  by_cases h : r.IsCacheCall
  · exact (p.answer_alike h).wall
  · exact ((p.answer_of_bare (.refl _) h).2.wall).trans (World.wall_answer _ r)

theorem Action.wall_performAmid {a : Action α} {p p' : Prospect} {x : Except Fault α}
    (h : a.performAmid p = (x, p')) : p'.world.wall = p.world.wall := by
  have hrun (q : Program (Except Fault α)) : ∀ p, (q.runAmid p).2.world.wall = p.world.wall := by
    induction q with
    | done a => exact fun _ => rfl
    | ask r next ih => exact fun p => (ih _ _).trans (p.wall_answer r)
  exact (congrArg (fun y => y.2.world.wall) h).symm.trans (hrun _ p)

/-- A run keeps to a discipline, and keeps what one reply keeps, whatever goes wrong. -/
theorem Program.runAmid_follows {σ : Type} {d : Discipline σ} {ends : α → σ → Prop}
    {inv : σ → Prospect → Prop}
    (hkept : ∀ g p r, inv g p → d.may g r →
      d.relies g r (p.answer r).1 ∧ inv (d.after g r (p.answer r).1) (p.answer r).2)
    {q : Program α} {g : σ} {p : Prospect} (hq : q.Follows d ends g) (hinv : inv g p) :
    ∃ g', ends (q.runAmid p).1 g' ∧ inv g' (q.runAmid p).2 := by
  induction q generalizing g p with
  | done a => exact ⟨g, hq, hinv⟩
  | ask r next ih =>
    obtain ⟨hrelies, hinv'⟩ := hkept g p r hinv hq.1
    exact ih _ (hq.2 _ hrelies) hinv'

/-! ## Without the cache -/

/-- The discipline of not calling the cache. -/
def bare : Discipline Unit where
  may _ r := ¬ r.IsCacheCall
  relies _ _ _ := True
  after g _ _ := g
  may_log _ _ := id
  after_log _ _ := rfl

/-- An action never calls the cache, whatever it is told. -/
def Action.IsBare (a : Action α) : Prop := a.Follows bare (fun _ _ => True) ()

private theorem Program.runAmid_bare {ends : α → Unit → Prop} {q : Program α}
    (hq : q.Follows bare ends ()) {p : Prospect} {w : World} (hw : p.world.Alike w) :
    (q.runAmid p).1 = (q.run w).1 ∧ (q.runAmid p).2.world.Alike (q.run w).2 := by
  induction q generalizing p w with
  | done a => exact ⟨rfl, hw⟩
  | ask r next ih =>
    obtain ⟨hreply, halike⟩ := p.answer_of_bare hw hq.1
    have hnext := ih _ (hq.2 (p.answer r).1 trivial) halike
    rw [hreply] at hnext
    simp only [runAmid, run, hreply]
    exact hnext

namespace Action

/-- An action that never calls the cache does what it does with a sound cache. -/
theorem IsBare.performAmid {a : Action α} (h : a.IsBare) (p : Prospect) :
    ∃ p', a.performAmid p = ((a.perform p.world).1, p') ∧ p'.world.Alike (a.perform p.world).2 := by
  obtain ⟨hresult, halike⟩ := Program.runAmid_bare h (World.Alike.refl p.world)
  exact ⟨_, Prod.ext hresult rfl, halike⟩

end Action

end CostCatalog
