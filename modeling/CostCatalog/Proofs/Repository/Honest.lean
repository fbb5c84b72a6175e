import CostCatalog.Proofs.Cache.Outages
import CostCatalog.Proofs.Cache.Transparency
import CostCatalog.Proofs.Repository.Contract

/-!
# Honest repositories

What can be relied on when any call may fail: a call comes to a result together with its effect on the
store, or ends with some fault and leaves the store as it was. Nothing is said of which fault it is or
of when a call fails, only that no call is cancelled. What a call reads is what a table would show;
behind a cache it need not be the table that the store holds now.

The repositories over a store are honest, and so they are behind a cache that is coherent with it,
`Repository.serving_honest`.
-/

namespace CostCatalog

variable {k : Kind} {α β : Type}

/-! ## All or nothing -/

/-- A request that neither the store nor the cache sees. -/
def Request.IsIdle : Request → Prop
  | .now | .log _ => True
  | _ => False

theorem Prospect.answer_idle (p : Prospect) {r : Request} (h : r.IsIdle) :
    (p.answer r).2.world.Alike p.world := by
  cases r with
  | now | log => exact (p.answer_of_bare (.refl _) id).2.trans ⟨rfl, rfl⟩
  | _ => exact h.elim

namespace Action

/-- An action comes to a result and has its effect on the store, or ends with a fault, which is no
cancellation, and leaves the store as it was. Either way what lies ahead is good again. -/
structure AllOrNothing (a : Action α) (good : Prospect → Prop) (effect : α → Store → Prop)
    (p : Prospect) : Prop where
  good : good (a.performAmid p).2
  done : ∀ x, (a.performAmid p).1 = .ok x → effect x (a.performAmid p).2.world.store
  refused : ∀ f, (a.performAmid p).1 = .error f → (a.performAmid p).2.world.store = p.world.store
  uncancelled : ∀ f, (a.performAmid p).1 = .error f → f.isCancellation = false

namespace AllOrNothing

variable {good : Prospect → Prop} {p : Prospect}

theorem of_ok {a : Action α} {effect : α → Store → Prop} {x : α} {p' : Prospect}
    (hrun : a.performAmid p = (.ok x, p')) (hgood : good p') (heffect : effect x p'.world.store) :
    a.AllOrNothing good effect p := by
  refine ⟨?_, ?_, ?_, ?_⟩
  · rwa [hrun]
  · intro y hy
    rw [hrun] at hy ⊢
    cases hy
    exact heffect
  · intro f hf
    rw [hrun] at hf
    cases hf
  · intro f hf
    rw [hrun] at hf
    cases hf

theorem of_error {a : Action α} {effect : α → Store → Prop} {f : Fault} {p' : Prospect}
    (hrun : a.performAmid p = (.error f, p')) (hf : f.isCancellation = false) (hgood : good p')
    (hstore : p'.world.store = p.world.store) : a.AllOrNothing good effect p := by
  refine ⟨?_, ?_, ?_, ?_⟩
  · rwa [hrun]
  · intro y hy
    rw [hrun] at hy
    cases hy
  · intro g _
    rwa [hrun]
  · intro g hg
    rw [hrun] at hg
    cases hg
    exact hf

theorem mono {a : Action α} {effect effect' : α → Store → Prop}
    (h : a.AllOrNothing good effect p) (himp : ∀ x s, effect x s → effect' x s) :
    a.AllOrNothing good effect' p :=
  ⟨h.good, fun x hx => himp x _ (h.done x hx), h.refused, h.uncancelled⟩

theorem pure {effect : α → Store → Prop} {x : α} (hgood : good p)
    (heffect : effect x p.world.store) : (pure x : Action α).AllOrNothing good effect p :=
  of_ok rfl hgood heffect

theorem fail {effect : α → Store → Prop} {f : Fault} (hf : f.isCancellation = false)
    (hgood : good p) : (Action.fail f : Action α).AllOrNothing good effect p :=
  of_error rfl hf hgood rfl

/-- A value that is read from what was given, and what is made of it. -/
theorem ofExcept_bind {x : Except Fault α} {f : α → Action β} {effect : β → Store → Prop}
    (hgood : good p) (hx : Spares x) (h : ∀ a, x = .ok a → (f a).AllOrNothing good effect p) :
    (Action.ofExcept x >>= f).AllOrNothing good effect p := by
  cases x with
  | ok a => exact h a rfl
  | error e => exact of_error rfl (hx e rfl).isCancellation hgood rfl

/-- After an action that changes nothing the rest goes on in a world that is alike. -/
theorem bind {a : Action α} {f : α → Action β} {told : α → Prop} {effect : β → Store → Prop}
    (ha : a.AllOrNothing good (fun x s => s = p.world.store ∧ told x) p)
    (hf : ∀ x p', good p' → p'.world.Alike p.world → told x → (f x).AllOrNothing good effect p') :
    (a >>= f).AllOrNothing good effect p := by
  cases hrun : a.performAmid p with
  | mk outcome p' =>
    have hgood := ha.good
    rw [hrun] at hgood
    cases outcome with
    | error e =>
      have hstore := ha.refused e (by rw [hrun])
      rw [hrun] at hstore
      exact of_error (performAmid_bind_error hrun f) (ha.uncancelled e (by rw [hrun])) hgood hstore
    | ok x =>
      obtain ⟨hstore, htold⟩ := ha.done x (by rw [hrun])
      rw [hrun] at hstore
      have hrest := hf x p' hgood ⟨hstore, wall_performAmid hrun⟩ htold
      have hbind := performAmid_bind_ok hrun f
      refine ⟨?_, ?_, ?_, ?_⟩
      · rw [hbind]
        exact hrest.good
      · rw [hbind]
        exact hrest.done
      · intro e he
        rw [hbind] at he ⊢
        exact (hrest.refused e he).trans hstore
      · rw [hbind]
        exact hrest.uncancelled

/-- What comes after an effect and can neither fail nor touch the store makes no difference to it. -/
theorem settled {a : Action α} {f : α → Action β} {g : α → β} {effect : α → Store → Prop}
    (ha : a.AllOrNothing good effect p)
    (hf : ∀ x p', good p' → effect x p'.world.store →
      (f x).Settles (.ok (g x)) p' ∧ good ((f x).performAmid p').2) :
    (a >>= f).AllOrNothing good (fun y s => ∃ x, y = g x ∧ effect x s) p := by
  cases hrun : a.performAmid p with
  | mk outcome p' =>
    have hgood := ha.good
    rw [hrun] at hgood
    cases outcome with
    | error e =>
      have hstore := ha.refused e (by rw [hrun])
      rw [hrun] at hstore
      exact of_error (performAmid_bind_error hrun f) (ha.uncancelled e (by rw [hrun])) hgood hstore
    | ok x =>
      have heffect := ha.done x (by rw [hrun])
      rw [hrun] at heffect
      obtain ⟨⟨p'', hsettles, halike⟩, hgood'⟩ := hf x p' hgood heffect
      rw [hsettles] at hgood'
      refine of_ok ((performAmid_bind_ok hrun f).trans hsettles) hgood' ⟨x, rfl, ?_⟩
      rwa [halike.store]

end AllOrNothing

end Action

/-! ## The contract -/

/-- The time at which an entry was made is on record. -/
def Entry.Dated (e : Entry k) : Prop := ∃ t, e.audit.createdAt = some t

/-- Every call of a repository does what is asked of it, or fails and leaves the store as it was. What
is read is what a store answers that the store `shows`. -/
structure Repository.Honest (repo : Repository k) (good : Prospect → Prop)
    (shows : Store → Store → Prop) : Prop where
  idle : ∀ {p r}, r.IsIdle → good p → good (p.answer r).2
  contains : ∀ {p} c, good p →
    (repo.contains c).AllOrNothing good (fun _ s => s = p.world.store ∧ True) p
  find : ∀ {p} c, good p → (repo.find c).AllOrNothing good
    (fun e s => s = p.world.store ∧ ∃ s₀, shows p.world.store s₀ ∧ s₀.row? c = some e) p
  list : ∀ {p} f, good p → (repo.list f).AllOrNothing good
    (fun found s => s = p.world.store ∧
      ∃ s₀, shows p.world.store s₀ ∧ s₀.listed f = .ok found) p
  create : ∀ {p} e, good p → e.Dated → (repo.create e).AllOrNothing good
    (fun _ s => p.world.store.insert e = .ok s) p
  update : ∀ {p} e, good p → (repo.update e).AllOrNothing good
    (fun _ s => p.world.store.update e = .ok (true, s)) p
  delete : ∀ {p} c, good p → (repo.delete c).AllOrNothing good
    (fun _ s => p.world.store.delete c = .ok (true, s)) p

/-! ## Exact repositories -/

/-- An action has an outcome and leaves a store, and what lies ahead is good again. -/
structure Action.Comes (a : Action α) (good : Prospect → Prop) (x : Except Fault α) (s : Store)
    (p : Prospect) : Prop where
  good : good (a.performAmid p).2
  outcome : (a.performAmid p).1 = x
  store : (a.performAmid p).2.world.store = s

namespace Action.Comes

variable {a : Action α} {good : Prospect → Prop} {x : Except Fault α} {s : Store} {p : Prospect}

theorem of_run {p' : Prospect} (hrun : a.performAmid p = (x, p')) (hstore : p'.world.store = s)
    (hgood : good p') : a.Comes good x s p := by
  subst hstore
  exact ⟨by rwa [hrun], by rw [hrun], by rw [hrun]⟩

theorem allOrNothing (h : a.Comes good x s p) {effect : α → Store → Prop}
    (hok : ∀ v, x = .ok v → effect v s) (herror : ∀ f, x = .error f → s = p.world.store)
    (hx : ∀ f, x = .error f → f.isCancellation = false) : a.AllOrNothing good effect p := by
  refine ⟨h.good, ?_, ?_, fun f hf => hx f (h.outcome.symm.trans hf)⟩
  · intro v hv
    rw [h.store]
    exact hok v (h.outcome.symm.trans hv)
  · intro f hf
    rw [h.store]
    exact herror f (h.outcome.symm.trans hf)

end Action.Comes

/-- An action comes to an outcome if it `passes`; if not, it may be turned away instead. -/
def Action.ComesIf (a : Action α) (good : Prospect → Prop) (passes : Prop) (x : Except Fault α)
    (s : Store) (p : Prospect) : Prop :=
  ∃ y, a.Comes good y s p ∧ (y = x ∨ Call.TurnedAway y ∧ ¬ passes)

namespace Action.ComesIf

variable {a : Action α} {good : Prospect → Prop} {passes : Prop} {x : Except Fault α} {s : Store}
  {p : Prospect}

theorem comes (h : a.ComesIf good passes x s p) (hpasses : passes) : a.Comes good x s p := by
  obtain ⟨y, hy, rfl | ⟨-, hnot⟩⟩ := h
  · exact hy
  · exact absurd hpasses hnot

theorem allOrNothing (h : a.ComesIf good passes x s p) {effect : α → Store → Prop}
    (hok : ∀ v, x = .ok v → effect v s) (herror : ∀ f, x = .error f → s = p.world.store)
    (hx : Spares x) (haway : ¬ passes → s = p.world.store) : a.AllOrNothing good effect p := by
  obtain ⟨y, hy, rfl | ⟨hturned, hnot⟩⟩ := h
  · exact hy.allOrNothing hok herror fun f hf => (hx f hf).isCancellation
  · have hstore := haway hnot
    rcases hturned with rfl | rfl <;>
      exact hy.allOrNothing (fun v hv => by cases hv) (fun _ _ => hstore) fun f hf => by cases hf; rfl

/-- What an action comes to is seen in what is made of its result. -/
theorem of_map {g : α → β} (hg : ∀ v v', g v = g v' → v = v')
    (h : (a >>= fun v => pure (g v)).ComesIf good passes (x.map g) s p) :
    a.ComesIf good passes x s p := by
  have hmap {z z' : Except Fault α} (h : z.map g = z'.map g) : z = z' := by
    cases z <;> cases z' <;> simp only [Except.map, Except.ok.injEq, Except.error.injEq,
      reduceCtorEq] at h
    · rw [h]
    · rw [hg _ _ h]
  obtain ⟨y, ⟨hgood, houtcome, hstore⟩, hy⟩ := h
  cases hrun : a.performAmid p with
  | mk z p' =>
    rw [performAmid_map hrun g] at hgood houtcome hstore
    subst houtcome
    refine ⟨z, .of_run hrun hstore hgood, hy.imp hmap fun ⟨haway, hnot⟩ => ⟨?_, hnot⟩⟩
    exact haway.imp (fun h => hmap (h.trans rfl)) fun h => hmap (h.trans rfl)

end Action.ComesIf

namespace Store

variable {s s' : Store}

theorem found_eq_ok {c : Code k} {e : Entry k} : s.found c = .ok e ↔ s.row? c = some e := by
  unfold found find readable row?
  cases s.table? k with
  | none => simp [bind, Except.bind]
  | some t => cases hfound : t.find? c <;> simp [bind, Except.bind, hfound]

private theorem insert_of_created {e : Entry k} (h : (s.created e).1 = .ok ()) :
    s.insert e = .ok (s.created e).2 := by
  unfold created at h ⊢
  cases hinsert : s.insert e with
  | ok s' => rfl
  | error f => simp [hinsert] at h

private theorem created_refused {e : Entry k} {f : Fault} (h : (s.created e).1 = .error f) :
    (s.created e).2 = s := by
  unfold created at h ⊢
  cases hinsert : s.insert e with
  | ok s' => simp [hinsert] at h
  | error f => rfl

/-- A statement that found its row went through; one that did not find it changed nothing. -/
theorem changed_spec {operation : String} {x : Except StoreFailure (Bool × Store)}
    (hx : ∀ s', x = .ok (false, s') → s' = s) :
    ((changed k operation s x).1 = .ok () → x = .ok (true, (changed k operation s x).2)) ∧
      ∀ f, (changed k operation s x).1 = .error f → (changed k operation s x).2 = s := by
  match x with
  | .ok (true, s') => exact ⟨fun _ => rfl, fun f hf => nomatch hf⟩
  | .ok (false, s') => exact ⟨fun h => (nomatch h), fun _ _ => hx s' rfl⟩
  | .error f => exact ⟨fun h => (nomatch h), fun _ _ => rfl⟩

theorem updated_spec (s : Store) (e : Entry k) :
    ((s.updated e).1 = .ok () → s.update e = .ok (true, (s.updated e).2)) ∧
      ∀ f, (s.updated e).1 = .error f → (s.updated e).2 = s :=
  changed_spec fun s' h => by
    obtain ⟨t, -, -, hs'⟩ := update_ok h
    simpa using hs'

theorem deleted_spec (s : Store) (c : Code k) :
    ((s.deleted c).1 = .ok () → s.delete c = .ok (true, (s.deleted c).2)) ∧
      ∀ f, (s.deleted c).1 = .error f → (s.deleted c).2 = s :=
  changed_spec fun s' h => by
    obtain ⟨t, -, -, hs'⟩ := delete_ok h
    simpa using hs'

end Store

/-- Every call of some repositories leaves the store that follows from the store before it, and has the
outcome too unless it is a read that does not get through, which may end with an accident. -/
def Repositories.Exact (repos : Repositories) (good : Prospect → Prop) (lasts : Kind → Prop) : Prop :=
  ∀ (call : Call) (p : Prospect), good p → (call.on repos).ComesIf good
    (call.Passes lasts p.world.store) (p.world.store.answer call).1 (p.world.store.answer call).2 p

namespace Repositories.Exact

variable {repos : Repositories} {good : Prospect → Prop} {lasts : Kind → Prop} {p : Prospect}

theorem find (h : repos.Exact good lasts) (hp : good p) (c : Code k) :
    ((repos k).find c).ComesIf good ((Call.find k c).Passes lasts p.world.store)
      (p.world.store.found c) p.world.store p :=
  (h (.find k c) p hp).of_map (g := Reply.entry k) fun _ _ heq => by cases heq; rfl

theorem list (h : repos.Exact good lasts) (hp : good p) (f : Filter k) :
    ((repos k).list f).ComesIf good ((Call.list k f).Passes lasts p.world.store)
      (p.world.store.listed f) p.world.store p :=
  (h (.list k f) p hp).of_map (g := fun found => Reply.page k found.1 found.2) fun _ _ heq => by
    simp only [Reply.page.injEq, heq_eq_eq, true_and] at heq
    exact Prod.ext heq.1 heq.2

/-- Exact repositories are honest, and what they read is what the store holds. -/
theorem honest (h : repos.Exact good lasts)
    (hidle : ∀ {p r}, Request.IsIdle r → good p → good (p.answer r).2) (k : Kind) :
    (repos k).Honest good fun s s₀ => s₀ = s where
  idle := hidle
  contains {p} c hp := by
    have hcontains := (h (.contains k c) p hp).of_map (g := Reply.present) fun _ _ heq => by
      cases heq
      rfl
    exact hcontains.allOrNothing (fun _ _ => ⟨rfl, trivial⟩) (fun _ _ => rfl)
      (p.world.store.spares_answer (.contains k c)).of_map fun _ => rfl
  find {p} c hp :=
    (h.find hp c).allOrNothing (fun _ he => ⟨rfl, _, rfl, Store.found_eq_ok.mp he⟩) (fun _ _ => rfl)
      (p.world.store.spares_answer (.find k c)).of_map fun _ => rfl
  list {p} f hp :=
    (h.list hp f).allOrNothing (fun _ hfound => ⟨rfl, _, rfl, hfound⟩) (fun _ _ => rfl)
      (p.world.store.spares_answer (.list k f)).of_map fun _ => rfl
  create {p} e hp _ :=
    ((h (.create k e) p hp).of_map (g := fun _ => Reply.done) fun _ _ _ => rfl).allOrNothing
      (fun _ hok => Store.insert_of_created hok) (fun _ hf => Store.created_refused hf)
      (p.world.store.spares_answer (.create k e)).of_map fun hnot => absurd trivial hnot
  update {p} e hp :=
    ((h (.update k e) p hp).of_map (g := fun _ => Reply.done) fun _ _ _ => rfl).allOrNothing
      (fun _ hok => (p.world.store.updated_spec e).1 hok)
      (fun f hf => (p.world.store.updated_spec e).2 f hf)
      (p.world.store.spares_answer (.update k e)).of_map fun hnot => absurd trivial hnot
  delete {p} c hp :=
    ((h (.delete k c) p hp).of_map (g := fun _ => Reply.done) fun _ _ _ => rfl).allOrNothing
      (fun _ hok => (p.world.store.deleted_spec c).1 hok)
      (fun f hf => (p.world.store.deleted_spec c).2 f hf)
      (p.world.store.spares_answer (.delete k c)).of_map fun hnot => absurd trivial hnot

end Repositories.Exact

/-! ## With a cache or without -/

/-- Repositories over the store, alone or behind a cache. The cache is coherent with the store, as it is
when it is empty, or keeps nothing at all. Entries and pages of the kinds that are to `last` are kept for
a time that a double holds. -/
inductive Serving (lasts : Kind → Prop) : Repositories → World → Prop
  | stored (w : World) : Serving lasts .stored w
  | cached {ttl : Kind → Int} {stem : String} {w : World} (last : ∀ k, lasts k → Cache.CanLast (ttl k))
      (plain : ∀ c ∈ stem.toList, Glob.IsPlain c) (serves : w.Serves stem) :
      Serving lasts (.cached ttl) w
  | idle (ttl : Kind → Int) {w : World} (none : w.cache = .none) : Serving lasts (.cached ttl) w

/-- A cache that keeps nothing goes on to keep nothing. -/
theorem Action.cache_perform (a : Action α) {w : World} (h : w.cache = .none) :
    (a.perform w).2.cache = .none := by
  have hrun (q : Program (Except Fault α)) : ∀ w : World, w.cache = .none →
      (q.run w).2.cache = .none := by
    induction q with
    | done a => exact fun _ h => h
    | ask r next ih =>
      intro w h
      rcases w.cache_answer r with hsame | ⟨c, hc, -⟩
      · exact ih _ _ (hsame.trans h)
      · rw [h] at hc
        cases hc
  exact hrun _ w h

/-- What settles without a cache leaves none behind. -/
private theorem Action.Settles.perform_idle {a : Action α} {w : World} {x : Except Fault α}
    (h : a.Settles x { world := w }) (hnone : w.cache = .none) :
    ∃ w', a.perform w = (x, w') ∧ w'.store = w.store ∧ w'.cache = .none := by
  obtain ⟨p', hrun, halike⟩ := h
  rw [Action.performAmid_nil] at hrun
  cases hrun
  exact ⟨_, rfl, halike.store, a.cache_perform hnone⟩

/-- Where there is no cache its calls come to nothing, down or not. -/
private theorem overlooked_onCache {w : World} (hnone : w.cache = .none) (call : CacheCall)
    (absent : α) (f : Cache → Except Fault α × Cache) :
    overlooked absent (w.onCache call absent f).1 = .ok absent := by
  rw [World.onCache, hnone]
  split <;> rfl

/-- Without a cache a read through it is the read of what is behind. -/
private theorem Repository.readThrough_idle (key : String) {inner : Action α} (render : α → Json)
    (read : Json → Except Fault α) (ttl : Int) {w : World} {x : Except Fault α}
    (hnone : w.cache = .none)
    (hinner : ∀ w' : World, w'.store = w.store → Performs inner w' x w.store) :
    ∃ w', (readThrough key inner render read ttl).perform w = (x, w') ∧ w'.store = w.store := by
  have hlook := lookUp_settles key { world := w }
  have hmiss : overlooked none (Prospect.answer { world := w } (.cacheGet key)).1 = .ok none :=
    overlooked_onCache hnone .get none _
  rw [hmiss] at hlook
  obtain ⟨w₁, hrun₁, hstore₁, hnone₁⟩ := hlook.perform_idle hnone
  obtain ⟨records, hrun₂⟩ := hinner w₁ hstore₁
  rw [readThrough, Action.perform_bind_ok hrun₁]
  cases x with
  | error f => exact ⟨_, Action.perform_bind_error hrun₂ _, rfl⟩
  | ok a =>
    let w₂ : World := { w₁ with store := w.store, records }
    have hkeep := keep_settles key (render a) ttl { world := w₂ }
    have hkept : overlooked () (Prospect.answer { world := w₂ } (.cacheSet key (render a) ttl)).1 =
        .ok () := overlooked_onCache (w := w₂) hnone₁ .set () _
    rw [hkept] at hkeep
    obtain ⟨w₃, hrun₃, hstore₃, -⟩ := hkeep.perform_idle hnone₁
    exact ⟨w₃, (Action.perform_bind_ok hrun₂ _).trans (Action.perform_bind_ok hrun₃ _), hstore₃⟩

/-- Without a cache a call through it is the call without it, but for lists that have no key. -/
private theorem Call.perform_idle (call : Call) (ttl : Kind → Int) {w : World}
    (hnone : w.cache = .none) : ∃ y w', (call.on (.cached ttl)).perform w = (y, w') ∧
      w'.store = (w.store.answer call).2 ∧ (y = (w.store.answer call).1 ∨
        TurnedAway y ∧ ∀ lasts, ¬ call.Passes lasts w.store) := by
  -- A change or a check keeps nothing, so that the times to live do not matter.
  have hplain (hpasses : ∀ lasts s, call.Passes lasts s) (hkey : call.lookUpKey = none) :
      ∃ w', (call.on (.cached ttl)).perform w = ((w.store.answer call).1, w') ∧
        w'.store = (w.store.answer call).2 := by
    obtain ⟨x, p', hrun, hunharmed⟩ := call.unharmed ttl { world := w }
    rw [hkey] at hunharmed
    have houtcome : x = (w.store.answer call).1 := hunharmed.outcome trivial (hpasses _ _)
    have hnil := Action.performAmid_nil (call.on (.cached ttl)) w
    rw [hrun] at hnil
    refine ⟨p'.world, ?_, hunharmed.store⟩
    rw [← houtcome]
    exact Prod.ext (congrArg Prod.fst hnil).symm (congrArg (fun y => y.2.world) hnil).symm
  cases call with
  | create | update | delete | contains =>
    obtain ⟨w', hrun, hstore⟩ := hplain (fun _ _ => trivial) rfl
    exact ⟨_, w', hrun, hstore, Or.inl rfl⟩
  | find k c =>
    obtain ⟨w', hrun, hstore⟩ := Repository.readThrough_idle (Filter.entryKey c) Record.ofEntry
      (Record.toEntry k) (ttl k) hnone
      fun w' hw' => hw' ▸ Repository.performs_storedFind w' c
    exact ⟨_, w', Action.perform_map hrun (Reply.entry k), hstore, Or.inl rfl⟩
  | list k f =>
    by_cases hf : f.hasListKey = true
    · obtain ⟨w', hrun, hstore⟩ := Repository.readThrough_idle f.listKey
        (fun found => Record.ofPage found.1 found.2) (Record.toPage k) (ttl k) hnone
        fun w' hw' => hw' ▸ Repository.performs_storedList w' f
      have hlist : (Repository.cachedList (Repository.stored k) (ttl k) f).perform w =
          (w.store.listed f, w') := by
        rw [Repository.cachedList_of_hasListKey hf]
        exact hrun
      exact ⟨_, w', Action.perform_map hlist fun found => Reply.page k found.1 found.2, hstore,
        Or.inl rfl⟩
    · have hrun :=
        Repository.perform_cachedList_of_not_hasListKey (Repository.stored k) (ttl k) hf w
      exact ⟨_, w, Action.perform_map hrun fun found => Reply.page k found.1 found.2, rfl,
        Or.inr ⟨Or.inl rfl, fun _ hpasses => hf hpasses.1⟩⟩

namespace Serving

variable {lasts : Kind → Prop} {repos : Repositories}

/-- Whatever the clocks read. -/
theorem clocked {w : World} (h : Serving lasts repos w) (wall : Timestamp) (monotonic : Float) :
    Serving lasts repos { w with wall, monotonic } := by
  cases h with
  | stored => exact .stored _
  | cached last plain serves =>
    obtain ⟨c, hc, hstem, hcoherent⟩ := serves
    exact .cached last plain ⟨c, ⟨hc.cache, hc.up⟩, hstem, hcoherent⟩
  | idle ttl none => exact .idle ttl none

private theorem idled {p : Prospect} (h : p.ahead = [] ∧ Serving lasts repos p.world) {r : Request}
    (hr : r.IsIdle) : (p.answer r).2.ahead = [] ∧ Serving lasts repos (p.answer r).2.world := by
  obtain ⟨w, ahead⟩ := p
  obtain ⟨rfl, hserving⟩ := h
  refine ⟨rfl, ?_⟩
  cases r with
  | now => exact hserving
  | log record =>
    cases hserving with
    | stored => exact .stored _
    | cached last plain serves => exact .cached last plain (serves.logged _)
    | idle ttl none => exact .idle ttl none
  | _ => exact hr.elim

/-- As long as nothing goes wrong with the cache, calls have the outcomes that follow from the store. -/
theorem exact (lasts : Kind → Prop) (repos : Repositories) :
    repos.Exact (fun p => p.ahead = [] ∧ Serving lasts repos p.world) lasts := by
  rintro call ⟨w, ahead⟩ ⟨rfl, hserving⟩
  have hnil := Action.performAmid_nil (call.on repos) w
  cases hserving with
  | stored =>
    obtain ⟨records, hrun⟩ := call.performs_stored w
    rw [hrun] at hnil
    exact ⟨_, .of_run hnil rfl ⟨rfl, .stored _⟩, Or.inl rfl⟩
  | cached last plain serves =>
    obtain ⟨y, w', hrun, hstore, hserves, hy⟩ := call.cached_spec plain serves fun _ _ => trivial
    rw [hrun] at hnil
    refine ⟨y, .of_run hnil hstore ⟨rfl, .cached last plain hserves⟩, ?_⟩
    exact hy.imp And.left fun ⟨haway, _, hnot⟩ => ⟨haway, fun hpasses => hnot (hpasses.mono last)⟩
  | idle ttl none =>
    obtain ⟨y, w', hrun, hstore, hy⟩ := call.perform_idle ttl none
    have hcache := Action.cache_perform (call.on (.cached ttl)) none
    rw [hrun] at hnil hcache
    refine ⟨y, .of_run hnil hstore ⟨rfl, .idle ttl hcache⟩, ?_⟩
    exact hy.imp_right fun ⟨haway, hnot⟩ => ⟨haway, hnot lasts⟩

theorem honest (lasts : Kind → Prop) (repos : Repositories) (k : Kind) :
    (repos k).Honest (fun p => p.ahead = [] ∧ Serving lasts repos p.world) fun s s₀ => s₀ = s :=
  (exact lasts repos).honest (fun hr h => idled h hr) k

end Serving

end CostCatalog
