import CostCatalog.Proofs.Cache.Transparency
import CostCatalog.Proofs.OwnFaults
import CostCatalog.Proofs.Program.Mishaps
import CostCatalog.Proofs.Repository.Requests
import CostCatalog.Proofs.Repository.Stored
import Mathlib.Data.List.Forall2

/-!
# The cache fails

Whatever goes wrong with the cache, at whichever of its calls, nothing of it reaches the store, and no
failure of the cache reaches those who call the repositories, `Call.trace_amid`: changes have the
outcomes that they have without a cache, and so has a read to which the cache did not give a value, if
the cache lets it through. What a read makes of a value that the cache did give is not said here, since
dropping it may have failed before.

Two things are no failures of the cache, and reach the caller: a time to live beyond every double, at a
write, and a text nested too deep, at a look-up (`Call.trace_amid_harm`).
-/

namespace CostCatalog

variable {k : Kind} {α β : Type}

/-! ## What the calls of the cache end with -/

theorem World.fault_of_onCache {w : World} {call : CacheCall} {absent : α}
    {g : Cache → Except Fault α × Cache} {f : Fault} (h : (w.onCache call absent g).1 = .error f) :
    f.isOfCache = true ∨ ∃ c, (g c).1 = .error f := by
  unfold onCache at h
  split at h
  · cases h
    exact Or.inl rfl
  · split at h
    · cases h
    · next c _ => exact Or.inr ⟨c, h⟩

namespace Prospect

variable {p : Prospect} {f : Fault}

/-- A request is answered by some world, or fails with the cache. -/
theorem answer_cases (p : Prospect) (r : Request) :
    (∃ w : World, (p.answer r).1 = (w.answer r).1) ∨
      ∃ summary, r.failed summary = some (p.answer r).1 := by
  unfold answer
  split
  · exact Or.inl ⟨p.world, rfl⟩
  · next m ahead _ =>
    unfold World.answerAmid
    cases hfailure : m.failure with
    | none => exact Or.inl ⟨p.world.spoil m.spoilt, rfl⟩
    | some summary =>
      cases hfailed : r.failed summary with
      | none =>
        refine Or.inl ⟨p.world.spoil m.spoilt, ?_⟩
        simp only [Option.bind_some, hfailed]
      | some reply =>
        refine Or.inr ⟨summary, ?_⟩
        simp only [Option.bind_some, hfailed]

/-- A look-up is never cancelled by the cache. -/
theorem isCancellation_of_get {key : String} (h : (p.answer (.cacheGet key)).1 = .error f) :
    f.isCancellation = false := by
  rcases p.answer_cases (.cacheGet key) with ⟨w, hw⟩ | ⟨summary, hfailed⟩
  · rcases World.fault_of_onCache (hw.symm.trans h) with hf | ⟨c, hc⟩
    · exact Fault.isCancellation_of_isOfCache hf
    · change (c.get key w.monotonic).1 = .error f at hc
      rcases c.getAs_cases String key w.monotonic with ⟨slots, -, hget⟩ | ⟨slot, -, -, hget⟩ <;>
        rw [Cache.get, hget] at hc
      · cases hc
      · split at hc
        · cases hc
        · next e _ =>
          cases hc
          cases e <;> rfl
  · rw [h] at hfailed
    cases hfailed
    rfl

/-- Dropping a key fails with the cache or not at all. -/
theorem fault_of_delete {key : String} (h : (p.answer (.cacheDelete key)).1 = .error f) :
    f.isOfCache = true := by
  rcases p.answer_cases (.cacheDelete key) with ⟨w, hw⟩ | ⟨summary, hfailed⟩
  · rcases World.fault_of_onCache (hw.symm.trans h) with hf | ⟨c, hc⟩
    · exact hf
    · cases hc
  · rw [h] at hfailed
    cases hfailed
    rfl

/-- Dropping by a pattern fails with the cache or not at all. -/
theorem fault_of_deleteMatching {pattern : String}
    (h : (p.answer (.cacheDeleteMatching pattern)).1 = .error f) : f.isOfCache = true := by
  rcases p.answer_cases (.cacheDeleteMatching pattern) with ⟨w, hw⟩ | ⟨summary, hfailed⟩
  · have hdelete := hw.symm.trans h
    simp only [World.answer, World.deleteMatching] at hdelete
    split at hdelete
    · next heq =>
      cases hdelete
      rcases World.fault_of_onCache (congrArg Prod.fst heq) with hf | ⟨c, hc⟩
      · exact hf
      · cases hc
    · cases hdelete
  · rw [h] at hfailed
    cases hfailed
    rfl

/-- Keeping a value fails with the cache, or the value is nested too deep, or it can be written but not
for as long as it is to be kept; it is never cancelled by the cache. -/
theorem fault_of_set {key : String} {v : Json} {ttl : Int}
    (h : (p.answer (.cacheSet key v ttl)).1 = .error f) : f.isCancellation = false ∧
      (f.isOfCache = true ∨ ∃ depth : Json.Depth, v.obstacle? depth.levels = some .nesting ∨
        v.isWritable depth = true ∧ ¬ Cache.CanLast ttl) := by
  rcases p.answer_cases (.cacheSet key v ttl) with ⟨w, hw⟩ | ⟨summary, hfailed⟩
  · rcases World.fault_of_onCache (hw.symm.trans h) with hf | ⟨c, hc⟩
    · exact ⟨Fault.isCancellation_of_isOfCache hf, Or.inl hf⟩
    · change (c.set key (.json v) (.whole ttl) w.monotonic).1 = .error f at hc
      rcases c.set_whole_cases key v ttl w.monotonic with
        ⟨-, -, ends, -, hset⟩ | ⟨o, hobstacle, hset⟩ | ⟨hwritable, hlast, hset⟩ <;> rw [hset] at hc
      · cases hc
      · cases hc
        cases o with
        | digits => exact ⟨rfl, Or.inl rfl⟩
        | nesting => exact ⟨rfl, Or.inr ⟨c.depth, Or.inl hobstacle⟩⟩
      · cases hc
        exact ⟨rfl, Or.inr ⟨c.depth, Or.inr ⟨hwritable, hlast⟩⟩⟩
  · rw [h] at hfailed
    cases hfailed
    exact ⟨rfl, Or.inl rfl⟩

end Prospect

/-- What a reply of the cache comes to: where the cache failed some value stands in. -/
def overlooked (instead : α) : Except Fault α → Except Fault α
  | .ok a => .ok a
  | .error f => if f.isOfCache then .ok instead else .error f

theorem overlooked_of_isOfCache {f : Fault} (hf : f.isOfCache = true) (instead : α) :
    overlooked instead (.error f) = .ok instead := if_pos hf

theorem overlooked_of_not_isOfCache {f : Fault} (hf : ¬ f.isOfCache = true) (instead : α) :
    overlooked instead (.error f) = .error f := if_neg hf

theorem spares_overlooked (instead : α) {x : Except Fault α}
    (hx : ∀ f, x = .error f → f.isCancellation = false) : Spares (overlooked instead x) := by
  cases x with
  | ok a => exact spares_ok a
  | error f =>
    by_cases hf : f.isOfCache = true
    · rw [overlooked_of_isOfCache hf]
      exact spares_ok instead
    · rw [overlooked_of_not_isOfCache hf]
      exact spares_error ⟨Bool.eq_false_iff.mpr hf, hx f rfl⟩

/-! ## Dropping and keeping -/

/-- An action has an outcome whatever goes wrong with the cache, and leaves the store alone. -/
def Action.Settles (a : Action α) (x : Except Fault α) (p : Prospect) : Prop :=
  ∃ p', a.performAmid p = (x, p') ∧ p'.world.Alike p.world

namespace Action

variable {p : Prospect}

theorem settles_ofExcept (x : Except Fault α) (p : Prospect) : (ofExcept x).Settles x p :=
  ⟨p, rfl, .refl _⟩

theorem settles_log (r : LogRecord) (p : Prospect) : (log r).Settles (.ok ()) p := by
  obtain ⟨-, halike⟩ := p.answer_of_bare (.refl _) (r := .log r) id
  exact ⟨(p.answer (.log r)).2, rfl, halike.trans ⟨rfl, rfl⟩⟩

/-- A call of the cache, and what is made of its reply. -/
theorem settles_call {r : Request} (hr : r.IsCacheCall) {f : r.Reply → Action β} {y : Except Fault β}
    (h : ∀ p', (f (p.answer r).1).Settles y p') : (request r >>= f).Settles y p := by
  obtain ⟨p', hrun, halike⟩ := h (p.answer r).2
  exact ⟨p', hrun, halike.trans (p.answer_alike hr)⟩

/-- After an action that settles, the rest goes on in a world that is alike, unless it settled with a
fault. -/
theorem Settles.bind {a : Action α} {f : α → Action β} {x : Except Fault α} {g : α → Except Fault β}
    (ha : a.Settles x p) (hf : ∀ v p', (f v).Settles (g v) p') : (a >>= f).Settles (x >>= g) p := by
  obtain ⟨p₁, hrun₁, halike₁⟩ := ha
  cases x with
  | error e => exact ⟨p₁, performAmid_bind_error hrun₁ f, halike₁⟩
  | ok v =>
    obtain ⟨p₂, hrun₂, halike₂⟩ := hf v p₁
    exact ⟨p₂, (performAmid_bind_ok hrun₁ f).trans hrun₂, halike₂.trans halike₁⟩

end Action

open CostCatalog.Action

namespace Repository

/-- A fault of the cache is overlooked. -/
theorem overlook_settles_ok (what : String) {f : Fault} (hf : f.isOfCache = true) (p : Prospect) :
    (overlook what f).Settles (.ok ()) p := by
  rw [overlook, if_pos hf]
  exact settles_log _ p

theorem overlook_settles_error (what : String) {f : Fault} (hf : ¬ f.isOfCache = true)
    (p : Prospect) : (overlook what f).Settles (.error f) p := by
  rw [overlook, if_neg hf]
  exact settles_ofExcept (.error f) p

/-- A look-up comes to what the cache gives, and to nothing when it fails. -/
theorem lookUp_settles (key : String) (p : Prospect) :
    (lookUp key).Settles (overlooked none (p.answer (.cacheGet key)).1) p := by
  refine settles_call (r := .cacheGet key) trivial fun p' => ?_
  cases (p.answer (.cacheGet key)).1 with
  | ok v => exact settles_ofExcept (.ok v) p'
  | error f =>
    by_cases hf : f.isOfCache = true
    · rw [overlooked_of_isOfCache hf]
      exact (overlook_settles_ok _ hf p').bind (g := fun _ => .ok none)
        fun _ p'' => settles_ofExcept (.ok none) p''
    · rw [overlooked_of_not_isOfCache hf]
      exact (overlook_settles_error _ hf p').bind (g := fun _ => .ok none)
        fun _ p'' => settles_ofExcept (.ok none) p''

theorem keep_settles (key : String) (v : Json) (ttl : Int) (p : Prospect) :
    (keep key v ttl).Settles (overlooked () (p.answer (.cacheSet key v ttl)).1) p := by
  refine settles_call (r := .cacheSet key v ttl) trivial fun p' => ?_
  cases (p.answer (.cacheSet key v ttl)).1 with
  | ok _ => exact settles_ofExcept (.ok ()) p'
  | error f =>
    by_cases hf : f.isOfCache = true
    · rw [overlooked_of_isOfCache hf]
      exact overlook_settles_ok _ hf p'
    · rw [overlooked_of_not_isOfCache hf]
      exact overlook_settles_error _ hf p'

private theorem forgetMatching_settles (pattern : String) (p : Prospect) :
    (forgetMatching pattern).Settles (.ok ()) p := by
  refine settles_call (r := .cacheDeleteMatching pattern) trivial fun p' => ?_
  cases hreply : (p.answer (.cacheDeleteMatching pattern)).1 with
  | ok _ => exact settles_ofExcept (.ok ()) p'
  | error f => exact overlook_settles_ok _ (Prospect.fault_of_deleteMatching hreply) p'

theorem forgetEntry_settles (c : Code k) (p : Prospect) : (forgetEntry c).Settles (.ok ()) p := by
  refine settles_call (r := .cacheDelete (Filter.entryKey c)) trivial fun p' => ?_
  cases hreply : (p.answer (.cacheDelete (Filter.entryKey c))).1 with
  | error f => exact overlook_settles_ok _ (Prospect.fault_of_delete hreply) p'
  | ok _ =>
    refine settles_call (r := .cacheDeleteMatching (Filter.listPattern k)) trivial fun p'' => ?_
    cases hreply : (p'.answer (.cacheDeleteMatching (Filter.listPattern k))).1 with
    | ok _ => exact settles_ofExcept (.ok ()) p''
    | error f => exact overlook_settles_ok _ (Prospect.fault_of_deleteMatching hreply) p''

theorem forgetReferences_settles (k : Kind) (p : Prospect) :
    (forgetReferences k).Settles (.ok ()) p := by
  cases k with
  | uom => exact forgetMatching_settles _ p
  | parameter => exact settles_ofExcept (.ok ()) p

end Repository

/-! ## Operations -/

/-- An action has an outcome and leaves a store, whatever goes wrong with the cache. -/
def Action.ComesThrough (a : Action α) (p : Prospect) (x : Except Fault α) (s : Store) : Prop :=
  ∃ p', a.performAmid p = (x, p') ∧ p'.world.store = s

namespace Action.ComesThrough

variable {a : Action α} {p : Prospect} {s : Store}

/-- What an action comes to without calls of the cache. -/
theorem of_bare {x : Except Fault α} (hbare : a.KeepsTo bare) (h : Performs a p.world x s) :
    a.ComesThrough p x s := by
  obtain ⟨records, hrun⟩ := h
  obtain ⟨p', hamid, halike⟩ := IsBare.performAmid (a := a) hbare p
  rw [hrun] at hamid halike
  exact ⟨p', hamid, halike.store⟩

theorem map {x : Except Fault α} (h : a.ComesThrough p x s) (g : α → β) :
    ComesThrough (a >>= fun v => pure (g v)) p (x.map g) s := by
  obtain ⟨p', hrun, hstore⟩ := h
  exact ⟨p', performAmid_map hrun g, hstore⟩

theorem bind_error {e : Fault} (h : a.ComesThrough p (.error e) s) (f : α → Action β) :
    ComesThrough (a >>= f) p (.error e) s := by
  obtain ⟨p', hrun, hstore⟩ := h
  exact ⟨p', performAmid_bind_error hrun f, hstore⟩

/-- What is done in the cache after an action leaves the store as the action left it. -/
theorem bind_ok {v : α} (h : a.ComesThrough p (.ok v) s) {f : α → Action β}
    {ends : Except Fault β → Prop} (hf : ∀ p', ∃ y, (f v).Settles y p' ∧ ends y) :
    ∃ y, ComesThrough (a >>= f) p y s ∧ ends y := by
  obtain ⟨p₁, hrun₁, hstore₁⟩ := h
  obtain ⟨y, ⟨p₂, hrun₂, halike⟩, hy⟩ := hf p₁
  exact ⟨y, ⟨p₂, (performAmid_bind_ok hrun₁ f).trans hrun₂, halike.store.trans hstore₁⟩, hy⟩

end Action.ComesThrough

namespace Repository

variable (p : Prospect)

/-- A change has its outcome whatever comes of what is dropped after it. -/
theorem change_comesThrough {inner drop : Action Unit} {x : Except Fault Unit} {s : Store}
    (hbare : inner.KeepsTo bare) (hinner : Performs inner p.world x s)
    (hdrop : ∀ p', drop.Settles (.ok ()) p') :
    Action.ComesThrough (do inner; drop : Action Unit) p x s := by
  have hthrough := Action.ComesThrough.of_bare hbare hinner
  cases x with
  | error e => exact hthrough.bind_error _
  | ok _ =>
    obtain ⟨y, hy, rfl⟩ := hthrough.bind_ok (f := fun _ => drop) fun p' => ⟨_, hdrop p', rfl⟩
    exact hy

/-- What the store answers to a query is kept, or that fails with the cache, unless it could be written
but not kept for so long. -/
private theorem keep_comes {s : Store} {q : Query} {v : Json} (hv : s.record? q = some v)
    (ttl : Int) : ∃ y, (keep q.key v ttl).Settles y p ∧ Spares y ∧
      ((s.Keepable q → Cache.CanLast ttl) → y = .ok ()) := by
  refine ⟨_, keep_settles q.key v ttl p,
    spares_overlooked () fun f hf => (Prospect.fault_of_set hf).1, fun hlast => ?_⟩
  cases hreply : (p.answer (.cacheSet q.key v ttl)).1 with
  | ok _ => rfl
  | error f =>
    rcases (Prospect.fault_of_set hreply).2 with hf | ⟨depth, hobstacle | ⟨hwritable, hlong⟩⟩
    · exact overlooked_of_isOfCache hf ()
    · cases (Store.renders_of_record? hv).obstacle_eq_digits hobstacle
    · exact absurd (hlast ((Store.keepable_iff depth).mpr ⟨v, hv, hwritable⟩)) hlong

/-- A read that has some outcome without the cache: unless the look-up gives something else, it has that
outcome, if what is found can be kept. -/
theorem readThrough_comesThrough {q : Query} (ttl : Int) {inner : Action α} {x : Except Fault α}
    (render : α → Json) {read : Json → Except Fault α} (hbare : inner.KeepsTo bare)
    (hinner : ∀ w : World, w.store = p.world.store → Performs inner w x p.world.store)
    (hrecord : p.world.store.record? q = x.toOption.map render)
    (hx : Spares x) (hread : ∀ v, Spares (read v)) :
    ∃ y, Action.ComesThrough (readThrough q.key inner render read ttl) p y p.world.store ∧
      Spares y ∧ (∀ f, overlooked none (p.answer (.cacheGet q.key)).1 = .error f → y = .error f) ∧
      (overlooked none (p.answer (.cacheGet q.key)).1 = .ok none →
        (p.world.store.Keepable q → Cache.CanLast ttl) → y = x) := by
  obtain ⟨p₁, hrun, halike⟩ := lookUp_settles q.key p
  have htold : Spares (overlooked none (p.answer (.cacheGet q.key)).1) :=
    spares_overlooked none fun f hf => Prospect.isCancellation_of_get hf
  cases hreply : overlooked none (p.answer (.cacheGet q.key)).1 with
  | error f =>
    rw [hreply] at hrun htold
    refine ⟨.error f, ⟨p₁, performAmid_bind_error hrun _, halike.store⟩,
      spares_error (htold f rfl), fun g hg => ?_, fun h => by cases h⟩
    cases hg
    rfl
  | ok found =>
    rw [hreply] at hrun
    cases found with
    | some record =>
      exact ⟨read record, ⟨p₁, performAmid_bind_ok hrun _, halike.store⟩, hread record,
        (fun _ h => by cases h), fun h => by cases h⟩
    | none =>
      have hthrough := Action.ComesThrough.of_bare hbare
        (halike.store ▸ hinner p₁.world halike.store)
      rw [halike.store] at hthrough
      have hmissed {y : Except Fault α}
          (h : Action.ComesThrough (do let a ← inner; keep q.key (render a) ttl; pure a : Action α)
            p₁ y p.world.store) :
          Action.ComesThrough (readThrough q.key inner render read ttl) p y p.world.store := by
        obtain ⟨p₂, hrun₂, hstore₂⟩ := h
        exact ⟨p₂, (performAmid_bind_ok hrun _).trans hrun₂, hstore₂⟩
      cases x with
      | error e =>
        exact ⟨_, hmissed (hthrough.bind_error _), hx, (fun _ h => by cases h), fun _ _ => rfl⟩
      | ok a =>
        have hkeeps : ∀ p', ∃ y, (do keep q.key (render a) ttl; pure a : Action α).Settles y p' ∧
            Spares y ∧ ((p.world.store.Keepable q → Cache.CanLast ttl) → y = .ok a) := by
          intro p'
          obtain ⟨z, hz, hspares, hkept⟩ := keep_comes p' hrecord ttl
          refine ⟨_, hz.bind (g := fun _ => .ok a) fun _ p'' => settles_ofExcept (.ok a) p'',
            hspares.bind fun _ => spares_ok a, fun hlast => ?_⟩
          rw [hkept hlast]
          rfl
        obtain ⟨y, hy, hends⟩ :=
          hthrough.bind_ok (f := fun a => do keep q.key (render a) ttl; pure a) hkeeps
        exact ⟨y, hmissed hy, hends.1, (fun _ h => by cases h), fun _ => hends.2⟩

end Repository

/-! ## Calls -/

namespace Call

/-- The key under which a call looks into the cache, if it reads through it. -/
def lookUpKey : Call → Option String
  | .find _ c => some (Filter.entryKey c)
  | .list _ f => f.listKey?.toOption
  | _ => none

/-- A call, the reading of the monotonic clock at which it is made, and what goes wrong with the cache
during it, request by request. -/
structure Encounter where
  call : Call
  clock : Float
  mishaps : List Mishap

/-- How a call through the cache went: what the cache replied to its look-up, if it made one, how it
ended, and the store after it. -/
structure Passage where
  call : Call
  told : Option (Except Fault (Option Json))
  outcome : Except Fault Reply
  store : Store

/-- How calls made one after the other go while things go wrong with the cache. -/
def traceAmid (repos : Repositories) : List Encounter → World → List Passage
  | [], _ => []
  | e :: es, w =>
    let p : Prospect := { world := { w with monotonic := e.clock }, ahead := e.mishaps }
    let (outcome, p') := (e.call.on repos).performAmid p
    { call := e.call, told := e.call.lookUpKey.map fun key => (p.answer (.cacheGet key)).1, outcome,
      store := p'.world.store } :: traceAmid repos es p'.world

/-- The cache gave nothing to a call that may have looked into it: it held nothing, or it failed. -/
def GaveNothing : Option (Except Fault (Option Json)) → Prop
  | none => True
  | some (.ok found) => found = none
  | some (.error f) => f.isOfCache = true

/-- A call through the cache compared with the same call without it. Unless the cache gave it a value it
has the same outcome, if the cache lets it through; a change looks nothing up and is always let through.
Where the look-up was an accident, and no failure of the cache, that is the outcome. -/
structure Passage.Unharmed (ttl : Kind → Int) (seen : Passage) (plain : Except Fault Reply × Store) :
    Prop where
  store : seen.store = plain.2
  spares : Spares seen.outcome
  outcome : GaveNothing seen.told →
    seen.call.Passes (fun k => Cache.CanLast (ttl k)) plain.2 → seen.outcome = plain.1
  accident : ∀ f, seen.told = some (.error f) → f.isOfCache = false → seen.outcome = .error f

private theorem GaveNothing.overlooked_eq {told : Except Fault (Option Json)}
    (h : GaveNothing (some told)) : overlooked none told = .ok none := by
  cases told with
  | error f => exact overlooked_of_isOfCache h none
  | ok found => exact congrArg Except.ok h

private theorem overlooked_of_told {told : Except Fault (Option Json)} {f : Fault}
    (h : some told = some (.error f)) (hf : f.isOfCache = false) :
    overlooked none told = .error f := by
  obtain rfl := Option.some.inj h
  exact overlooked_of_not_isOfCache (Bool.eq_false_iff.mp hf) none

/-- A read through the cache that ends as it would without it, unless its look-up says otherwise. -/
private theorem unharmed_read (call : Call) {ttl : Kind → Int} {p : Prospect} {q : Query}
    {a : Action α} {x y : Except Fault α} (g : α → Reply) (hy : a.ComesThrough p y p.world.store)
    (hspares : Spares y)
    (haccident : ∀ f, overlooked none (p.answer (.cacheGet q.key)).1 = .error f → y = .error f)
    (hsame : overlooked none (p.answer (.cacheGet q.key)).1 = .ok none →
      (p.world.store.Keepable q → Cache.CanLast (ttl q.kind)) → y = x)
    (hpasses : call.Passes (fun k => Cache.CanLast (ttl k)) p.world.store →
      p.world.store.Keepable q → Cache.CanLast (ttl q.kind)) :
    ∃ z p', (a >>= fun v => pure (g v)).performAmid p = (z, p') ∧ Passage.Unharmed ttl
      ⟨call, some (p.answer (.cacheGet q.key)).1, z, p'.world.store⟩
      (x.map g, p.world.store) := by
  obtain ⟨p', hrun, hstore⟩ := hy.map g
  refine ⟨_, p', hrun, hstore, hspares.map g, fun hnothing hlets => ?_, fun f htold hf => ?_⟩
  · rw [hsame hnothing.overlooked_eq (hpasses hlets)]
  · rw [haccident f (overlooked_of_told htold hf)]
    rfl

/-- One call through the cache while things go wrong with it. -/
theorem unharmed (call : Call) (ttl : Kind → Int) (p : Prospect) :
    ∃ x p', (call.on (.cached ttl)).performAmid p = (x, p') ∧
      Passage.Unharmed ttl
        ⟨call, call.lookUpKey.map fun key => (p.answer (.cacheGet key)).1, x, p'.world.store⟩
        (p.world.store.answer call) := by
  have hspares := p.world.store.spares_answer call
  -- A call that looks nothing up has the outcome that it has without the cache.
  have hplain {a : Action Reply} (h : a.ComesThrough p (p.world.store.answer call).1
      (p.world.store.answer call).2) : ∃ x p', a.performAmid p = (x, p') ∧
        Passage.Unharmed ttl ⟨call, none, x, p'.world.store⟩ (p.world.store.answer call) := by
    obtain ⟨p', hrun, hstore⟩ := h
    exact ⟨_, p', hrun, hstore, hspares, fun _ _ => rfl, fun _ h => by cases h⟩
  cases call with
  | create k e =>
    exact hplain ((Repository.change_comesThrough p (Repository.keepsTo_storedCreate id id)
      (Repository.performs_storedCreate p.world e)
      fun p' => Repository.forgetEntry_settles e.code p').map fun _ => Reply.done)
  | update k e =>
    exact hplain ((Repository.change_comesThrough p (Repository.keepsTo_storedUpdate id)
      (Repository.performs_storedUpdate p.world e)
      fun p' => Repository.forgetEntry_settles e.code p').map fun _ => Reply.done)
  | delete k c =>
    exact hplain ((Repository.change_comesThrough p (Repository.keepsTo_storedDelete id)
      (Repository.performs_storedDelete p.world c) fun p' =>
        (Repository.forgetEntry_settles c p').bind (g := fun _ => .ok ()) fun _ p'' =>
          Repository.forgetReferences_settles k p'').map fun _ => Reply.done)
  | contains k c =>
    exact hplain ((Action.ComesThrough.of_bare (Repository.keepsTo_storedContains id)
      (Repository.performs_storedContains p.world c)).map Reply.present)
  | find k c =>
    obtain ⟨y, hy, hy', haccident, hsame⟩ := Repository.readThrough_comesThrough p
      (q := .entry k c) (ttl k) Record.ofEntry (Repository.keepsTo_storedFind id)
      (fun w hw => hw ▸ Repository.performs_storedFind w c) rfl hspares.of_map
      (Record.spares_toEntry k)
    exact unharmed_read (find k c) (q := .entry k c) (Reply.entry k) hy hy' haccident hsame id
  | list k f =>
    by_cases hf : f.hasListKey = true
    · obtain ⟨y, hy, hy', haccident, hsame⟩ := Repository.readThrough_comesThrough p
        (q := .list k f) (ttl k) (fun found => Record.ofPage found.1 found.2)
        (Repository.keepsTo_storedList id id)
        (fun w hw => hw ▸ Repository.performs_storedList w f) rfl hspares.of_map
        (Record.spares_toPage k)
      have hlist : (Repository.cachedList (Repository.stored k) (ttl k) f).ComesThrough p y
          p.world.store := by
        rw [Repository.cachedList_of_hasListKey hf]
        exact hy
      have hkey : (list k f).lookUpKey = some (Query.list k f).key := by
        rw [lookUpKey, Filter.listKey?, if_pos hf]
        rfl
      rw [hkey]
      exact unharmed_read (list k f) (q := .list k f) (fun found => Reply.page k found.1 found.2)
        hlist hy' haccident hsame fun hpasses => hpasses.2
    · have hrun : (Repository.cachedList (Repository.stored k) (ttl k) f).performAmid p =
          (.error (.unexpected .tooManyDigits), p) := by
        rw [Repository.cachedList_of_not_hasListKey hf]
        rfl
      have hkey : (list k f).lookUpKey = none := by
        rw [lookUpKey, Filter.listKey?, if_neg hf]
        rfl
      rw [hkey]
      exact ⟨_, p, performAmid_map hrun _, rfl, spares_error ⟨rfl, rfl⟩,
        fun _ hpasses => absurd hpasses.1 hf, fun _ h => by cases h⟩

/-- Calls through a cache with which anything goes wrong, at any of its calls: none of them ends with a
fault of the cache, changes and checks have the outcomes, and every call leaves the store, of the same
calls without it; and so has every read to which the cache gave nothing, because it failed or because it
held nothing, the outcome of the read without it, if the cache lets it through, whether or not the answer
could then be kept. This holds whatever the cache held at the start. -/
theorem trace_amid (ttl : Kind → Int) (encounters : List Encounter) (w : World) :
    List.Forall₂ (Passage.Unharmed ttl) (traceAmid (.cached ttl) encounters w)
      (trace .stored (encounters.map fun e => (e.clock, e.call)) w) := by
  suffices h : ∀ (encounters : List Encounter) (w v : World), w.store = v.store →
      List.Forall₂ (Passage.Unharmed ttl) (traceAmid (.cached ttl) encounters w)
        (trace .stored (encounters.map fun e => (e.clock, e.call)) v) from h encounters w w rfl
  intro encounters
  induction encounters with
  | nil => exact fun _ _ _ => .nil
  | cons e es ih =>
    intro w v hstore
    obtain ⟨x, p', hrun, hunharmed⟩ := e.call.unharmed ttl
      { world := { w with monotonic := e.clock }, ahead := e.mishaps }
    obtain ⟨records, hplain⟩ := e.call.performs_stored { v with monotonic := e.clock }
    have hsame : w.store.answer e.call = v.store.answer e.call := by rw [hstore]
    simp only [List.map_cons, traceAmid, trace, hrun, hplain]
    refine .cons ?_ (ih _ _ (hunharmed.store.trans (congrArg Prod.snd hsame)))
    rw [← hsame]
    exact hunharmed

end Call

/-! ## Harm -/

/-- The one text of a cache is spoilt when it is asked for: what is told is why it cannot be read. -/
private theorem Prospect.told_of_spoilt {w : World} {c : Cache} (hw : w.Holds c) {slot : Cache.Slot}
    (hslots : c.slots = [slot]) {key : String} (hkey : slot.key = c.stem ++ key)
    (hlive : ¬ slot.expiresAt ≤ w.monotonic) {m : Mishap} {text : String} {e : Json.ReadError}
    (hsound : m.failure = none) (hspoilt : m.spoilt = [(slot.key, text)])
    (hread : Json.parse text c.depth = .error e) :
    (Prospect.answer { world := w, ahead := [m] } (.cacheGet key)).1 =
      .error (Cache.readFault e) := by
  have hspoil : c.spoil slot.key text = { c with slots := [{ slot with payload := text }] } := by
    rw [Cache.spoil, hslots, List.map_singleton, if_pos rfl]
  have hspoiled : (w.spoil m.spoilt).Holds (c.spoil slot.key text) := by
    rw [World.spoil, hw.cache, hspoilt]
    exact ⟨rfl, hw.up⟩
  have hmonotonic : (w.spoil m.spoilt).monotonic = w.monotonic := by
    rw [World.spoil, hw.cache]
  have hfind : (c.spoil slot.key text).find? (c.stem ++ key) = some { slot with payload := text } := by
    rw [Cache.find?, hspoil, ← hkey]
    exact List.find?_cons_of_pos (beq_self_eq_true _)
  have hget : ((c.spoil slot.key text).get key w.monotonic).1 = .error (Cache.readFault e) := by
    rw [Json.parse] at hread
    unfold Cache.get Cache.getAs
    rw [show (c.spoil slot.key text).stem = c.stem from rfl, hfind]
    simp only [if_neg hlive]
    rw [show (c.spoil slot.key text).depth = c.depth from rfl, hread]
  have hanswer := hspoiled.answer_get key
  rw [hmonotonic] at hanswer
  simp only [Prospect.answer, World.answerAmid, hsound, Option.bind_none, hanswer, hget]

namespace Sample

/-- A text that opens arrays and closes none. -/
def bottomless (n : Nat) : String := String.ofList (List.replicate n '[')

theorem parse_bottomless (n : Nat) (depth : Json.Depth) :
    Json.parse (bottomless n) depth = Json.decode depth (List.replicate n (.char '[')) := by
  have hpoints : Textual.points (bottomless n) = List.replicate n (.char '[') := by
    change CodePoint.ofChars (String.ofList (List.replicate n '[')).toList = _
    rw [String.toList_ofList, CodePoint.ofChars, List.map_replicate]
  rw [Json.parse, hpoints]

/-- What is kept of the kilogram is spoilt when it is asked for. -/
def sinking (n : Nat) : Mishap where
  spoilt := [(kept.key, bottomless n)]
  unreadable m hm depth := by
    rw [List.mem_singleton.mp hm, parse_bottomless]
    exact Json.decode_unclosed depth n

/-- The kilogram is asked for. -/
def ask : Call := .find .uom (kilogram "").code

end Sample

/-- A text that is nested too deep is the end of the read that comes upon it. -/
private theorem Call.refused_sinking {n : Nat} (hdeep : ({} : Json.Depth).levels < n) :
    (traceAmid (.cached fun _ => 60) [⟨Sample.ask, 0.0, [Sample.sinking n]⟩] Sample.recalled).map
      (·.outcome.isOk) = [false] := by
  have hlive : ¬ Sample.kept.expiresAt ≤ 0.0 := by decide +kernel
  have hread := (Sample.parse_bottomless n {}).trans (Json.decode_brackets hdeep)
  have htold := Prospect.told_of_spoilt (w := { Sample.recalled with monotonic := 0.0 }) ⟨rfl, rfl⟩ rfl
    rfl hlive (m := Sample.sinking n) rfl rfl hread
  obtain ⟨x, p', hrun, hunharmed⟩ := Sample.ask.unharmed (fun _ => 60)
    { world := { Sample.recalled with monotonic := 0.0 }, ahead := [Sample.sinking n] }
  have houtcome : x = .error (Cache.readFault (.nesting .array)) :=
    hunharmed.accident _ (congrArg some htold) rfl
  rw [traceAmid]
  simp only [hrun, houtcome, List.map_cons]
  rfl

/-- Two reads that the cache does not let through, though without it they find the kilogram: one fails to
read from the cache, and what it finds was to be kept for a time beyond every double; the other comes
upon a text that is nested too deep. -/
theorem Call.trace_amid_harm :
    (trace .stored [(0.0, Sample.ask)] Sample.recalled).map (·.1.isOk) = [true] ∧
      (traceAmid (.cached fun _ => 10 ^ 400) [⟨Sample.ask, 0.0, [{ failure := some "down" }]⟩]
        Sample.recalled).map (·.outcome.isOk) = [false] ∧
      (traceAmid (.cached fun _ => 60) [⟨Sample.ask, 0.0, [Sample.sinking 1000]⟩]
        Sample.recalled).map (·.outcome.isOk) = [false] :=
  ⟨by decide +kernel, by decide +kernel, refused_sinking (by decide)⟩

end CostCatalog
