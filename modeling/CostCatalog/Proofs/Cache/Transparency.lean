import CostCatalog.Proofs.Cache.Queries
import CostCatalog.Proofs.Cache.Worlds
import CostCatalog.Proofs.Samples

/-!
# The cache is transparent

Calls made one after the other leave the same store with and without the cache, and have the same
outcomes too unless a list has no key or something was to be kept for longer than can be counted,
`Call.trace_cached`. What carries this is coherence: every slot holds the record of the answer that the
store would give now to a query of the slot's key. A read fills in such a record; a change drops the
slots of all the queries that it touches.
-/

namespace CostCatalog

variable {k : Kind}

/-! ## Coherence -/

/-- Every slot holds in writing what the store answers now to a query of its key, which is of a kind
that is kept. -/
def Cache.Coherent (c : Cache) (s : Store) (kept : Kind → Prop) : Prop :=
  ∀ slot ∈ c.slots, ∃ q v, slot.key = c.stem ++ q.key ∧ s.record? q = some v ∧
    v.isWritable c.depth = true ∧ slot.payload = v.printAscii ∧ kept q.kind

namespace Cache.Coherent

variable {c : Cache} {s s' : Store} {kept : Kind → Prop}

theorem subset (h : c.Coherent s kept) {slots : List Slot} (hslots : slots ⊆ c.slots) :
    { c with slots }.Coherent s kept := fun slot hslot => h slot (hslots hslot)

/-- A record that answers to its key may be written. -/
theorem put (h : c.Coherent s kept) {q : Query} {v : Json} (hv : s.record? q = some v)
    (hwritable : v.isWritable c.depth = true) (hkept : kept q.kind) (expiresAt : Float) :
    (c.put ⟨c.stem ++ q.key, expiresAt, v.printAscii⟩).Coherent s kept := by
  intro slot hslot
  rw [stem_put, depth_put]
  rcases mem_put hslot with rfl | ⟨hold, -⟩
  · exact ⟨q, v, rfl, hv, hwritable, rfl, hkept⟩
  · exact h slot hold

/-- A read finds nothing, or what the store answers. -/
theorem get (h : c.Coherent s kept) (q : Query) (now : Float) :
    ∃ slots ⊆ c.slots,
      (c.get q.key now = (.ok none, { c with slots }) ∨
        ∃ v, s.record? q = some v ∧ kept q.kind ∧
          c.get q.key now = (.ok (some v), { c with slots })) := by
  rcases c.getAs_cases String q.key now with ⟨slots, hslots, hget⟩ | ⟨slot, hslot, hkey, hget⟩
  · exact ⟨slots, hslots, Or.inl hget⟩
  · obtain ⟨q', v, hkey', hv, hwritable, hpayload, hkept⟩ := h slot hslot
    have hq : q.key = q'.key := Filter.append_left_cancel (hkey.symm.trans hkey')
    have hread : Json.decode c.depth (Textual.points slot.payload) = .ok v := by
      rw [hpayload]
      exact Json.decode_printAscii (Store.renders_of_record? hv).wellNamed v.unsplit hwritable
    rw [hread] at hget
    exact ⟨c.slots, List.Subset.refl _, Or.inr
      ⟨v, (Store.record?_of_key_eq hq).trans hv, Query.kind_eq_of_key_eq hq ▸ hkept, hget⟩⟩

/-- A change keeps coherence if the slots of the queries that it touches are dropped. -/
theorem change (h : c.Coherent s kept) {ch : Change}
    (hframe : ∀ q, ¬ ch.Touches q → s'.record? q = s.record? q) {slots : List Slot}
    (hslots : slots ⊆ c.slots)
    (hdropped : ∀ q, ch.Touches q → ∀ slot ∈ slots, slot.key ≠ c.stem ++ q.key) :
    { c with slots }.Coherent s' kept := by
  intro slot hslot
  obtain ⟨q, v, hkey, hv, hrest⟩ := h slot (hslots hslot)
  have hq : ¬ ch.Touches q := fun hq => hdropped q hq slot hslot hkey
  exact ⟨q, v, hkey, (hframe q hq).trans hv, hrest⟩

end Cache.Coherent

/-- A world whose cache is coherent with its store, behind a stem, and holds nothing but what is of a
kind that is kept. -/
def World.Serves (w : World) (stem : String) (kept : Kind → Prop := fun _ => True) : Prop :=
  ∃ c, w.Holds c ∧ c.stem = stem ∧ c.Coherent w.store kept

namespace World.Serves

variable {w : World} {stem : String} {kept : Kind → Prop}

/-- The clock is read by the cache alone, so setting it keeps the cache coherent. -/
theorem clocked (h : w.Serves stem kept) (clock : Float) :
    { w with monotonic := clock }.Serves stem kept := by
  obtain ⟨c, hc, hstem, hcoherent⟩ := h
  exact ⟨c, ⟨hc.cache, hc.up⟩, hstem, hcoherent⟩

theorem logged (records : List LogRecord) (h : w.Serves stem kept) :
    { w with records }.Serves stem kept := by
  obtain ⟨c, hc, hstem, hcoherent⟩ := h
  exact ⟨c, hc.logged w.store records, hstem, hcoherent⟩

theorem of_empty (depth : Json.Depth) (hcache : w.cache = .memory { stem, depth })
    (hup : w.down = []) : w.Serves stem kept :=
  ⟨{ stem, depth }, ⟨hcache, hup⟩, rfl, fun slot hslot => by cases hslot⟩

end World.Serves

/-! ## Reading through the cache -/

/-- How a read through the cache ends that has some outcome without it: so too; or, when what was read
was to be kept for longer than can be counted, with that accident. -/
def Store.ReadsThrough {α : Type} (s : Store) (q : Query) (ttl : Int) (kept : Kind → Prop)
    (x y : Except Fault α) : Prop :=
  (y = x ∧ (s.Keepable q → kept q.kind)) ∨
    (y = .error (.unexpected .beyondDoubles) ∧ s.Keepable q ∧ ¬ Cache.CanLast ttl)

/-- What can be kept is read as it is without the cache. -/
theorem Store.ReadsThrough.eq_of_canLast {α : Type} {s : Store} {q : Query} {ttl : Int}
    {kept : Kind → Prop} {x y : Except Fault α} (h : s.ReadsThrough q ttl kept x y)
    (hlast : Cache.CanLast ttl) : y = x := by
  rcases h with ⟨heq, -⟩ | ⟨-, -, hbeyond⟩
  · exact heq
  · exact absurd hlast hbeyond

namespace Repository

variable {w : World} {stem : String} {kept : Kind → Prop}

/-- A look-up finds nothing, or what the store answers. -/
theorem lookUp_spec (h : w.Serves stem kept) (q : Query) :
    ∃ w', w'.store = w.store ∧ w'.Serves stem kept ∧
      ((lookUp q.key).perform w = (.ok none, w') ∨
        ∃ v, w.store.record? q = some v ∧ kept q.kind ∧
          (lookUp q.key).perform w = (.ok (some v), w')) := by
  obtain ⟨c, hc, hstem, hcoherent⟩ := h
  have hanswer := hc.answer_get q.key
  obtain ⟨slots, hslots, hget⟩ := hcoherent.get q w.monotonic
  have hserves : { w with cache := .memory { c with slots } }.Serves stem kept :=
    ⟨{ c with slots }, ⟨rfl, hc.up⟩, hstem, hcoherent.subset hslots⟩
  refine ⟨{ w with cache := .memory { c with slots } }, rfl, hserves, ?_⟩
  rcases hget with hget | ⟨v, hv, hkept, hget⟩
  · rw [hget] at hanswer
    apply Or.inl
    rw [lookUp, Action.perform_bind_ok (Action.perform_request w _), hanswer]
    rfl
  · rw [hget] at hanswer
    refine Or.inr ⟨v, hv, hkept, ?_⟩
    rw [lookUp, Action.perform_bind_ok (Action.perform_request w _), hanswer]
    rfl

/-- What the store answers is kept; or it cannot be written, which is logged; or it was to be kept for
longer than can be counted. -/
theorem keep_spec (h : w.Serves stem kept) {q : Query} {v : Json} (hv : w.store.record? q = some v)
    {ttl : Int} (hkept : Cache.CanLast ttl → kept q.kind) :
    ∃ y w', (keep q.key v ttl).perform w = (y, w') ∧ w'.store = w.store ∧ w'.Serves stem kept ∧
      w.store.ReadsThrough q ttl kept (.ok ()) y := by
  obtain ⟨c, hc, hstem, hcoherent⟩ := h
  have hswept : (c.sweep w.monotonic).Coherent w.store kept :=
    hcoherent.subset fun _ => Cache.mem_of_mem_sweep
  have hkeep {c' : Cache}
      (hset : c.set q.key (.json v) (.whole ttl) w.monotonic = (.ok (), c')) :
      (keep q.key v ttl).perform w = (.ok (), { w with cache := .memory c' }) := by
    rw [keep, Action.perform_bind_ok (Action.perform_request w _), hc.answer_set, hset]
    rfl
  have hfail {f : Fault} {c' : Cache}
      (hset : c.set q.key (.json v) (.whole ttl) w.monotonic = (.error f, c')) :
      (keep q.key v ttl).perform w =
        (overlook "Cache write failed" f).perform { w with cache := .memory c' } := by
    rw [keep, Action.perform_bind_ok (Action.perform_request w _), hc.answer_set, hset]
  rcases c.set_whole_cases q.key v ttl w.monotonic with
    ⟨hwritable, hlast, ends, -, hset⟩ | ⟨o, hobstacle, hset⟩ | ⟨hwritable, hlast, hset⟩
  · have hput := hswept.put hv hwritable (hkept hlast) ends
    exact ⟨_, _, hkeep hset, rfl, ⟨_, ⟨rfl, hc.up⟩, (Cache.stem_put _).trans hstem, hput⟩,
      Or.inl ⟨rfl, fun _ => hkept hlast⟩⟩
  · cases (Store.renders_of_record? hv).obstacle_eq_digits hobstacle
    refine ⟨_, _, hfail hset, rfl, ⟨c, ⟨rfl, hc.up⟩, hstem, hcoherent⟩, Or.inl ⟨rfl, fun h => ?_⟩⟩
    obtain ⟨v', hv', hwritable⟩ := (Store.keepable_iff c.depth).mp h
    cases hv.symm.trans hv'
    rw [Json.isWritable, hobstacle] at hwritable
    cases hwritable
  · exact ⟨_, _, hfail hset, rfl, ⟨_, ⟨rfl, hc.up⟩, hstem, hswept⟩,
      Or.inr ⟨rfl, (Store.keepable_iff c.depth).mpr ⟨v, hv, hwritable⟩, hlast⟩⟩

/-- A read through the cache has the outcome of what is behind it, which the record of an answer
gives back, unless what is behind it was to be kept for too long. -/
theorem readThrough_spec {α : Type} (h : w.Serves stem kept) {q : Query} {ttl : Int}
    (hkept : Cache.CanLast ttl → kept q.kind) {inner : Action α} {x : Except Fault α}
    {render : α → Json} {read : Json → Except Fault α}
    (hinner : ∀ w' : World, w'.store = w.store → Performs inner w' x w.store)
    (hrecord : w.store.record? q = x.toOption.map render)
    (hread : ∀ a, x = .ok a → read (render a) = .ok a) :
    ∃ y w', (readThrough q.key inner render read ttl).perform w = (y, w') ∧ w'.store = w.store ∧
      w'.Serves stem kept ∧ w.store.ReadsThrough q ttl kept x y := by
  obtain ⟨w₁, hstore, hserves, hmiss | ⟨v, hv, hheld, hhit⟩⟩ := lookUp_spec h q
  · obtain ⟨records, hrun⟩ := hinner w₁ hstore
    rw [readThrough, Action.perform_bind_ok hmiss]
    have hserves' : { w₁ with store := w.store, records }.Serves stem kept := by
      obtain ⟨c, hc, hstem, hcoherent⟩ := hserves
      exact ⟨c, hc.logged w.store records, hstem, hstore ▸ hcoherent⟩
    cases x with
    | error f =>
      refine ⟨_, _, Action.perform_bind_error hrun _, rfl, hserves', Or.inl ⟨rfl, fun hq => ?_⟩⟩
      obtain ⟨v, hv, -⟩ := (Store.keepable_iff {}).mp hq
      rw [hrecord] at hv
      cases hv
    | ok a =>
      obtain ⟨y, w₂, hkeep, hstore₂, hserves₂, hy⟩ := keep_spec hserves' hrecord hkept
      rcases hy with ⟨rfl, hq⟩ | ⟨rfl, hq⟩
      · refine ⟨.ok a, w₂, ?_, hstore₂, hserves₂, Or.inl ⟨rfl, hq⟩⟩
        simp only [Action.perform_bind_ok hrun, Action.perform_bind_ok hkeep, Action.perform_pure]
      · refine ⟨_, w₂, ?_, hstore₂, hserves₂, Or.inr ⟨rfl, hq⟩⟩
        simp only [Action.perform_bind_ok hrun, Action.perform_bind_error hkeep]
  · refine ⟨x, w₁, ?_, hstore, hserves, Or.inl ⟨rfl, fun _ => hheld⟩⟩
    rw [readThrough, Action.perform_bind_ok hhit]
    rw [hrecord] at hv
    cases x with
    | error f => cases hv
    | ok a =>
      cases hv
      exact congrArg (·, w₁) (hread a rfl)

/-- Finding an entry through the cache. -/
theorem cachedFind_spec (h : w.Serves stem kept) (ttl : Int) (hkept : Cache.CanLast ttl → kept k)
    (c : Code k) :
    ∃ y w', (cachedFind (stored k) ttl c).perform w = (y, w') ∧ w'.store = w.store ∧
      w'.Serves stem kept ∧ w.store.ReadsThrough (.entry k c) ttl kept (w.store.found c) y :=
  readThrough_spec h (q := .entry k c) hkept (fun w' hw' => hw' ▸ performs_storedFind w' c) rfl
    fun _ he => Record.toEntry_ofEntry (Store.found_isStored he).audit.legible

/-- Listing a page that has a key through the cache. -/
theorem cachedList_spec (h : w.Serves stem kept) (ttl : Int) (hkept : Cache.CanLast ttl → kept k)
    {f : Filter k} (hf : f.hasListKey = true) :
    ∃ y w', (cachedList (stored k) ttl f).perform w = (y, w') ∧ w'.store = w.store ∧
      w'.Serves stem kept ∧ w.store.ReadsThrough (.list k f) ttl kept (w.store.listed f) y := by
  rw [cachedList_of_hasListKey hf]
  exact readThrough_spec h (q := .list k f) hkept (fun w' hw' => hw' ▸ performs_storedList w' f) rfl
    fun found hfound => Record.toPage_ofPage found.2 fun e he =>
      (Store.listed_isStored hfound e he).audit.legible

/-- Listing a page that has no key ends before anything is asked. -/
theorem perform_cachedList_of_not_hasListKey (inner : Repository k) (ttl : Int) {f : Filter k}
    (hf : ¬ f.hasListKey = true) (w : World) :
    (cachedList inner ttl f).perform w = (.error (.unexpected .tooManyDigits), w) := by
  rw [cachedList_of_not_hasListKey hf]
  rfl

end Repository

/-! ## Changing through the cache -/

/-- An action that drops from a cache, and does nothing else but log, all slots of the queries that
a change touches. -/
def Forgets (a : Action Unit) (stem : String) (ch : Change) : Prop :=
  ∀ (w : World) (c : Cache), w.Holds c → c.stem = stem →
    ∃ slots ⊆ c.slots, ∃ w', a.perform w = (.ok (), w') ∧ w'.Holds { c with slots } ∧
      w'.store = w.store ∧ ∀ q, ch.Touches q → ∀ slot ∈ slots, slot.key ≠ stem ++ q.key

namespace Repository

variable {w : World} {stem : String} {kept : Kind → Prop}

/-- A change through the cache. -/
theorem change_spec (h : w.Serves stem kept) {inner drop : Action Unit} {ch : Change}
    {result : Except Fault Unit × Store} (hinner : Performs inner w result.1 result.2)
    (hchange : w.store.Changes ch result) (hdrop : Forgets drop stem ch) :
    ∃ w', (do inner; drop : Action Unit).perform w = (result.1, w') ∧ w'.store = result.2 ∧
      w'.Serves stem kept := by
  obtain ⟨c, hc, hstem, hcoherent⟩ := h
  obtain ⟨records, hrun⟩ := hinner
  rcases hchange with ⟨f, rfl⟩ | ⟨s', rfl, hframe⟩
  · exact ⟨_, Action.perform_bind_error hrun _, rfl, c, hc.logged w.store records, hstem, hcoherent⟩
  · obtain ⟨slots, hslots, w', hperform, hc', hstore, hdropped⟩ :=
      hdrop _ c (hc.logged s' records) hstem
    refine ⟨w', (Action.perform_bind_ok hrun _).trans hperform, hstore, _, hc', hstem, ?_⟩
    rw [hstore]
    refine hcoherent.change hframe hslots ?_
    rw [hstem]
    exact hdropped

/-- Dropping by a pattern. -/
theorem forgetMatching_spec {c : Cache} (hc : w.Holds c) (pattern : String) :
    ∃ w', (forgetMatching pattern).perform w = (.ok (), w') ∧
      w'.Holds (c.deleteMatching pattern).2 ∧ w'.store = w.store := by
  obtain ⟨records, hanswer⟩ := hc.answer_deleteMatching pattern
  refine ⟨{ w with cache := .memory (c.deleteMatching pattern).2, records }, ?_, ⟨rfl, hc.up⟩, rfl⟩
  rw [forgetMatching, Action.perform_bind_ok (Action.perform_request w _), hanswer]
  rfl

/-- Dropping a key and then by a pattern. -/
theorem forget_spec {c : Cache} (hc : w.Holds c) (key pattern : String) :
    ∃ w', (forget key pattern).perform w = (.ok (), w') ∧
      w'.Holds ((c.delete [key]).deleteMatching pattern).2 ∧ w'.store = w.store := by
  have hdelete := hc.answer_delete key
  have hc' : { w with cache := .memory (c.delete [key]) }.Holds (c.delete [key]) := ⟨rfl, hc.up⟩
  obtain ⟨records, hmatching⟩ := hc'.answer_deleteMatching pattern
  refine ⟨{ w with cache := .memory ((c.delete [key]).deleteMatching pattern).2, records }, ?_,
    ⟨rfl, hc.up⟩, rfl⟩
  rw [forget, Action.perform_bind_ok (Action.perform_request w _), hdelete]
  simp only
  rw [Action.perform_bind_ok (Action.perform_request _ _), hmatching]
  rfl

variable (hplain : ∀ c ∈ stem.toList, Glob.IsPlain c)

include hplain

/-- Dropping an entry's own key and the lists of its kind is enough when the entry does not end. -/
theorem forgetEntry_forgets (d : Code k) : Forgets (forgetEntry d) stem ⟨k, d, false⟩ := by
  intro w c hc hstem
  obtain ⟨w', hrun, hc', hstore⟩ := forget_spec hc (Filter.entryKey d) (Filter.listPattern k)
  refine ⟨_, Cache.forgotten_subset, w', hrun, hc', hstore, ?_⟩
  intro q hq slot hslot hkey
  obtain ⟨hown, hlist⟩ := Cache.key_of_mem_forgotten hslot
  rw [hstem, hkey] at hown hlist
  have hnot : ¬ (Change.mk k d false).Touches q :=
    Change.not_touches hplain (fun h => hown (congrArg (stem ++ ·) h)) hlist fun h => nomatch h
  exact hnot hq

/-- Dropping what refers to a unit besides is enough when the entry ends. -/
theorem forgetReferences_forgets (d : Code k) :
    Forgets (do forgetEntry d; forgetReferences k) stem ⟨k, d, true⟩ := by
  intro w c hc hstem
  obtain ⟨w₁, hrun, hc₁, hstore⟩ := forget_spec hc (Filter.entryKey d) (Filter.listPattern k)
  cases k with
  | parameter =>
    refine ⟨_, Cache.forgotten_subset, w₁, Action.perform_bind_ok hrun _, hc₁, hstore, ?_⟩
    intro q hq slot hslot hkey
    obtain ⟨hown, hlist⟩ := Cache.key_of_mem_forgotten hslot
    rw [hstem, hkey] at hown hlist
    have hnot : ¬ (Change.mk .parameter d true).Touches q :=
      Change.not_touches hplain (fun h => hown (congrArg (stem ++ ·) h)) hlist fun _ h => nomatch h
    exact hnot hq
  | uom =>
    obtain ⟨w₂, hrun₂, hc₂, hstore₂⟩ := forgetMatching_spec hc₁ (Filter.allPattern .parameter)
    refine ⟨_, fun slot hslot => Cache.forgotten_subset (Cache.mem_deleteMatching.mp hslot).1, w₂,
      (Action.perform_bind_ok hrun _).trans hrun₂, hc₂, hstore₂.trans hstore, ?_⟩
    intro q hq slot hslot hkey
    obtain ⟨hslot, hall⟩ := Cache.mem_deleteMatching.mp hslot
    obtain ⟨hown, hlist⟩ := Cache.key_of_mem_forgotten hslot
    have hstem' : ((c.delete [Filter.entryKey d]).deleteMatching
        (Filter.listPattern .uom)).2.stem = stem := hstem
    rw [hkey] at hown hlist hall
    rw [hstem'] at hall
    rw [hstem] at hown hlist
    have hnot : ¬ (Change.mk .uom d true).Touches q :=
      Change.not_touches hplain (fun h => hown (congrArg (stem ++ ·) h)) hlist fun _ _ => hall
    exact hnot hq

end Repository

/-! ## Calls -/

/-- The store never says of itself that a number has too many digits for a text. -/
private theorem Store.listed_ne_tooManyDigits (s : Store) (f : Filter k) :
    s.listed f ≠ .error (.unexpected .tooManyDigits) := by
  have hfailure (g : StoreFailure) : g.toFault "select" ≠ .unexpected .tooManyDigits := by
    cases g <;> exact fun h => nomatch h
  unfold listed
  split
  · exact fun h => nomatch h
  · exact fun h => hfailure _ (Except.error.inj h)
  · exact fun h => hfailure _ (Except.error.inj h)

private theorem Store.map_listed_ne_tooManyDigits (s : Store) (f : Filter k)
    (g : List (Entry k) × Int → Reply) : (s.listed f).map g ≠ .error (.unexpected .tooManyDigits) := by
  intro h
  cases hlisted : s.listed f with
  | ok found =>
    rw [hlisted] at h
    cases h
  | error e =>
    rw [hlisted] at h
    cases h
    exact s.listed_ne_tooManyDigits f hlisted

namespace Call

/-- Whether the cache lets a call through: a list that is asked for has a key, and what the store has
in answer and can be written is of a kind that can be kept. -/
def Passes (kept : Kind → Prop) (s : Store) : Call → Prop
  | .find k c => s.Keepable (.entry k c) → kept k
  | .list k f => f.hasListKey = true ∧ (s.Keepable (.list k f) → kept k)
  | _ => True

theorem Passes.mono {kept kept' : Kind → Prop} {s : Store} {call : Call} (h : call.Passes kept s)
    (hkept : ∀ k, kept k → kept' k) : call.Passes kept' s := by
  cases call with
  | find k c => exact fun hq => hkept k (h hq)
  | list k f => exact ⟨h.1, fun hq => hkept k (h.2 hq)⟩
  | create | update | delete | contains => exact trivial

/-- Whether the cache lets every one of some calls through, each over the store that those before it
leave. -/
def AllPass (kept : Kind → Prop) : List Call → Store → Prop
  | [], _ => True
  | call :: calls, s => call.Passes kept s ∧ AllPass kept calls (s.answer call).2

/-- An outcome of a call that the cache does not let through: there was no key for it, or what it found
was to be kept for too long. -/
def TurnedAway {α : Type} (x : Except Fault α) : Prop :=
  x = .error (.unexpected .tooManyDigits) ∨ x = .error (.unexpected .beyondDoubles)

/-- A read through the cache is replied to as it is without the cache, or it is turned away where
without the cache it is not. -/
private theorem reply_of_readsThrough {α : Type} {s : Store} {q : Query} {ttl : Int}
    {kept : Kind → Prop} {x y : Except Fault α} (h : s.ReadsThrough q ttl kept x y)
    (hx : s.Keepable q → ∃ a, x = .ok a) (g : α → Reply) :
    y.map g = x.map g ∧ (s.Keepable q → kept q.kind) ∨
      TurnedAway (y.map g) ∧ y.map g ≠ x.map g ∧ ¬ (s.Keepable q → Cache.CanLast ttl) := by
  rcases h with ⟨rfl, hkept⟩ | ⟨rfl, hq, hlast⟩
  · exact Or.inl ⟨rfl, hkept⟩
  · obtain ⟨a, rfl⟩ := hx hq
    exact Or.inr ⟨Or.inr rfl, (fun heq => by cases heq), fun h => hlast (h hq)⟩

/-- A call through the cache leaves the store of the call without it. It has its outcome too; or it is
a read that is turned away, where the call without the cache is not. -/
theorem cached_spec (call : Call) {ttl : Kind → Int} {w : World} {stem : String} {kept : Kind → Prop}
    (hplain : ∀ c ∈ stem.toList, Glob.IsPlain c) (h : w.Serves stem kept)
    (hkept : ∀ k, Cache.CanLast (ttl k) → kept k) :
    ∃ y w', (call.on (.cached ttl)).perform w = (y, w') ∧ w'.store = (w.store.answer call).2 ∧
      w'.Serves stem kept ∧ (y = (w.store.answer call).1 ∧ call.Passes kept w.store ∨
        TurnedAway y ∧ y ≠ (w.store.answer call).1 ∧
          ¬ call.Passes (fun k => Cache.CanLast (ttl k)) w.store) := by
  cases call with
  | create k e =>
    obtain ⟨w', hrun, hstore, hserves⟩ := Repository.change_spec h
      (Repository.performs_storedCreate w e) (Store.created_changes w.store e)
      (Repository.forgetEntry_forgets hplain e.code)
    exact ⟨_, w', Action.perform_map hrun fun _ => Reply.done, hstore, hserves,
      Or.inl ⟨rfl, trivial⟩⟩
  | find k c =>
    obtain ⟨y, w', hrun, hstore, hserves, hy⟩ := Repository.cachedFind_spec h _ (hkept k) c
    exact ⟨_, w', Action.perform_map hrun (Reply.entry k), hstore, hserves,
      reply_of_readsThrough hy id (Reply.entry k)⟩
  | list k f =>
    by_cases hf : f.hasListKey = true
    · obtain ⟨y, w', hrun, hstore, hserves, hy⟩ := Repository.cachedList_spec h _ (hkept k) hf
      refine ⟨_, w', Action.perform_map hrun fun found => Reply.page k found.1 found.2, hstore,
        hserves, ?_⟩
      rcases reply_of_readsThrough hy (fun ⟨entries, total, hfound, _⟩ => ⟨(entries, total), hfound⟩)
        fun found => Reply.page k found.1 found.2 with ⟨heq, hpasses⟩ | ⟨haway, hne, hturned⟩
      · exact Or.inl ⟨heq, hf, hpasses⟩
      · exact Or.inr ⟨haway, hne, fun hpasses => hturned hpasses.2⟩
    · have hrun :=
        Repository.perform_cachedList_of_not_hasListKey (Repository.stored k) (ttl k) hf w
      exact ⟨_, w, Action.perform_map hrun fun found => Reply.page k found.1 found.2, rfl, h,
        Or.inr ⟨Or.inl rfl, (w.store.map_listed_ne_tooManyDigits f _).symm,
          fun hpasses => hf hpasses.1⟩⟩
  | update k e =>
    obtain ⟨w', hrun, hstore, hserves⟩ := Repository.change_spec h
      (Repository.performs_storedUpdate w e) (Store.updated_changes w.store e)
      (Repository.forgetEntry_forgets hplain e.code)
    exact ⟨_, w', Action.perform_map hrun fun _ => Reply.done, hstore, hserves,
      Or.inl ⟨rfl, trivial⟩⟩
  | delete k c =>
    obtain ⟨w', hrun, hstore, hserves⟩ := Repository.change_spec h
      (Repository.performs_storedDelete w c) (Store.deleted_changes w.store c)
      (Repository.forgetReferences_forgets hplain c)
    exact ⟨_, w', Action.perform_map hrun fun _ => Reply.done, hstore, hserves,
      Or.inl ⟨rfl, trivial⟩⟩
  | contains k c =>
    obtain ⟨records, hrun⟩ := Repository.performs_storedContains w c
    obtain ⟨cache, hc, hstem, hcoherent⟩ := h
    exact ⟨_, _, Action.perform_map hrun Reply.present, rfl,
      ⟨cache, hc.logged w.store records, hstem, hcoherent⟩, Or.inl ⟨rfl, trivial⟩⟩

/-- Calls through a coherent cache, compared with the calls without it from the same store. -/
theorem trace_eq_iff_of_serves {ttl : Kind → Int} (calls : List (Float × Call)) {w v : World}
    {stem : String} {kept : Kind → Prop} (hplain : ∀ c ∈ stem.toList, Glob.IsPlain c)
    (h : w.Serves stem kept) (hkept : ∀ k, Cache.CanLast (ttl k) ↔ kept k)
    (hstore : w.store = v.store) :
    trace (.cached ttl) calls w = trace .stored calls v ↔
      AllPass kept (calls.map (·.2)) v.store := by
  induction calls generalizing w v with
  | nil => exact iff_of_true rfl trivial
  | cons timed calls ih =>
    obtain ⟨clock, call⟩ := timed
    obtain ⟨y, w', hrun, hstore', hserves, hy⟩ :=
      call.cached_spec hplain (h.clocked clock) fun k => (hkept k).mp
    obtain ⟨records, hbare⟩ := call.performs_stored { v with monotonic := clock }
    have hnext : w'.store = (v.store.answer call).2 := by rw [hstore', ← hstore]
    unfold trace
    rw [hrun, hbare]
    refine List.cons_eq_cons.trans (and_congr ?_ (ih hserves hnext))
    rw [Prod.mk.injEq, and_iff_left hnext]
    rcases hy with ⟨heq, hpasses⟩ | ⟨-, hne, hpasses⟩
    · exact iff_of_true (hstore ▸ heq) (hstore ▸ hpasses)
    · simp only [hkept] at hpasses
      exact iff_of_false (hstore ▸ hne) (hstore ▸ hpasses)

/-- Queries that have keys, asked through a coherent cache, are answered as by the store, if what is
read can be kept. -/
theorem trace_queries_of_serves {ttl : Kind → Int} (httl : ∀ k, Cache.CanLast (ttl k))
    {reads : List (Float × Query)} (hreads : ∀ read ∈ reads, read.2.hasKey = true) {w : World}
    {stem : String} (hplain : ∀ c ∈ stem.toList, Glob.IsPlain c) (h : w.Serves stem) :
    trace (.cached ttl) (reads.map fun read => (read.1, read.2.call)) w =
      trace .stored (reads.map fun read => (read.1, read.2.call)) w := by
  refine (trace_eq_iff_of_serves _ hplain h (fun k => iff_of_true (httl k) trivial) rfl).mpr ?_
  rw [List.map_map]
  generalize w.store = s
  induction reads generalizing s with
  | nil => exact trivial
  | cons read reads ih =>
    obtain ⟨hread, hreads⟩ := List.forall_mem_cons.mp hreads
    refine ⟨?_, ih hreads _⟩
    obtain ⟨clock, q⟩ := read
    cases q with
    | entry k c => exact fun _ => trivial
    | list k f => exact ⟨hread, fun _ => trivial⟩

/-- Calls through a cache that starts empty have the outcomes of the same calls without it, and the
stores agree after every one, exactly if the cache lets every one of them through: no list is asked for
whose page number has too many digits for a key, and nothing is found that was to be kept for a time
beyond every double. This holds whatever the store holds and enforces, and whatever the clock reads at
each call. -/
theorem trace_cached (ttl : Kind → Int) (calls : List (Float × Call)) {w : World}
    {stem : String} {depth : Json.Depth} (hplain : ∀ c ∈ stem.toList, Glob.IsPlain c)
    (hcache : w.cache = .memory { stem, depth }) (hup : w.down = []) :
    trace (.cached ttl) calls w = trace .stored calls w ↔
      AllPass (fun k => Cache.CanLast (ttl k)) (calls.map (·.2)) w.store :=
  trace_eq_iff_of_serves calls hplain (.of_empty _ hcache hup) (fun _ => Iff.rfl) rfl

/-- The end of a unit is seen through the cache in the parameters that were measured in it. -/
theorem trace_cached_unit_deleted :
    (∀ c ∈ "v1:".toList, Glob.IsPlain c) ∧
      trace (.cached fun _ => 60) Sample.calls (Sample.world "v1:") =
        trace .stored Sample.calls (Sample.world "v1:") := by
  have hplain : ∀ c ∈ "v1:".toList, Glob.IsPlain c := Glob.isPlain_of_all rfl
  have hlast : Cache.CanLast 60 := by decide +kernel
  refine ⟨hplain, (trace_cached _ _ hplain rfl rfl).mpr ?_⟩
  exact ⟨trivial, trivial, fun _ => hlast, ⟨by decide +kernel, fun _ => hlast⟩, trivial,
    fun _ => hlast, ⟨by decide +kernel, fun _ => hlast⟩, trivial⟩

/-- A unit that is to be kept for a time beyond every double is found without the cache and not through
it. -/
theorem trace_cached_too_long :
    let calls : List (Float × Call) := [(1.0, .create .uom (Sample.kilogram "Kilogram")),
      (2.0, .find .uom (Sample.kilogram "").code)]
    trace (.cached fun _ => 10 ^ 400) calls (Sample.world "v1:") ≠
      trace .stored calls (Sample.world "v1:") := by
  intro calls hsame
  have hpass := (trace_eq_iff_of_serves calls (Glob.isPlain_of_all rfl)
    (.of_empty (w := Sample.world "v1:") {} rfl rfl) (fun _ => Iff.rfl) rfl).mp hsame
  have hlast : ¬ Cache.CanLast (10 ^ 400) := by decide +kernel
  exact hlast (hpass.2.1 ⟨Sample.kilogram "Kilogram", rfl⟩)

end Call

end CostCatalog
