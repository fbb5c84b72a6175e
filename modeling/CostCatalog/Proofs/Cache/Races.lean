import CostCatalog.Proofs.Cache.Debts
import CostCatalog.Proofs.Cache.Transparency

/-!
# What a race leaves in the cache

Calls through the cache that run side by side, interleaved at every request to the cache and the
store. Each call that changes the store drops afterwards what it touched; so what was in the cache
before a change is gone once all are done. What a reader writes after the drop stays, and it may have
been read before the change: such a late fill is served until its time is up. It is all that can go
wrong, `Call.reads_agree_iff`, and it does, `Call.reads_disagree_after_late_fill`.

That a slot stays in the cache throughout a schedule is what ties its end to its beginning: while it
stays, either the store answers its query as before or some call is still to drop it.
-/

namespace CostCatalog

variable {stem : String}

/-! ## Legible caches -/

/-- Every slot holds in writing, under the key of a query, a record that renders an answer to it, and
the slots of one key hold one text. -/
structure Cache.Legible (c : Cache) : Prop where
  renders : ∀ slot ∈ c.slots, ∃ (q : Query) (v : Json), slot.key = c.stem ++ q.key ∧ q.Renders v ∧
    v.isWritable c.depth = true ∧ slot.payload = v.printAscii
  single : ∀ a ∈ c.slots, ∀ b ∈ c.slots, a.key = b.key → a.payload = b.payload

namespace Cache.Legible

variable {c : Cache}

theorem subset (h : c.Legible) {slots : List Slot} (hslots : slots ⊆ c.slots) :
    { c with slots }.Legible where
  renders slot hslot := h.renders slot (hslots hslot)
  single a ha b hb := h.single a (hslots ha) b (hslots hb)

theorem put (h : c.Legible) {q : Query} {v : Json} (hv : q.Renders v)
    (hwritable : v.isWritable c.depth = true) (expiresAt : Float) :
    (c.put ⟨c.stem ++ q.key, expiresAt, v.printAscii⟩).Legible where
  renders := by
    intro slot hslot
    rw [stem_put, depth_put]
    rcases mem_put hslot with rfl | ⟨hold, -⟩
    · exact ⟨q, v, rfl, hv, hwritable, rfl⟩
    · exact h.renders slot hold
  single := by
    intro a ha b hb hkey
    rcases mem_put ha with rfl | ⟨ha, hane⟩
    · rcases mem_put hb with rfl | ⟨hb, hbne⟩
      · rfl
      · exact absurd hkey.symm hbne
    · rcases mem_put hb with rfl | ⟨hb, hbne⟩
      · exact absurd hkey hane
      · exact h.single a ha b hb hkey

/-- A read finds nothing, or the record of a slot of its key. -/
theorem get (h : c.Legible) (key : String) (now : Float) :
    ∃ v, ∃ slots ⊆ c.slots, c.get key now = (.ok v, { c with slots }) := by
  rcases c.getAs_cases String key now with ⟨slots, hslots, hget⟩ | ⟨slot, hslot, hkey, hget⟩
  · exact ⟨none, slots, hslots, hget⟩
  · obtain ⟨q, v, -, hv, hwritable, hpayload⟩ := h.renders slot hslot
    rw [hpayload, Json.decode_printAscii hv.wellNamed v.unsplit hwritable] at hget
    exact ⟨some v, c.slots, List.Subset.refl _, hget⟩

end Cache.Legible

/-- A world whose cache is legible, behind a stem. -/
def World.Legible (w : World) (stem : String) : Prop :=
  ∃ c, w.Holds c ∧ c.stem = stem ∧ c.Legible

/-- A coherent cache is legible. -/
theorem World.Serves.legible {w : World} (h : w.Serves stem) : w.Legible stem := by
  obtain ⟨c, hc, hstem, hcoherent⟩ := h
  refine ⟨c, hc, hstem, ?_, ?_⟩
  · intro slot hslot
    obtain ⟨q, v, hkey, hv, hwritable, hpayload, -⟩ := hcoherent slot hslot
    exact ⟨q, v, hkey, Store.renders_of_record? hv, hwritable, hpayload⟩
  · intro a ha b hb hkey
    obtain ⟨q, v, hq, hv, -, hpayload, -⟩ := hcoherent a ha
    obtain ⟨q', v', hq', hv', -, hpayload', -⟩ := hcoherent b hb
    have hqq : q.key = q'.key :=
      Filter.append_left_cancel (hq.symm.trans (hkey.trans hq'))
    have hvv : some v = some v' := by rw [← hv, ← hv', Store.record?_of_key_eq hqq]
    rw [hpayload, hpayload', Option.some.inj hvv]

namespace World.Legible

variable {w : World} {ι : Type}

/-- The cache is all that matters. -/
theorem of_eq (h : w.Legible stem) {w' : World} (hcache : w'.cache = w.cache)
    (hdown : w'.down = w.down) : w'.Legible stem := by
  obtain ⟨c, hc, hstem, hlegible⟩ := h
  exact ⟨c, ⟨hcache.trans hc.cache, hdown.trans hc.up⟩, hstem, hlegible⟩

/-- A request that keeps what is legible is answered as its program relies on, and the cache stays
legible. -/
theorem answer (h : w.Legible stem) {r : Request} (hr : r.IsLegible) :
    r.Relies (w.answer r).1 ∧ (w.answer r).2.Legible stem := by
  have hstore (s : Store) : { w with store := s }.Legible stem := h.of_eq rfl rfl
  have hrow (x : Except StoreFailure (Bool × Store)) : (w.onRow x).2.Legible stem := by
    cases x with
    | ok found => exact hstore _
    | error f => exact h
  cases r with
  | insert k e =>
    refine ⟨trivial, ?_⟩
    cases hinsert : w.store.insert e with
    | ok s =>
      rw [World.answer_insert_ok hinsert]
      exact hstore s
    | error f =>
      rw [World.answer_insert_error hinsert]
      exact h
  | find k c =>
    refine ⟨?_, h⟩
    intro e he
    have hfound : w.store.found c = .ok e := by
      rw [Store.found, show w.store.find c = _ from he]
    exact Store.found_isStored hfound
  | count k f => exact ⟨trivial, h⟩
  | page k f => exact ⟨fun entries hentries => Store.page_isStored hentries, h⟩
  | update k e => exact ⟨trivial, hrow _⟩
  | delete k c => exact ⟨trivial, hrow _⟩
  | contains k c => exact ⟨trivial, h⟩
  | cacheGet key =>
    obtain ⟨c, hc, hstem, hlegible⟩ := h
    obtain ⟨v, slots, hslots, hget⟩ := hlegible.get key w.monotonic
    rw [hc.answer_get, hget]
    exact ⟨⟨v, rfl⟩, _, ⟨rfl, hc.up⟩, hstem, hlegible.subset hslots⟩
  | cacheSet key v ttl =>
    obtain ⟨c, hc, hstem, hlegible⟩ := h
    obtain ⟨q, -, rfl, hv⟩ := hr
    have hswept : (c.sweep w.monotonic).Legible :=
      hlegible.subset fun _ => Cache.mem_of_mem_sweep
    refine ⟨trivial, ?_⟩
    rw [hc.answer_set]
    rcases c.set_whole_cases q.key v ttl w.monotonic with
      ⟨hwritable, -, ends, -, hset⟩ | ⟨o, -, hset⟩ | ⟨-, -, hset⟩ <;> rw [hset]
    · exact ⟨_, ⟨rfl, hc.up⟩, (Cache.stem_put _).trans hstem, hswept.put hv hwritable ends⟩
    · exact ⟨c, ⟨rfl, hc.up⟩, hstem, hlegible⟩
    · exact ⟨_, ⟨rfl, hc.up⟩, hstem, hswept⟩
  | cacheDelete key =>
    obtain ⟨c, hc, hstem, hlegible⟩ := h
    rw [hc.answer_delete]
    exact ⟨rfl, _, ⟨rfl, hc.up⟩, hstem,
      hlegible.subset fun _ hslot => (Cache.mem_delete_one.mp hslot).1⟩
  | cacheDeleteMatching pattern =>
    obtain ⟨c, hc, hstem, hlegible⟩ := h
    obtain ⟨records, hanswer⟩ := hc.answer_deleteMatching pattern
    rw [hanswer]
    exact ⟨rfl, _, ⟨rfl, hc.up⟩, hstem,
      hlegible.subset fun _ hslot => (Cache.mem_deleteMatching.mp hslot).1⟩
  | now => exact ⟨trivial, h⟩
  | log r => exact ⟨trivial, h.of_eq rfl rfl⟩
  | mark k m => exact ⟨trivial, h.of_eq rfl rfl⟩

/-! ## What debts are good for -/

/-- A reply leaves the answer to a query as it is, or puts the program into debt. -/
private theorem record?_answer (h : w.Legible stem) (r : Request) (debt : Debt) (q : Query) :
    (w.answer r).2.store.record? q = w.store.record? q ∨
      Debt.after stem debt r (w.answer r).1 q := by
  obtain ⟨c, hc, -, -⟩ := h
  cases r with
  | insert k e =>
    cases hinsert : w.store.insert e with
    | error f =>
      rw [World.answer_insert_error hinsert]
      exact Or.inl rfl
    | ok s =>
      rw [World.answer_insert_ok hinsert]
      by_cases hq : (Change.mk k e.code false).Touches q
      · exact Or.inr (Or.inr hq)
      · exact Or.inl (Store.record?_insert hinsert hq)
  | update k e =>
    show (w.onRow (w.store.update e)).2.store.record? q = _ ∨
      Debt.after stem debt (.update k e) (w.onRow (w.store.update e)).1 q
    cases hupdate : w.store.update e with
    | error f => exact Or.inl rfl
    | ok changed =>
      obtain ⟨found, s⟩ := changed
      by_cases hq : (Change.mk k e.code false).Touches q
      · cases found with
        | true => exact Or.inr (Or.inr hq)
        | false =>
          obtain ⟨t, -, -, rfl⟩ := Store.update_ok hupdate
          exact Or.inl rfl
      · exact Or.inl (Store.record?_update hupdate hq)
  | delete k c =>
    show (w.onRow (w.store.delete c)).2.store.record? q = _ ∨
      Debt.after stem debt (.delete k c) (w.onRow (w.store.delete c)).1 q
    cases hdelete : w.store.delete c with
    | error f => exact Or.inl rfl
    | ok changed =>
      obtain ⟨found, s⟩ := changed
      by_cases hq : (Change.mk k c true).Touches q
      · cases found with
        | true => exact Or.inr (Or.inr hq)
        | false =>
          obtain ⟨t, -, -, rfl⟩ := Store.delete_ok hdelete
          exact Or.inl rfl
      · exact Or.inl (Store.record?_delete hdelete hq)
  | cacheGet key =>
    rw [hc.answer_get]
    exact Or.inl rfl
  | cacheSet key v ttl =>
    rw [hc.answer_set]
    exact Or.inl rfl
  | cacheDelete key =>
    rw [hc.answer_delete]
    exact Or.inl rfl
  | cacheDeleteMatching pattern =>
    obtain ⟨records, hanswer⟩ := hc.answer_deleteMatching pattern
    rw [hanswer]
    exact Or.inl rfl
  | find | count | page | contains | now | log | mark => exact Or.inl rfl

/-- A debt is not paid while a slot of the query is in the cache. -/
private theorem after_of_slot (h : w.Legible stem) {r : Request} {debt : Debt} {q : Query}
    (hdebt : debt q) {slot : Cache.Slot} (hkey : slot.key = stem ++ q.key)
    (hslot : slot ∈ (w.answer r).2.slots) :
    Debt.after stem debt r (w.answer r).1 q := by
  obtain ⟨c, hc, rfl, -⟩ := h
  cases r with
  | insert k e =>
    generalize (w.answer (.insert k e)).1 = reply
    cases reply with
    | ok _ => exact Or.inl hdebt
    | error f => exact hdebt
  | update k e =>
    generalize (w.answer (.update k e)).1 = reply
    match reply with
    | .ok true => exact Or.inl hdebt
    | .ok false => exact hdebt
    | .error f => exact hdebt
  | delete k c =>
    generalize (w.answer (.delete k c)).1 = reply
    match reply with
    | .ok true => exact Or.inl hdebt
    | .ok false => exact hdebt
    | .error f => exact hdebt
  | cacheDelete key =>
    rw [hc.answer_delete, World.slots, Cache.mem_delete_one, hkey] at hslot
    exact ⟨hdebt, fun hq => hslot.2 (congrArg (c.stem ++ ·) hq)⟩
  | cacheDeleteMatching pattern =>
    obtain ⟨records, hanswer⟩ := hc.answer_deleteMatching pattern
    rw [hanswer, World.slots, Cache.mem_deleteMatching, hkey] at hslot
    exact ⟨hdebt, hslot.2⟩
  | find | count | page | contains | cacheGet | cacheSet | now | log | mark => exact hdebt

/-- A slot was there before, or is what the request keeps. -/
private theorem slots_answer (h : w.Legible stem) {r : Request} (hr : r.IsLegible) {slot : Cache.Slot}
    (hslot : slot ∈ (w.answer r).2.slots) :
    slot ∈ w.slots ∨ ∃ (q : Query) (v : Json) (ttl : Int) (ends : Float), r = .cacheSet q.key v ttl ∧
      (w.answer (.cacheSet q.key v ttl)).1 = .ok () ∧
      Cache.endAfter (.whole ttl) w.monotonic = .ok ends ∧
      slot = ⟨stem ++ q.key, ends, v.printAscii⟩ := by
  obtain ⟨c, hc, rfl, -⟩ := h
  have hrow (x : Except StoreFailure (Bool × Store)) : (w.onRow x).2.slots = w.slots := by
    cases x <;> rfl
  cases r with
  | insert k e =>
    cases hinsert : w.store.insert e with
    | ok s =>
      rw [World.answer_insert_ok hinsert] at hslot
      exact Or.inl hslot
    | error f =>
      rw [World.answer_insert_error hinsert] at hslot
      exact Or.inl hslot
  | update k e => exact Or.inl (hrow (w.store.update e) ▸ hslot)
  | delete k c => exact Or.inl (hrow (w.store.delete c) ▸ hslot)
  | cacheGet key =>
    rw [hc.answer_get, World.slots] at hslot
    exact Or.inl (hc.slots ▸ Cache.getAs_subset String hslot)
  | cacheSet key v ttl =>
    obtain ⟨q, -, rfl, -⟩ := hr
    have hanswer := hc.answer_set q.key v ttl
    rw [hc.slots]
    rcases c.set_whole_cases q.key v ttl w.monotonic with
      ⟨-, -, ends, hends, hset⟩ | ⟨o, -, hset⟩ | ⟨-, -, hset⟩ <;> rw [hset] at hanswer <;>
      rw [hanswer] at hslot
    · rcases Cache.mem_put hslot with rfl | ⟨hold, -⟩
      · exact Or.inr ⟨q, v, ttl, ends, rfl, by rw [hanswer], hends, rfl⟩
      · exact Or.inl (Cache.mem_of_mem_sweep hold)
    · exact Or.inl hslot
    · exact Or.inl (Cache.mem_of_mem_sweep hslot)
  | cacheDelete key =>
    rw [hc.answer_delete, World.slots, Cache.mem_delete_one] at hslot
    exact Or.inl (hc.slots ▸ hslot.1)
  | cacheDeleteMatching pattern =>
    obtain ⟨records, hanswer⟩ := hc.answer_deleteMatching pattern
    rw [hanswer, World.slots, Cache.mem_deleteMatching] at hslot
    exact Or.inl (hc.slots ▸ hslot.1)
  | find | count | page | contains | now | log | mark => exact Or.inl hslot

/-- What was kept can be written. -/
private theorem isWritable_of_set (h : w.Legible stem) {t : Turn ι} {key : String} {v : Json}
    {ttl : Int} (hset : ((w.clocked t).answer (.cacheSet key v ttl)).1 = .ok ()) :
    ∃ depth, v.isWritable depth = true := by
  obtain ⟨c, hc, -, -⟩ := h
  have hclocked : (w.clocked t).Holds c := ⟨hc.cache, hc.up⟩
  rw [hclocked.answer_set] at hset
  rcases c.set_whole_cases key v ttl (w.clocked t).monotonic with
    ⟨hwritable, -⟩ | ⟨o, -, hrefused⟩ | ⟨-, -, hrefused⟩
  · exact ⟨c.depth, hwritable⟩
  · rw [hrefused] at hset
    cases hset
  · rw [hrefused] at hset
    cases hset

end World.Legible

/-! ## Slots that stay -/

namespace Pool

variable {ι α : Type} [DecidableEq ι] {p : Pool ι α} {phases : ι → Debt}

/-- Programs that pay their debts. -/
def Pays (stem : String) (p : Pool ι α) (phases : ι → Debt) : Prop :=
  p.Follows (debts stem) (fun _ _ debt => debt = Debt.none) phases

/-- A cache stays legible. -/
theorem run_legible (hp : p.Pays stem phases) (hlegible : p.world.Legible stem)
    (turns : List (Turn ι)) :
    ∃ phases', (p.run turns).Pays stem phases' ∧ (p.run turns).world.Legible stem := by
  have hkept : Kept (debts stem) (fun (_ : ι → Debt) w => w.Legible stem) (fun _ => True) := by
    intro phases w i r hw hmay _
    exact hw.answer hmay
  refine run_follows hkept turns ?_ hp hlegible (always_of_forall (fun _ => trivial) turns)
  intro t _ _ w hw
  exact hw.of_eq rfl rfl

/-- While a slot stays in the cache the answer to its query stays as it is, or some program has still
to drop it; so it is the same once all are done. -/
theorem record?_of_always (hp : p.Pays stem phases) (hlegible : p.world.Legible stem)
    {turns : List (Turn ι)} (hdone : (p.run turns).Finished) {slot : Cache.Slot} {q : Query}
    (hkey : slot.key = stem ++ q.key) (hstays : p.Always (slot ∈ ·.slots) turns) :
    (p.run turns).world.store.record? q = p.world.store.record? q := by
  have hkept : Kept (debts stem) (fun (phases : ι → Debt) w => w.Legible stem ∧
      (w.store.record? q = p.world.store.record? q ∨ ∃ i, phases i q)) (slot ∈ ·.slots) := by
    rintro phases w i r ⟨hw, hrecord⟩ hmay hslot
    obtain ⟨hrelies, hw'⟩ := hw.answer hmay
    refine ⟨hrelies, hw', ?_⟩
    rcases hw.record?_answer r (phases i) q with hsame | hdebt
    · rcases hrecord with hrecord | ⟨j, hdebt⟩
      · exact Or.inl (hsame.trans hrecord)
      · refine Or.inr ⟨j, ?_⟩
        by_cases hj : j = i
        · subst hj
          rw [Function.update_self]
          exact hw.after_of_slot hdebt hkey hslot
        · rw [Function.update_of_ne hj]
          exact hdebt
    · refine Or.inr ⟨i, ?_⟩
      rw [Function.update_self]
      exact hdebt
  obtain ⟨phases', hp', -, hrecord⟩ := run_follows hkept turns
    (fun t _ phases w hw => ⟨hw.1.of_eq rfl rfl, hw.2⟩) hp ⟨hlegible, Or.inl rfl⟩ hstays
  rcases hrecord with hrecord | ⟨i, hdebt⟩
  · exact hrecord
  · obtain ⟨a, ha⟩ := hdone i
    rw [hp'.ended ha] at hdebt
    exact hdebt.elim

/-! ## Fills that stay -/

/-- A turn at which a program keeps a value under the key of a query, and the slot that it
writes. -/
def Writes (stem : String) (p : Pool ι α) (t : Turn ι) (q : Query) (v : Json)
    (slot : Cache.Slot) : Prop :=
  ∃ ttl ends next, p.programs t.who = .ask (.cacheSet q.key v ttl) next ∧
    ((p.world.clocked t).answer (.cacheSet q.key v ttl)).1 = .ok () ∧
    Cache.endAfter (.whole ttl) t.monotonic = .ok ends ∧ slot = ⟨stem ++ q.key, ends, v.printAscii⟩

/-- A schedule leaves a fill in the cache: at one of its turns a value was kept under the key of a
query, the store being what it then was, and the slot stayed in the cache from then on. -/
def Leaves (stem : String) (p : Pool ι α) (turns : List (Turn ι)) (q : Query) (v : Json)
    (s : Store) : Prop :=
  ∃ before t after slot, turns = before ++ t :: after ∧ (p.run before).Writes stem t q v slot ∧
    ((p.run before).step t).Always (slot ∈ ·.slots) after ∧ s = (p.run before).world.store

theorem Always.last {good : World → Prop} {turns : List (Turn ι)} (h : p.Always good turns) :
    good (p.run turns).world := by
  induction turns generalizing p with
  | nil => exact h
  | cons t turns ih => exact ih h.2

/-- Keeping a value leaves the store alone. -/
private theorem Writes.store_step {t : Turn ι} {q : Query} {v : Json} {slot : Cache.Slot}
    (h : p.Writes stem t q v slot) (hlegible : p.world.Legible stem) :
    (p.step t).world.store = p.world.store := by
  obtain ⟨ttl, ends, next, hprogram, -⟩ := h
  obtain ⟨c, hc, -, -⟩ := hlegible
  have hclocked : (p.world.clocked t).Holds c := ⟨hc.cache, hc.up⟩
  unfold step
  rw [hprogram]
  simp only [hclocked.answer_set]
  rfl

/-- A slot after a turn was there before it, or is written at it. -/
private theorem slots_step (hp : p.Pays stem phases) (hlegible : p.world.Legible stem) {t : Turn ι}
    {slot : Cache.Slot} (hslot : slot ∈ (p.step t).world.slots) :
    slot ∈ p.world.slots ∨ ∃ q v, p.Writes stem t q v slot := by
  have hwho := hp t.who
  unfold step at hslot
  cases hprogram : p.programs t.who with
  | done a =>
    rw [hprogram] at hslot
    exact Or.inl hslot
  | ask r next =>
    rw [hprogram] at hslot hwho
    have hclocked : (p.world.clocked t).Legible stem := hlegible.of_eq rfl rfl
    rcases hclocked.slots_answer hwho.1 hslot with hold | ⟨q, v, ttl, ends, rfl, hnew⟩
    · exact Or.inl hold
    · exact Or.inr ⟨q, v, ttl, ends, next, hprogram, hnew⟩

/-- A slot in the cache at the end was there at the start and stayed, or is left by a fill. -/
private theorem slots_run (hp : p.Pays stem phases) (hlegible : p.world.Legible stem)
    {turns : List (Turn ι)} {slot : Cache.Slot} (hslot : slot ∈ (p.run turns).world.slots) :
    p.Always (slot ∈ ·.slots) turns ∨ ∃ q v s, p.Leaves stem turns q v s ∧
      slot.key = stem ++ q.key ∧ slot.payload = v.printAscii := by
  induction turns generalizing p phases with
  | nil => exact Or.inl hslot
  | cons t turns ih =>
    obtain ⟨phases', hp', hlegible'⟩ := run_legible hp hlegible [t]
    rcases ih hp' hlegible' hslot with hstays | ⟨q, v, s, hleaves, hslot'⟩
    · rcases slots_step hp hlegible hstays.first with hold | ⟨q, v, hwrites⟩
      · exact Or.inl ⟨hold, hstays⟩
      · refine Or.inr ⟨q, v, p.world.store, ⟨[], t, turns, slot, rfl, hwrites, hstays, rfl⟩, ?_⟩
        obtain ⟨ttl, ends, next, -, -, -, rfl⟩ := hwrites
        exact ⟨rfl, rfl⟩
    · obtain ⟨before, u, after, slot', rfl, hwrites, hstays, hs⟩ := hleaves
      exact Or.inr ⟨q, v, s, ⟨t :: before, u, after, slot', rfl, hwrites, hstays, hs⟩, hslot'⟩

/-- A fill that is left holds what renders an answer to its query, and the answer to the query has
not changed since. -/
theorem Leaves.record? (hp : p.Pays stem phases) (hlegible : p.world.Legible stem)
    {turns : List (Turn ι)} (hdone : (p.run turns).Finished) {q : Query} {v : Json} {s : Store}
    (h : p.Leaves stem turns q v s) :
    (p.run turns).world.store.record? q = s.record? q ∧
      (∃ q' : Query, q'.hasKey = true ∧ q.key = q'.key ∧ q'.Renders v) ∧
      (∃ depth, v.isWritable depth = true) ∧
      ∃ slot ∈ (p.run turns).world.slots, slot.key = stem ++ q.key ∧
        slot.payload = v.printAscii := by
  obtain ⟨before, t, after, slot, rfl, hwrites, hstays, rfl⟩ := h
  have hrun : p.run (before ++ t :: after) = ((p.run before).step t).run after := run_append ..
  obtain ⟨phases', hp', hlegible'⟩ := run_legible hp hlegible before
  obtain ⟨phases'', hp'', hlegible''⟩ := run_legible hp' hlegible' [t]
  have hstore := hwrites.store_step hlegible'
  rw [hrun] at hdone ⊢
  obtain ⟨ttl, ends, next, hprogram, hwritten, -, rfl⟩ := hwrites
  have hmay := hp' t.who
  rw [hprogram] at hmay
  refine ⟨?_, hmay.1, hlegible'.isWritable_of_set hwritten, _, hstays.last, rfl, rfl⟩
  have hkept := record?_of_always hp'' hlegible'' hdone rfl hstays
  exact hkept.trans (congrArg (·.record? q) hstore)

end Pool

/-! ## Reading what is left -/

/-- While no slot is over, a slot is read as the record that it holds. -/
private theorem Cache.Legible.get_of_mem {c : Cache} (h : c.Legible) {slot : Slot}
    (hslot : slot ∈ c.slots) {key : String} (hkey : slot.key = c.stem ++ key) {v : Json}
    (hv : v.WellNamed) (hwritable : v.isWritable c.depth = true)
    (hpayload : slot.payload = v.printAscii) {now : Float}
    (hover : ∀ x ∈ c.slots, ¬ x.expiresAt ≤ now) : c.get key now = (.ok (some v), c) := by
  unfold Cache.get Cache.getAs
  cases hfind : c.find? (c.stem ++ key) with
  | none =>
    exact absurd (beq_iff_eq.mpr hkey) (List.find?_eq_none.mp hfind slot hslot)
  | some found =>
    obtain ⟨hmem, hfound⟩ := find?_spec hfind
    have htext : found.payload = v.printAscii := by
      rw [h.single found hmem slot hslot (hfound.trans hkey.symm), hpayload]
    simp only [if_neg (hover found hmem), htext, Json.decode_printAscii hv v.unsplit hwritable]

/-- A query whose key is found in the cache is answered from it. -/
private theorem Query.perform_hit {q : Query} (hq : q.hasKey = true) {v : Json} {w w' : World}
    (h : (Repository.lookUp q.key).perform w = (.ok (some v), w')) (ttl : Kind → Int) :
    (q.call.on (.cached ttl)).perform w = (q.read v, w') := by
  cases q with
  | entry k c =>
    have hfind : (Repository.cachedFind (Repository.stored k) (ttl k) c).perform w =
        (Record.toEntry k v, w') := Action.perform_bind_ok h _
    exact Action.perform_map hfind (Reply.entry k)
  | list k f =>
    have hlist : (Repository.cachedList (Repository.stored k) (ttl k) f).perform w =
        (Record.toPage k v, w') := by
      rw [Repository.cachedList_of_hasListKey hq]
      exact Action.perform_bind_ok h _
    exact Action.perform_map hlist fun found => Reply.page k found.1 found.2

/-- When a query whose slot is not over is answered as by the store, the store answers with what the
slot holds. -/
theorem Query.record?_of_agrees {q : Query} (hq : q.hasKey = true) {v : Json} {w : World} {c : Cache}
    (hc : w.Holds c) (hlegible : c.Legible) (hv : q.Renders v) (hwritable : v.isWritable c.depth = true)
    {slot : Cache.Slot} (hslot : slot ∈ c.slots) (hkey : slot.key = c.stem ++ q.key)
    (hpayload : slot.payload = v.printAscii) {now : Float}
    (hover : ∀ x ∈ c.slots, ¬ x.expiresAt ≤ now) (ttl : Kind → Int)
    (hagree : Call.trace (.cached ttl) [(now, q.call)] w = Call.trace .stored [(now, q.call)] w) :
    w.store.record? q = some v := by
  obtain ⟨reply, hread, hanswer⟩ := Store.read_of_renders hv
  have hclocked : { w with monotonic := now }.Holds c := ⟨hc.cache, hc.up⟩
  have hget := hclocked.answer_get q.key
  rw [hlegible.get_of_mem hslot hkey hv.wellNamed hwritable hpayload hover] at hget
  have hlookUp : (Repository.lookUp q.key).perform { w with monotonic := now } =
      (.ok (some v), { w with monotonic := now, cache := .memory c }) := by
    rw [Repository.lookUp, Action.perform_bind_ok (Action.perform_request _ _), hget]
    rfl
  obtain ⟨records, hbare⟩ := q.call.performs_stored { w with monotonic := now }
  unfold Call.trace at hagree
  rw [Query.perform_hit hq hlookUp ttl, hbare] at hagree
  have houtcome := congrArg Prod.fst (List.cons.inj hagree).1
  exact hanswer w.store (houtcome.symm.trans hread)

/-! ## Races -/

/-- Once all calls of a schedule are done, reading through the cache is as reading from the store,
whatever the clock reads, exactly if every fill that is left in the cache held, when it was written,
what the store then answered. It is taken that what is read can be kept, and that the pages that are
asked for have keys. -/
theorem Call.reads_agree_iff {ι : Type} [DecidableEq ι] (ttl : Kind → Int) (calls : ι → Call)
    (turns : List (Turn ι)) {w : World} {stem : String} (httl : ∀ k, Cache.CanLast (ttl k))
    (hplain : ∀ c ∈ stem.toList, Glob.IsPlain c) (hserves : w.Serves stem)
    (hdone : ((Pool.ofCalls (.cached ttl) calls w).run turns).Finished) :
    (∀ reads : List (Float × Query), (∀ read ∈ reads, read.2.hasKey = true) →
      trace (.cached ttl) (reads.map fun read => (read.1, read.2.call))
          ((Pool.ofCalls (.cached ttl) calls w).run turns).world =
        trace .stored (reads.map fun read => (read.1, read.2.call))
          ((Pool.ofCalls (.cached ttl) calls w).run turns).world) ↔
      ∀ q v s, (Pool.ofCalls (.cached ttl) calls w).Leaves stem turns q v s →
        s.record? q = some v := by
  have hp : (Pool.ofCalls (.cached ttl) calls w).Pays stem fun _ => Debt.none := fun i =>
    (calls i).follows_debts ttl hplain
  have hlegible : (Pool.ofCalls (.cached ttl) calls w).world.Legible stem := hserves.legible
  obtain ⟨-, -, c, hc, hstem, hcache⟩ := Pool.run_legible hp hlegible turns
  constructor
  · intro hreads q v s hleaves
    obtain ⟨hrecord, ⟨q', hq', hkey, hrenders⟩, ⟨depth, hwritable⟩, slot, hslot, hslotkey, hpayload⟩ :=
      hleaves.record? hp hlegible hdone
    rw [hc.slots] at hslot
    have hslotkey' : slot.key = c.stem ++ q'.key := by rw [hslotkey, hstem, hkey]
    -- At a time that is no number nothing is over.
    have hagree := hreads [(0.0 / 0.0, q')] (List.forall_mem_singleton.mpr hq')
    rw [← hrecord, Store.record?_of_key_eq hkey]
    exact Query.record?_of_agrees hq' hc hcache hrenders
      ((hrenders.isWritable_congr c.depth depth).trans hwritable) hslot hslotkey' hpayload
      (fun x _ => Binary64.not_le_nan x.expiresAt) ttl hagree
  · intro hfills reads hreads
    refine trace_queries_of_serves httl hreads hplain ⟨c, hc, hstem, ?_⟩
    intro slot hslot
    have hslot' : slot ∈ ((Pool.ofCalls (.cached ttl) calls w).run turns).world.slots := by
      rw [hc.slots]
      exact hslot
    rcases Pool.slots_run hp hlegible hslot' with hstays | ⟨q, v, s, hleaves, hkey, hpayload⟩
    · obtain ⟨c₀, hc₀, hstem₀, hcoherent⟩ := hserves
      obtain ⟨q, v, hkey, hv, hwritable, hpayload, -⟩ := hcoherent slot (hc₀.slots ▸ hstays.first)
      rw [hstem₀] at hkey
      refine ⟨q, v, hstem ▸ hkey, ?_, ?_, hpayload, trivial⟩
      · exact (Pool.record?_of_always hp hlegible hdone hkey hstays).trans hv
      · exact ((Store.renders_of_record? hv).isWritable_congr c.depth c₀.depth).trans hwritable
    · obtain ⟨hrecord, ⟨q', -, -, hrenders⟩, ⟨depth, hwritable⟩, -⟩ :=
        hleaves.record? hp hlegible hdone
      refine ⟨q, v, hstem ▸ hkey, ?_, ?_, hpayload, trivial⟩
      · rw [hrecord]
        exact hfills q v s hleaves
      · exact (hrenders.isWritable_congr c.depth depth).trans hwritable

/-! ## A late fill -/

namespace Sample

/-- The callers before their first turn. -/
def racers : Pool (Fin 3) (Except Fault Reply) :=
  .ofCalls (.cached fun _ => 60) callers (world "v1:")

theorem serves_world : (world "v1:").Serves "v1:" := .of_empty {} rfl rfl

theorem lateFill_finished : (racers.run lateFill).Finished := by
  refine fun i => Program.done_of_isDone ?_
  revert i
  decide +kernel

end Sample

/-- Whether the late fill does harm is a question of what the store answered when it was written. -/
theorem Call.reads_agree_iff_late_fill :
    Cache.CanLast 60 ∧ (∀ c ∈ "v1:".toList, Glob.IsPlain c) ∧ (Sample.world "v1:").Serves "v1:" ∧
      (Sample.racers.run Sample.lateFill).Finished ∧
      ((∀ reads : List (Float × Query), (∀ read ∈ reads, read.2.hasKey = true) →
        trace (.cached fun _ => 60) (reads.map fun read => (read.1, read.2.call))
            (Sample.racers.run Sample.lateFill).world =
          trace .stored (reads.map fun read => (read.1, read.2.call))
            (Sample.racers.run Sample.lateFill).world) ↔
        ∀ q v s, Sample.racers.Leaves "v1:" Sample.lateFill q v s → s.record? q = some v) :=
  have hlast : Cache.CanLast 60 := by decide +kernel
  have hplain : ∀ c ∈ "v1:".toList, Glob.IsPlain c := Glob.isPlain_of_all rfl
  ⟨hlast, hplain, Sample.serves_world, Sample.lateFill_finished,
    reads_agree_iff _ _ _ (fun _ => hlast) hplain Sample.serves_world Sample.lateFill_finished⟩

/-- The name of the unit that a reply shows, if it shows one. -/
def Reply.unitName? : Reply → Option String
  | .entry .uom u => some (Uom.name u)
  | _ => none

/-- It does: the unit is read through the cache under the name that it no longer has. -/
theorem Call.reads_disagree_after_late_fill :
    (Sample.racers.run Sample.lateFill).Finished ∧
      trace (.cached fun _ => 60) [(1.0, .find .uom (Sample.kilogram "").code)]
          (Sample.racers.run Sample.lateFill).world ≠
        trace .stored [(1.0, .find .uom (Sample.kilogram "").code)]
          (Sample.racers.run Sample.lateFill).world := by
  refine ⟨Sample.lateFill_finished, fun hagree => ?_⟩
  have hnames := congrArg (List.map fun step => step.1.toOption.bind Reply.unitName?) hagree
  revert hnames
  decide +kernel

end CostCatalog
