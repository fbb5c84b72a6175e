import CostCatalog.Proofs.Repository.Honest
import CostCatalog.Proofs.Rows

/-!
# What a failing cache recalls

When dropping a key may fail, a cache can hold answers that the store has since left behind, and when
texts may be spoilt it can hold what is no answer at all. What it gives is still an answer that some
store gave, `World.Recalls`: a spoilt text is not read, and nothing but answers is ever kept. So behind
such a cache a repository is as honest as without it, `Repository.IsSound.cached`, save that what it
reads need not be what the store holds now.
-/

namespace CostCatalog

variable {j k : Kind} {α : Type}

/-! ## Stores with dates -/

/-- The time at which it was made is on record for every entry of a store. -/
def Store.Dated (s : Store) : Prop :=
  ∀ (k : Kind) (c : Code k) (e : Entry k), s.row? c = some e → e.Dated

theorem Entry.Dated.inserted {e : Entry k} (h : e.Dated) : e.inserted.Dated := by
  obtain ⟨t, ht⟩ := h
  refine ⟨t.stored, ?_⟩
  rw [Entry.inserted, Entry.audit_withAudit, Audit.inserted, ht]
  rfl

theorem Entry.Dated.replaced {old : Entry k} (h : old.Dated) (e : Entry k) :
    (e.replaced old).Dated := by
  obtain ⟨t, ht⟩ := h
  refine ⟨t, ?_⟩
  rw [Entry.replaced, Entry.audit_withAudit, Audit.replaced, ht]

namespace Store.Dated

variable {s s' : Store}

theorem insert (h : s.Dated) {e : Entry j} (he : e.Dated) (hinsert : s.insert e = .ok s') :
    s'.Dated := by
  intro k c x hx
  by_cases hkey : c.key = e.code.key
  · obtain rfl : k = j := congrArg Prod.fst hkey
    rw [Code.key_injective hkey, (row?_insert hinsert).2] at hx
    exact Option.some.inj hx ▸ he.inserted
  · exact h k c x (row?_insert_of_ne hinsert hkey ▸ hx)

theorem update (h : s.Dated) {e : Entry j} (hupdate : s.update e = .ok (true, s')) : s'.Dated := by
  intro k c x hx
  by_cases hkey : c.key = e.code.key
  · obtain rfl : k = j := congrArg Prod.fst hkey
    obtain ⟨old, hold, hrow⟩ := row?_update hupdate
    rw [Code.key_injective hkey, hrow] at hx
    exact Option.some.inj hx ▸ (h _ _ _ hold).replaced e
  · exact h k c x (row?_update_of_ne hupdate hkey ▸ hx)

theorem delete (h : s.Dated) {d : Code j} (hdelete : s.delete d = .ok (true, s')) : s'.Dated := by
  intro k c x hx
  by_cases hkey : c.key = d.key
  · obtain rfl : k = j := congrArg Prod.fst hkey
    rw [Code.key_injective hkey, row?_delete hdelete] at hx
    cases hx
  · rcases row?_delete_of_ne hdelete hkey with hsame | ⟨e, he, -, -, hcleared⟩
    · exact h k c x (hsame ▸ hx)
    · obtain ⟨t, ht⟩ := h k c e he
      rw [hcleared] at hx
      exact Option.some.inj hx ▸ ⟨t, (congrArg Audit.createdAt e.audit_unreferenced).trans ht⟩

end Store.Dated

/-! ## Recollections -/

/-- Every text of a cache that can be read is the record of what some store answers to a query of the
text's key. -/
def Cache.Recalls (c : Cache) : Prop :=
  ∀ slot ∈ c.slots, ∀ v, Json.parse slot.payload c.depth = .ok v →
    ∃ (s : Store) (q : Query), s.Dated ∧ slot.key = c.stem ++ q.key ∧ s.record? q = some v

/-- The cache of a world recalls answers, if it has one. -/
def World.Recalls (w : World) : Prop := ∀ c, w.cache = .memory c → c.Recalls

/-- A request that keeps nothing but an answer. -/
def Request.KeepsAnswer : Request → Prop
  | .cacheSet key v _ => ∃ (s : Store) (q : Query), s.Dated ∧ key = q.key ∧ s.record? q = some v
  | _ => True

namespace Cache.Recalls

variable {c : Cache}

theorem subset (h : c.Recalls) {slots : List Slot} (hslots : slots ⊆ c.slots) :
    { c with slots }.Recalls := fun slot hslot => h slot (hslots hslot)

theorem put (h : c.Recalls) {s : Store} {q : Query} {v : Json} (hs : s.Dated)
    (hv : s.record? q = some v) (hwritable : v.isWritable c.depth = true) (expiresAt : Float) :
    (c.put ⟨c.stem ++ q.key, expiresAt, v.printAscii⟩).Recalls := by
  intro slot hslot
  rw [stem_put, depth_put]
  rcases mem_put hslot with rfl | ⟨hold, -⟩
  · intro u hu
    have hread : Json.parse v.printAscii c.depth = .ok v :=
      Json.decode_printAscii (Store.renders_of_record? hv).wellNamed v.unsplit hwritable
    cases hread.symm.trans hu
    exact ⟨s, q, hs, rfl, hv⟩
  · exact h slot hold

/-- A text that cannot be read says nothing. -/
theorem spoil (h : c.Recalls) {text : String}
    (htext : ∀ depth, ∃ e, Json.parse text depth = .error e) (key : String) :
    (c.spoil key text).Recalls := by
  intro slot hslot v hv
  obtain ⟨old, hold, rfl⟩ := List.mem_map.mp hslot
  split at hv
  · obtain ⟨e, he⟩ := htext c.depth
    cases he.symm.trans hv
  · next hkey =>
    rw [if_neg hkey]
    exact h old hold v hv

end Cache.Recalls

namespace World.Recalls

variable {w : World}

theorem spoil (h : w.Recalls) (m : Mishap) : (w.spoil m.spoilt).Recalls := by
  have hfold : ∀ (texts : List (String × String)) (c : Cache),
      (∀ t ∈ texts, ∀ depth, ∃ e, Json.parse t.2 depth = .error e) → c.Recalls →
        (texts.foldl (fun c t => c.spoil t.1 t.2) c).Recalls := by
    intro texts
    induction texts with
    | nil => exact fun _ _ h => h
    | cons t texts ih =>
      intro c htexts hc
      exact ih _ (fun u hu => htexts u (List.mem_cons_of_mem t hu))
        (hc.spoil (htexts t (List.mem_cons_self ..)) t.1)
  intro c hc
  unfold World.spoil at hc
  split at hc
  · exact h c hc
  · next old hold =>
    cases hc
    exact hfold m.spoilt old m.unreadable (h old hold)

theorem answer (h : w.Recalls) {r : Request} (hr : r.KeepsAnswer) : (w.answer r).2.Recalls := by
  intro c' hc'
  rcases w.cache_answer r with hsame | ⟨c, hc, hleft⟩
  · exact h c' (hsame ▸ hc')
  have hrecalls := h c hc
  rw [hleft] at hc'
  cases hc'
  cases r with
  | cacheGet key =>
    change (c.get key w.monotonic).2.Recalls
    rcases c.getAs_cases String key w.monotonic with ⟨slots, hslots, hget⟩ | ⟨slot, -, -, hget⟩
    · rw [Cache.get, hget]
      exact hrecalls.subset hslots
    · rw [Cache.get, hget]
      split <;> exact hrecalls
  | cacheSet key v ttl =>
    obtain ⟨s, q, hs, rfl, hv⟩ := hr
    have hswept : (c.sweep w.monotonic).Recalls := hrecalls.subset fun _ => Cache.mem_of_mem_sweep
    change (c.set q.key (.json v) (.whole ttl) w.monotonic).2.Recalls
    rcases c.set_whole_cases q.key v ttl w.monotonic with
      ⟨hwritable, -, ends, -, hset⟩ | ⟨o, -, hset⟩ | ⟨-, -, hset⟩ <;> rw [hset]
    · exact hswept.put hs hv hwritable ends
    · exact hrecalls
    · exact hswept
  | cacheDelete key => exact hrecalls.subset fun _ hslot => (Cache.mem_delete_one.mp hslot).1
  | cacheDeleteMatching pattern =>
    exact hrecalls.subset fun _ hslot => (Cache.mem_deleteMatching.mp hslot).1
  | _ => exact hrecalls

theorem answerAmid (h : w.Recalls) (m : Mishap) {r : Request} (hr : r.KeepsAnswer) :
    (w.answerAmid m r).2.Recalls := by
  unfold World.answerAmid
  split
  · exact h.spoil m
  · exact (h.spoil m).answer hr

end World.Recalls

namespace Prospect

variable {p : Prospect}

theorem recalls_answer (h : p.world.Recalls) {r : Request} (hr : r.KeepsAnswer) :
    (p.answer r).2.world.Recalls := by
  unfold answer
  split
  · exact h.answer hr
  · exact h.answerAmid _ hr

end Prospect

/-! ## Look-ups -/

/-- A read of a cache that recalls answers gives what some store answers. -/
theorem Cache.Recalls.get {c : Cache} (h : c.Recalls) {q : Query} {now : Float} {v : Json}
    (hv : (c.get q.key now).1 = .ok (some v)) : ∃ s : Store, s.Dated ∧ s.record? q = some v := by
  rcases c.getAs_cases String q.key now with ⟨slots, -, hget⟩ | ⟨slot, hslot, hkey, hget⟩
  · rw [Cache.get, hget] at hv
    cases hv
  · rw [Cache.get, hget] at hv
    split at hv
    · next u hread =>
      cases hv
      obtain ⟨s, q', hs, hkey', hrecord⟩ := h slot hslot v hread
      have hq : q.key = q'.key := Filter.append_left_cancel (hkey.symm.trans hkey')
      exact ⟨s, hs, (Store.record?_of_key_eq hq).trans hrecord⟩
    · cases hv

theorem World.Recalls.look {w : World} (h : w.Recalls) {q : Query} {v : Json}
    (hv : (w.answer (.cacheGet q.key)).1 = .ok (some v)) :
    ∃ s : Store, s.Dated ∧ s.record? q = some v := by
  change (w.onCache .get none fun c => c.get q.key w.monotonic).1 = .ok (some v) at hv
  unfold onCache at hv
  split at hv
  · cases hv
  split at hv
  · cases hv
  · next c hc => exact (h c hc).get hv

/-- What a look-up gives is what some store answers. -/
theorem Prospect.recalled {p : Prospect} (h : p.world.Recalls) {q : Query} {v : Json}
    (hv : (p.answer (.cacheGet q.key)).1 = .ok (some v)) :
    ∃ s : Store, s.Dated ∧ s.record? q = some v := by
  obtain ⟨w, ahead⟩ := p
  cases ahead with
  | nil => exact h.look hv
  | cons m ahead =>
    change (w.answerAmid m (.cacheGet q.key)).1 = .ok (some v) at hv
    unfold World.answerAmid at hv
    cases hfailure : m.failure with
    | none =>
      rw [hfailure] at hv
      exact (World.Recalls.spoil h m).look hv
    | some summary =>
      rw [hfailure] at hv
      cases hv

/-! ## Runs -/

/-- An action that keeps nothing but answers leaves a cache that recalls answers. -/
theorem Action.KeepsTo.recalls {d : Discipline Unit} (hmay : ∀ r, d.may () r → r.KeepsAnswer)
    (hrelies : ∀ r reply, d.relies () r reply) {a : Action α} (ha : a.KeepsTo d) {p : Prospect}
    (hp : p.world.Recalls) : (a.performAmid p).2.world.Recalls := by
  have hkept : ∀ (g : Unit) (p : Prospect) (r : Request), p.world.Recalls → d.may g r →
      d.relies g r (p.answer r).1 ∧ (p.answer r).2.world.Recalls :=
    fun _ p r hp hr => ⟨hrelies r _, p.recalls_answer hp (hmay r hr)⟩
  obtain ⟨-, -, hrecalls⟩ := Program.runAmid_follows hkept ha hp
  exact hrecalls

/-- The discipline of keeping nothing but answers. -/
def answersOnly : Discipline Unit where
  may _ r := r.KeepsAnswer
  relies _ _ _ := True
  after g _ _ := g
  may_log _ _ := trivial
  after_log _ _ := rfl

private theorem Action.KeepsTo.recalls_of_answersOnly {a : Action α} (ha : a.KeepsTo answersOnly)
    {p : Prospect} (hp : p.world.Recalls) : (a.performAmid p).2.world.Recalls :=
  ha.recalls (fun _ hr => hr) (fun _ _ => trivial) hp

theorem Action.IsBare.recalls {a : Action α} (ha : a.IsBare) {p : Prospect}
    (hp : p.world.Recalls) : (a.performAmid p).2.world.Recalls := by
  refine Action.KeepsTo.recalls (d := bare) (fun r hr => ?_) (fun _ _ => trivial) ha hp
  cases r with
  | cacheSet => exact (hr trivial).elim
  | _ => trivial

/-! ## Sound repositories -/

/-- No call of a repository is one of the cache. -/
structure Repository.IsBare (repo : Repository k) : Prop where
  create : ∀ e, (repo.create e).IsBare
  find : ∀ c, (repo.find c).IsBare
  list : ∀ f, (repo.list f).IsBare
  update : ∀ e, (repo.update e).IsBare
  delete : ∀ c, (repo.delete c).IsBare
  contains : ∀ c, (repo.contains c).IsBare

/-- What lies ahead of a store with dates and a cache that recalls answers. -/
structure Prospect.IsSound (p : Prospect) : Prop where
  dated : p.world.store.Dated
  recalls : p.world.Recalls

/-- A repository that can be put in front of a store: it is honest, and what it reads are entries that a
store can hold, the times of their making among them. -/
def Repository.IsSound (repo : Repository k) : Prop :=
  repo.Honest Prospect.IsSound fun _ s₀ => s₀.Dated

namespace Action

variable {a : Action α} {effect : α → Store → Prop} {p : Prospect} {x : Except Fault α}

/-- Whether a store has dates after an action shows in the effect. -/
theorem AllOrNothing.isSound {good : Prospect → Prop} (h : a.AllOrNothing good effect p)
    (hp : p.world.store.Dated) (heffect : ∀ x s, effect x s → s.Dated)
    (hrecalls : (a.performAmid p).2.world.Recalls) : a.AllOrNothing Prospect.IsSound effect p := by
  refine ⟨⟨?_, hrecalls⟩, h.done, h.refused, h.uncancelled⟩
  cases houtcome : (a.performAmid p).1 with
  | ok x => exact heffect x _ (h.done x houtcome)
  | error f => exact (h.refused f houtcome).symm ▸ hp

/-- What keeps nothing but answers, and leaves the store alone, leaves everything sound. -/
theorem Settles.isSound (h : a.Settles x p) (ha : a.KeepsTo answersOnly) (hp : p.IsSound) :
    (a.performAmid p).2.IsSound := by
  refine ⟨?_, ha.recalls_of_answersOnly hp.recalls⟩
  obtain ⟨p', hrun, halike⟩ := h
  rw [hrun, halike.store]
  exact hp.dated

theorem Settles.allOrNothing (h : a.Settles x p) (hx : Spares x) (ha : a.KeepsTo answersOnly)
    (hp : p.IsSound) : a.AllOrNothing Prospect.IsSound (fun y s => s = p.world.store ∧ x = .ok y) p := by
  have hsound := h.isSound ha hp
  obtain ⟨p', hrun, halike⟩ := h
  rw [hrun] at hsound
  cases x with
  | ok y => exact .of_ok hrun hsound ⟨halike.store, rfl⟩
  | error f => exact .of_error hrun (hx f rfl).isCancellation hsound halike.store

end Action

namespace Repository

variable {p : Prospect}

/-- Exact repositories are sound, if the store has dates and nothing is kept. -/
theorem Honest.isSound {repo : Repository k} (h : repo.Honest (fun _ => True) fun s s₀ => s₀ = s)
    (hbare : repo.IsBare) : repo.IsSound where
  idle {p r} hr hp := by
    refine ⟨(p.answer_idle hr).store ▸ hp.dated, p.recalls_answer hp.recalls ?_⟩
    cases r with
    | cacheSet => exact hr.elim
    | _ => trivial
  contains {p} c hp :=
    (h.contains c trivial).isSound hp.dated (fun _ _ hs => hs.1 ▸ hp.dated)
      ((hbare.contains c).recalls hp.recalls)
  find {p} c hp := by
    have hfind := (h.find c trivial).isSound hp.dated (fun _ _ hs => hs.1 ▸ hp.dated)
      ((hbare.find c).recalls hp.recalls)
    refine hfind.mono ?_
    rintro e s ⟨hs, s₀, rfl, he⟩
    exact ⟨hs, _, hp.dated, he⟩
  list {p} f hp := by
    have hlist := (h.list f trivial).isSound hp.dated (fun _ _ hs => hs.1 ▸ hp.dated)
      ((hbare.list f).recalls hp.recalls)
    refine hlist.mono ?_
    rintro found s ⟨hs, s₀, rfl, hfound⟩
    exact ⟨hs, _, hp.dated, hfound⟩
  create {p} e hp he :=
    (h.create e trivial he).isSound hp.dated (fun _ _ hs => hp.dated.insert he hs)
      ((hbare.create e).recalls hp.recalls)
  update {p} e hp :=
    (h.update e trivial).isSound hp.dated (fun _ _ hs => hp.dated.update hs)
      ((hbare.update e).recalls hp.recalls)
  delete {p} c hp :=
    (h.delete c trivial).isSound hp.dated (fun _ _ hs => hp.dated.delete hs)
      ((hbare.delete c).recalls hp.recalls)

/-! ## Behind a failing cache -/

/-- A read through the cache comes to what some store answers: the one that the cache gives, or that of
the repository behind, which may then be kept. -/
theorem readThrough_allOrNothing {q : Query} (ttl : Int) {inner : Action α} {render : α → Json}
    {read : Json → Except Fault α} {tells : Store → α → Prop} (hp : p.IsSound)
    (hinner : ∀ p' : Prospect, p'.IsSound → inner.AllOrNothing Prospect.IsSound
      (fun x s => s = p'.world.store ∧ ∃ s₀ : Store, s₀.Dated ∧ tells s₀ x) p')
    (hrender : ∀ s₀ x, tells s₀ x → s₀.record? q = some (render x))
    (hread : ∀ s₀ v, s₀.record? q = some v → ∃ x, read v = .ok x ∧ tells s₀ x) :
    (readThrough q.key inner render read ttl).AllOrNothing Prospect.IsSound
      (fun x s => s = p.world.store ∧ ∃ s₀ : Store, s₀.Dated ∧ tells s₀ x) p := by
  refine ((lookUp_settles q.key p).allOrNothing
    (spares_overlooked none fun f hf => Prospect.isCancellation_of_get hf)
    (keepsTo_lookUp trivial) hp).bind ?_
  intro found p' hp' halike htold
  cases found with
  | some record =>
    have hgiven : (p.answer (.cacheGet q.key)).1 = .ok (some record) := by
      cases hreply : (p.answer (.cacheGet q.key)).1 with
      | ok v =>
        rw [hreply] at htold
        exact htold
      | error f =>
        rw [hreply] at htold
        by_cases hf : f.isOfCache = true
        · cases (overlooked_of_isOfCache hf none).symm.trans htold
        · cases (overlooked_of_not_isOfCache hf none).symm.trans htold
    obtain ⟨s₀, hs₀, hrecord⟩ := Prospect.recalled hp.recalls hgiven
    obtain ⟨x, hx, htells⟩ := hread s₀ record hrecord
    exact .of_ok (congrArg (·, p') hx) hp' ⟨halike.store, s₀, hs₀, htells⟩
  | none =>
    refine (hinner p' hp').bind fun x p'' hp'' halike' ⟨s₀, hs₀, htells⟩ => ?_
    have hanswer : (Request.cacheSet q.key (render x) ttl).KeepsAnswer :=
      ⟨s₀, q, hs₀, rfl, hrender s₀ x htells⟩
    have hkeep := (keep_settles q.key (render x) ttl p'').allOrNothing
      (spares_overlooked () fun f hf => (Prospect.fault_of_set hf).1)
      (keepsTo_keep (d := answersOnly) hanswer) hp''
    refine hkeep.bind fun _ p₃ hp₃ halike'' _ => ?_
    exact .pure hp₃ ⟨(halike''.trans (halike'.trans halike)).store, s₀, hs₀, htells⟩

/-- What is dropped after a change makes no difference to it. -/
theorem change_allOrNothing {inner drop : Action Unit} {effect : Store → Prop}
    (h : inner.AllOrNothing Prospect.IsSound (fun _ s => effect s) p)
    (hdrop : ∀ p', drop.Settles (.ok ()) p') (hkeeps : drop.KeepsTo answersOnly) :
    Action.AllOrNothing (do inner; drop : Action Unit) Prospect.IsSound (fun _ s => effect s) p := by
  refine (h.settled (f := fun _ => drop) (g := id) ?_).mono ?_
  · exact fun _ p' hp' _ => ⟨hdrop p', (hdrop p').isSound hkeeps hp'⟩
  · exact fun _ s hs => hs.choose_spec.2

/-- A sound repository is sound behind the cache, whatever goes wrong with that. -/
theorem IsSound.cached {inner : Repository k} (h : inner.IsSound) (ttl : Int) :
    (inner.cached ttl).IsSound where
  idle := h.idle
  contains := h.contains
  find {p} c hp := by
    refine readThrough_allOrNothing (q := .entry k c) ttl hp (fun p' hp' => h.find c hp') ?_ ?_
    · intro s₀ e he
      rw [Store.record?, Store.found_eq_ok.mpr he]
      rfl
    · intro s₀ v hv
      cases hfound : s₀.found c with
      | error f => rw [Store.record?, hfound] at hv; cases hv
      | ok e =>
        rw [Store.record?, hfound] at hv
        cases hv
        exact ⟨e, Record.toEntry_ofEntry (Store.found_isStored hfound).audit.legible,
          Store.found_eq_ok.mp hfound⟩
  list {p} f hp := by
    change (cachedList inner ttl f).AllOrNothing Prospect.IsSound _ p
    by_cases hf : f.hasListKey = true
    case neg =>
      rw [cachedList_of_not_hasListKey hf]
      exact .fail rfl hp
    rw [cachedList_of_hasListKey hf]
    refine readThrough_allOrNothing (q := .list k f) ttl hp (fun p' hp' => h.list f hp') ?_ ?_
    · intro s₀ found hfound
      rw [Store.record?, hfound]
      rfl
    · intro s₀ v hv
      cases hfound : s₀.listed f with
      | error g => rw [Store.record?, hfound] at hv; cases hv
      | ok found =>
        rw [Store.record?, hfound] at hv
        cases hv
        exact ⟨found, Record.toPage_ofPage found.2 fun e he =>
          (Store.listed_isStored hfound e he).audit.legible, rfl⟩
  create {p} e hp he :=
    change_allOrNothing (h.create e hp he) (fun p' => forgetEntry_settles e.code p')
      (keepsTo_forget trivial trivial)
  update {p} e hp :=
    change_allOrNothing (h.update e hp) (fun p' => forgetEntry_settles e.code p')
      (keepsTo_forget trivial trivial)
  delete {p} c hp := by
    refine change_allOrNothing (h.delete c hp) (fun p' =>
      (forgetEntry_settles c p').bind (g := fun _ => .ok ()) fun _ p'' =>
        forgetReferences_settles k p'') ((keepsTo_forget trivial trivial).bind fun _ => ?_)
    cases k with
    | uom => exact keepsTo_forgetMatching trivial
    | parameter => exact Action.keepsTo_pure ()

end Repository

end CostCatalog
