import CostCatalog.Proofs.Cache.Races
import CostCatalog.Proofs.Program.Expiries
import CostCatalog.Proofs.Repository.Requests

/-!
# What a deadline leaves in the cache

A call that changes the store drops what it touched from the cache afterwards. A deadline that passes
in between cancels the call, and what it would have dropped stays: until its time is up it is served
though the store has moved on. It is all that can go wrong, `Call.reads_agree_after_deadline_iff`,
and it does, `Call.reads_disagree_after_deadline`.

A call that changes the store never keeps anything in the cache, so wherever it is cut the cache holds
some of what it held before; and that is what the store answered before.
-/

namespace CostCatalog

variable {stem : String}

/-! ## Calls that keep nothing -/

/-- Whether a request keeps something in the cache. -/
def Request.Fills : Request → Prop
  | .cacheSet .. => True
  | _ => False

/-- The discipline of keeping nothing in the cache. -/
def unfilling : Discipline Unit where
  may _ r := ¬ r.Fills
  relies _ _ _ := True
  after g _ _ := g
  may_log _ _ := id
  after_log _ _ := rfl

/-- The calls that change the store. -/
def Call.IsChange : Call → Prop
  | .create .. | .update .. | .delete .. => True
  | _ => False

/-- A call that changes the store keeps nothing in the cache. -/
private theorem Call.keepsTo_unfilling {call : Call} (h : call.IsChange) (ttl : Kind → Int) :
    (call.on (.cached ttl)).KeepsTo unfilling := by
  have hforget {k : Kind} (c : Code k) : (Repository.forgetEntry c).KeepsTo unfilling :=
    Repository.keepsTo_forget id id
  have hdone (a : Action Unit) (ha : a.KeepsTo unfilling) :
      (do a; pure Reply.done).KeepsTo unfilling := ha.bind fun _ => Action.keepsTo_pure _
  cases call with
  | create k e =>
    exact hdone _ ((Repository.keepsTo_storedCreate id id).bind fun _ => hforget e.code)
  | update k e => exact hdone _ ((Repository.keepsTo_storedUpdate id).bind fun _ => hforget e.code)
  | delete k c =>
    refine hdone _ ((Repository.keepsTo_storedDelete id).bind fun _ => (hforget c).bind fun _ => ?_)
    cases k with
    | uom => exact Repository.keepsTo_forgetMatching id
    | parameter => exact Action.keepsTo_pure ()
  | find k c => cases h
  | list k f => cases h
  | contains k c => cases h

/-- A request that keeps nothing leaves a part of what the cache holds. -/
theorem World.Holds.answer {w : World} {c : Cache} (h : w.Holds c) {r : Request} (hr : ¬ r.Fills) :
    ∃ slots ⊆ c.slots, (w.answer r).2.Holds { c with slots } := by
  have hsame {w' : World} (hcache : w'.cache = w.cache) (hdown : w'.down = w.down) :
      ∃ slots ⊆ c.slots, w'.Holds { c with slots } :=
    ⟨c.slots, List.Subset.refl _, hcache.trans h.cache, hdown.trans h.up⟩
  have hrow (x : Except StoreFailure (Bool × Store)) :
      ∃ slots ⊆ c.slots, (w.onRow x).2.Holds { c with slots } := by
    cases x <;> exact hsame rfl rfl
  cases r with
  | insert k e =>
    cases hinsert : w.store.insert e with
    | ok s =>
      rw [World.answer_insert_ok hinsert]
      exact hsame rfl rfl
    | error f =>
      rw [World.answer_insert_error hinsert]
      exact hsame rfl rfl
  | update k e => exact hrow _
  | delete k c => exact hrow _
  | cacheGet key =>
    rw [h.answer_get, Cache.get]
    rcases c.getAs_cases String key w.monotonic with ⟨slots, hslots, hget⟩ | ⟨slot, -, -, hget⟩
    · rw [hget]
      exact ⟨slots, hslots, rfl, h.up⟩
    · rw [hget]
      split <;> exact ⟨c.slots, List.Subset.refl _, rfl, h.up⟩
  | cacheSet key v ttl => exact absurd trivial hr
  | cacheDelete key =>
    rw [h.answer_delete]
    exact ⟨_, fun _ hslot => (Cache.mem_delete_one.mp hslot).1, rfl, h.up⟩
  | cacheDeleteMatching pattern =>
    obtain ⟨records, hanswer⟩ := h.answer_deleteMatching pattern
    rw [hanswer]
    exact ⟨_, fun _ hslot => (Cache.mem_deleteMatching.mp hslot).1, rfl, h.up⟩
  | find | count | page | contains | now | log | mark => exact hsame rfl rfl

/-- Wherever a call that changes the store is cut, it leaves a part of what the cache held. -/
private theorem Call.within_holds {call : Call} (hchange : call.IsChange) (ttl : Kind → Int)
    (operation : String) (limit : Option Duration) (cut : Cut) {w : World} {c : Cache}
    (hc : w.Holds c) :
    ∃ slots ⊆ c.slots,
      ((call.on (.cached ttl)).within operation limit cut w).2.Holds { c with slots } := by
  have hkept : ∀ (g : Unit) (w : World) (r : Request),
      (∃ slots ⊆ c.slots, w.Holds { c with slots }) → unfilling.may g r →
        unfilling.relies g r (w.answer r).1 ∧
          ∃ slots ⊆ c.slots, (w.answer r).2.Holds { c with slots } := by
    rintro g w r ⟨slots₁, hslots₁, hc₁⟩ hr
    obtain ⟨slots₂, hslots₂, hc₂⟩ := hc₁.answer hr
    exact ⟨trivial, slots₂, List.Subset.trans hslots₂ hslots₁, hc₂⟩
  have hstart : ∃ slots ⊆ c.slots, w.Holds { c with slots } := ⟨c.slots, List.Subset.refl _, hc⟩
  obtain ⟨-, hleft⟩ :=
    Action.within_follows hkept (call.keepsTo_unfilling hchange ttl) hstart operation limit cut
  exact hleft

/-! ## Reading what is left -/

/-- After a call that changes the store was made under a deadline, reading through the cache is as
reading from the store, whatever the clock reads, exactly if no slot that is left is of a query whose
answer has changed. It is taken that what is read can be kept, and that the pages that are asked for
have keys. -/
theorem Call.reads_agree_after_deadline_iff (ttl : Kind → Int) (call : Call)
    (hchange : call.IsChange) (operation : String) (limit : Option Duration) (cut : Cut) {w : World}
    (httl : ∀ k, Cache.CanLast (ttl k)) (hplain : ∀ c ∈ stem.toList, Glob.IsPlain c)
    (hserves : w.Serves stem) :
    (∀ reads : List (Float × Query), (∀ read ∈ reads, read.2.hasKey = true) →
      trace (.cached ttl) (reads.map fun read => (read.1, read.2.call))
          ((call.on (.cached ttl)).within operation limit cut w).2 =
        trace .stored (reads.map fun read => (read.1, read.2.call))
          ((call.on (.cached ttl)).within operation limit cut w).2) ↔
      ∀ slot ∈ ((call.on (.cached ttl)).within operation limit cut w).2.slots, ∀ q : Query,
        slot.key = stem ++ q.key →
          ((call.on (.cached ttl)).within operation limit cut w).2.store.record? q =
            w.store.record? q := by
  obtain ⟨c₀, hc₀, -, hlegible⟩ := hserves.legible
  obtain ⟨c, hc, rfl, hcoherent⟩ := hserves
  obtain rfl : c₀ = c := by simpa [hc₀.cache] using hc.cache
  obtain ⟨slots, hslots, hc'⟩ := call.within_holds hchange ttl operation limit cut hc
  generalize ((call.on (.cached ttl)).within operation limit cut w).2 = w' at hc' ⊢
  constructor
  · intro hreads slot hslot q hkey
    have hslot' : slot ∈ slots := by rwa [hc'.slots] at hslot
    obtain ⟨q', v, hkey', hv, hwritable, hpayload, -⟩ := hcoherent slot (hslots hslot')
    have hq : q.key = q'.key := Filter.append_left_cancel (hkey.symm.trans hkey')
    have hq' : q'.hasKey = true := Store.hasKey_of_record? hv
    -- At a time that is no number nothing is over.
    have hanswer : w'.store.record? q' = some v :=
      Query.record?_of_agrees hq' hc' (hlegible.subset hslots) (Store.renders_of_record? hv) hwritable
        hslot' hkey' hpayload (fun x _ => Binary64.not_le_nan x.expiresAt) ttl
        (hreads [(0.0 / 0.0, q')] (List.forall_mem_singleton.mpr hq'))
    rw [Store.record?_of_key_eq hq, Store.record?_of_key_eq hq, hanswer, hv]
  · intro hunchanged reads hreads
    refine trace_queries_of_serves httl hreads hplain ⟨_, hc', rfl, ?_⟩
    intro slot hslot
    obtain ⟨q, v, hkey, hv, hrest⟩ := hcoherent slot (hslots hslot)
    have hsame := hunchanged slot (hc'.slots ▸ hslot) q hkey
    exact ⟨q, v, hkey, hsame.trans hv, hrest⟩

/-! ## A deadline at the commit -/

namespace Sample

theorem serves_recalled : recalled.Serves "v1:" := by
  refine ⟨{ stem := "v1:", slots := [kept] }, ⟨rfl, rfl⟩, rfl, fun slot hslot => ?_⟩
  rw [List.mem_singleton.mp hslot]
  exact ⟨.entry .uom (kilogram "").code, _, rfl, rfl, Record.isWritable_ofEntry _ _, rfl, trivial⟩

/-- What is left when the kilogram is given another name, and the deadline passes while the commit is
waited for that the store has already applied. -/
def overdue : Except Fault Reply × World :=
  ((Call.update .uom (kilogram "Kilo")).on (.cached fun _ => 60)).within "update_uom"
    (some (.whole 30)) ⟨0, true⟩ recalled

end Sample

/-- Whether the deadline does harm is a question of what the store answers for what is left. -/
theorem Call.reads_agree_after_deadline_iff_overdue :
    (Call.update .uom (Sample.kilogram "Kilo")).IsChange ∧ Cache.CanLast 60 ∧
      (∀ c ∈ "v1:".toList, Glob.IsPlain c) ∧ Sample.recalled.Serves "v1:" ∧
      ((∀ reads : List (Float × Query), (∀ read ∈ reads, read.2.hasKey = true) →
        trace (.cached fun _ => 60) (reads.map fun read => (read.1, read.2.call)) Sample.overdue.2 =
          trace .stored (reads.map fun read => (read.1, read.2.call)) Sample.overdue.2) ↔
        ∀ slot ∈ Sample.overdue.2.slots, ∀ q : Query, slot.key = "v1:" ++ q.key →
          Sample.overdue.2.store.record? q = Sample.recalled.store.record? q) :=
  have hlast : Cache.CanLast 60 := by decide +kernel
  have hplain : ∀ c ∈ "v1:".toList, Glob.IsPlain c := Glob.isPlain_of_all rfl
  ⟨trivial, hlast, hplain, Sample.serves_recalled,
    reads_agree_after_deadline_iff _ (.update .uom _) trivial _ _ _ (fun _ => hlast) hplain
      Sample.serves_recalled⟩

/-- It does: the caller is told that time has run out, the unit has its new name in the store, and it is
read through the cache under the old one. -/
theorem Call.reads_disagree_after_deadline :
    Sample.overdue.1 = .error (.pastDeadline "update_uom" (some (.whole 30))) ∧
      trace (.cached fun _ => 60) [(1.0, .find .uom (Sample.kilogram "").code)] Sample.overdue.2 ≠
        trace .stored [(1.0, .find .uom (Sample.kilogram "").code)] Sample.overdue.2 := by
  refine ⟨rfl, fun hagree => ?_⟩
  have hnames := congrArg (List.map fun step => step.1.toOption.bind Reply.unitName?) hagree
  revert hnames
  decide +kernel

end CostCatalog
