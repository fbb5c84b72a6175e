import CostCatalog.Proofs.Cache.Recollection

/-!
# Repositories that fail

The repositories over the store do what is asked of them whatever goes wrong with the cache, which they
never call. Any operation of a repository may be made to end with a fault of any sort in place of being
done, `Repository.failing`; a sound repository stays sound, as long as the fault is no cancellation.
-/

namespace CostCatalog

variable {k : Kind}

namespace Repositories

/-- The repositories over the store never call the cache. -/
theorem stored_isBare (k : Kind) : (stored k).IsBare where
  create _ := Repository.keepsTo_storedCreate id id
  find _ := Repository.keepsTo_storedFind id
  list _ := Repository.keepsTo_storedList id id
  update _ := Repository.keepsTo_storedUpdate id
  delete _ := Repository.keepsTo_storedDelete id
  contains _ := Repository.keepsTo_storedContains id

/-- The calls of repositories that never call the cache do not either. -/
private theorem keepsTo_on {repos : Repositories} (h : ∀ k, (repos k).IsBare) (call : Call) :
    (call.on repos).KeepsTo bare := by
  cases call with
  | create k e => exact Action.KeepsTo.bind ((h k).create e) fun _ => Action.keepsTo_pure _
  | find k c => exact Action.KeepsTo.bind ((h k).find c) fun _ => Action.keepsTo_pure _
  | list k f => exact Action.KeepsTo.bind ((h k).list f) fun _ => Action.keepsTo_pure _
  | update k e => exact Action.KeepsTo.bind ((h k).update e) fun _ => Action.keepsTo_pure _
  | delete k c => exact Action.KeepsTo.bind ((h k).delete c) fun _ => Action.keepsTo_pure _
  | contains k c => exact Action.KeepsTo.bind ((h k).contains c) fun _ => Action.keepsTo_pure _

/-- Whatever goes wrong with the cache, the repositories over the store answer out of the store. -/
theorem stored_exact (lasts : Kind → Prop) : stored.Exact (fun _ => True) lasts := by
  intro call p _
  obtain ⟨p', hrun, hstore⟩ :=
    Action.ComesThrough.of_bare (keepsTo_on stored_isBare call) (call.performs_stored p.world)
  exact ⟨_, .of_run hrun hstore trivial, Or.inl rfl⟩

theorem stored_honest (k : Kind) : (stored k).Honest (fun _ => True) fun s s₀ => s₀ = s :=
  (stored_exact fun _ => True).honest (fun _ _ => trivial) k

end Repositories

/-- A fault in place of an action, if there is one. -/
def Action.unlessFault {α : Type} (fault : Option Fault) (a : Action α) : Action α :=
  match fault with
  | some f => fail f
  | none => a

/-- What ends with a fault in place of being done has no effect. -/
theorem Action.AllOrNothing.unlessFault {α : Type} {a : Action α} {good : Prospect → Prop}
    {effect : α → Store → Prop} {p : Prospect} (h : a.AllOrNothing good effect p) (hp : good p)
    {fault : Option Fault} (hfault : ∀ f ∈ fault, f.isCancellation = false) :
    (a.unlessFault fault).AllOrNothing good effect p := by
  cases fault with
  | none => exact h
  | some f => exact .fail (hfault f rfl) hp

namespace Repository

/-- A repository some of whose operations end with a fault in place of being done. -/
def failing (faults : Method → Option Fault) (inner : Repository k) : Repository k where
  create e := (inner.create e).unlessFault (faults .create)
  find c := (inner.find c).unlessFault (faults .find)
  list f := (inner.list f).unlessFault (faults .list)
  update e := (inner.update e).unlessFault (faults .update)
  delete c := (inner.delete c).unlessFault (faults .delete)
  contains c := (inner.contains c).unlessFault (faults .contains)

/-- A repository is no less honest for failing. -/
theorem Honest.failing {inner : Repository k} {good : Prospect → Prop} {shows : Store → Store → Prop}
    (h : inner.Honest good shows) {faults : Method → Option Fault}
    (hfaults : ∀ m, ∀ f ∈ faults m, f.isCancellation = false) :
    (inner.failing faults).Honest good shows where
  idle := h.idle
  contains c hp := (h.contains c hp).unlessFault hp (hfaults _)
  find c hp := (h.find c hp).unlessFault hp (hfaults _)
  list f hp := (h.list f hp).unlessFault hp (hfaults _)
  create e hp he := (h.create e hp he).unlessFault hp (hfaults _)
  update e hp := (h.update e hp).unlessFault hp (hfaults _)
  delete c hp := (h.delete c hp).unlessFault hp (hfaults _)

end Repository

end CostCatalog
