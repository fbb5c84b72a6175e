import CostCatalog.Proofs.Program.Disciplines
import CostCatalog.Repository.Cached

/-!
# What repositories ask for

Which requests an operation of a repository makes, whatever it is told. An action keeps to a discipline
without phases if the discipline allows each of its requests; so it is enough to look at the requests of
each operation once, and every such discipline can be read off.
-/

namespace CostCatalog

variable {k : Kind} {α β : Type} {d : Discipline Unit}

/-- An action makes only requests that a discipline allows. -/
def Action.KeepsTo (d : Discipline Unit) (a : Action α) : Prop := a.Follows d (fun _ _ => True) ()

namespace Action

theorem KeepsTo.bind {a : Action α} {f : α → Action β} (ha : a.KeepsTo d)
    (hf : ∀ x, (f x).KeepsTo d) : (a >>= f).KeepsTo d :=
  follows_bind (fun _ _ => True) ha (fun x _ _ => hf x) fun _ _ _ => trivial

theorem keepsTo_request {r : Request} (h : d.may () r) : (request r).KeepsTo d :=
  ⟨h, fun _ _ => trivial⟩

theorem keepsTo_log (r : LogRecord) : (log r).KeepsTo d := keepsTo_request (d.may_log () r)

theorem keepsTo_pure (x : α) : (pure x : Action α).KeepsTo d := trivial

theorem keepsTo_fail (f : Fault) : (fail f : Action α).KeepsTo d := trivial

theorem keepsTo_ofExcept (x : Except Fault α) : (ofExcept x).KeepsTo d := trivial

theorem keepsTo_settle (operation : String) (x : Except StoreFailure α) :
    (Repository.settle operation x).KeepsTo d := follows_settle trivial

end Action

open CostCatalog.Action

namespace Repository

/-! ## Over the store -/

theorem keepsTo_storedContains {c : Code k} (h : d.may () (.contains k c)) :
    (storedContains k c).KeepsTo d :=
  (keepsTo_request h).bind fun _ => keepsTo_settle ..

theorem keepsTo_storedFind {c : Code k} (h : d.may () (.find k c)) : (storedFind k c).KeepsTo d := by
  refine (keepsTo_request h).bind fun found => (keepsTo_settle ..).bind fun found => ?_
  cases found with
  | some e => exact keepsTo_pure e
  | none => exact keepsTo_fail _

theorem keepsTo_storedList {f : Filter k} (hcount : d.may () (.count k f))
    (hpage : d.may () (.page k f)) : (storedList k f).KeepsTo d := by
  refine (keepsTo_request hcount).bind fun total => (keepsTo_settle ..).bind fun total => ?_
  exact (keepsTo_request hpage).bind fun entries => (keepsTo_settle ..).bind fun entries =>
    keepsTo_pure _

/-- An insertion that is refused is followed by a look whether the code is taken. -/
theorem keepsTo_storedCreate {e : Entry k} (hinsert : d.may () (.insert k e))
    (hcontains : d.may () (.contains k e.code)) : (storedCreate k e).KeepsTo d := by
  refine (keepsTo_request hinsert).bind fun reply => ?_
  cases reply with
  | ok _ => exact keepsTo_pure ()
  | error f =>
    refine follows_report_bind ?_
    simp only
    split
    · refine (keepsTo_storedContains hcontains).bind fun found => ?_
      split <;> exact keepsTo_fail _
    · exact keepsTo_fail _

theorem keepsTo_needRow (operation : String) (reply : Except StoreFailure Bool) :
    (do needRow k (← settle operation reply) : Action Unit).KeepsTo d := by
  refine (keepsTo_settle operation reply).bind fun found => ?_
  cases found with
  | true => exact keepsTo_pure ()
  | false => exact keepsTo_fail _

theorem keepsTo_storedUpdate {e : Entry k} (h : d.may () (.update k e)) :
    (storedUpdate k e).KeepsTo d := (keepsTo_request h).bind fun _ => keepsTo_needRow ..

theorem keepsTo_storedDelete {c : Code k} (h : d.may () (.delete k c)) :
    (storedDelete k c).KeepsTo d := (keepsTo_request h).bind fun _ => keepsTo_needRow ..

/-! ## Behind a cache -/

theorem keepsTo_overlook (what : String) (f : Fault) : (overlook what f).KeepsTo d := by
  unfold overlook
  split
  · exact keepsTo_log _
  · exact keepsTo_fail f

theorem keepsTo_lookUp {key : String} (h : d.may () (.cacheGet key)) : (lookUp key).KeepsTo d := by
  refine (keepsTo_request h).bind fun reply => ?_
  cases reply with
  | ok v => exact keepsTo_pure v
  | error f => exact (keepsTo_overlook _ f).bind fun _ => keepsTo_pure none

theorem keepsTo_keep {key : String} {v : Json} {ttl : Int} (h : d.may () (.cacheSet key v ttl)) :
    (keep key v ttl).KeepsTo d := by
  refine (keepsTo_request h).bind fun reply => ?_
  cases reply with
  | ok _ => exact keepsTo_pure ()
  | error f => exact keepsTo_overlook _ f

theorem keepsTo_forgetMatching {pattern : String} (h : d.may () (.cacheDeleteMatching pattern)) :
    (forgetMatching pattern).KeepsTo d := by
  refine (keepsTo_request h).bind fun reply => ?_
  cases reply with
  | ok _ => exact keepsTo_pure ()
  | error f => exact keepsTo_overlook _ f

theorem keepsTo_forget {key pattern : String} (hkey : d.may () (.cacheDelete key))
    (hpattern : d.may () (.cacheDeleteMatching pattern)) : (forget key pattern).KeepsTo d := by
  refine (keepsTo_request hkey).bind fun reply => ?_
  cases reply with
  | error f => exact keepsTo_overlook _ f
  | ok _ =>
    refine (keepsTo_request hpattern).bind fun reply => ?_
    cases reply with
    | ok _ => exact keepsTo_pure ()
    | error f => exact keepsTo_overlook _ f

end Repository

end CostCatalog
