import CostCatalog.Proofs.Command.Outcomes
import CostCatalog.Proofs.Repository.Requests
import CostCatalog.Proofs.Soundness

/-!
# Runs of commands

Whatever commands are given, one after the other and from empty tables, what is stored is sound,
`Occasion.run_sound`. Each command by itself is careful: it asks the store to keep an entry only
when the entry has passed the command's checks. That a command fails, or is refused after it has
half changed the entry that it found, plays no part, since nothing is asked then; nor does what the
cache holds.
-/

namespace CostCatalog

variable {k : Kind} {α β : Type}

/-! ## Careful actions -/

/-- The discipline of asking the store for nothing that is unfit. -/
def careful : Discipline Unit where
  may _ r := r.Careful
  relies _ _ _ := True
  after g _ _ := g
  may_log _ _ := trivial
  after_log _ _ := rfl

/-- An action is careful whatever it is told. -/
def Action.IsCareful (a : Action α) : Prop := a.Follows careful (fun _ _ => True) ()

namespace Action

/-- A careful action leaves a sound store sound. -/
theorem IsCareful.perform_sound {a : Action α} (h : a.IsCareful) {w : World} (hw : w.store.Sound) :
    (a.perform w).2.store.Sound := by
  have hkept : ∀ (_ : Unit) (w : World) r, w.store.Sound → r.Careful →
      True ∧ (w.answer r).2.store.Sound :=
    fun _ _ _ hw hr => ⟨trivial, World.answer_sound hw hr⟩
  obtain ⟨-, -, hsound⟩ := Program.run_follows (d := careful) hkept h hw
  exact hsound

theorem IsCareful.bind {a : Action α} {f : α → Action β} (ha : a.IsCareful)
    (hf : ∀ x, (f x).IsCareful) : (a >>= f).IsCareful := KeepsTo.bind ha hf

theorem isCareful_request {r : Request} (h : r.Careful) : (request r).IsCareful := keepsTo_request h

theorem isCareful_log (r : LogRecord) : (log r).IsCareful := keepsTo_log r

theorem isCareful_pure (x : α) : (pure x : Action α).IsCareful := keepsTo_pure x

theorem isCareful_fail (f : Fault) : (fail f : Action α).IsCareful := keepsTo_fail f

/-- A value that is read, and what is made of it. -/
theorem isCareful_ofExcept_bind {x : Except Fault α} {f : α → Action β}
    (h : ∀ a, x = .ok a → (f a).IsCareful) : (ofExcept x >>= f).IsCareful := by
  cases x with
  | ok a => exact h a rfl
  | error f => exact trivial

end Action

open CostCatalog.Action

/-! ## Repositories -/

namespace Repository

/-- A repository is careful with entries that are fit to be stored. -/
structure IsCareful (repo : Repository k) : Prop where
  contains : ∀ c, (repo.contains c).IsCareful
  find : ∀ c, (repo.find c).IsCareful
  create : ∀ e, Entry.Presentable e → (repo.create e).IsCareful
  update : ∀ e, Entry.Revised e → (repo.update e).IsCareful
  delete : ∀ c, (repo.delete c).IsCareful

/-- The repositories over a store are careful. -/
theorem stored_isCareful (k : Kind) : (stored k).IsCareful where
  contains _ := keepsTo_storedContains trivial
  find _ := keepsTo_storedFind trivial
  create _ h := keepsTo_storedCreate h trivial
  update _ h := keepsTo_storedUpdate h
  delete _ := keepsTo_storedDelete trivial

/-- A cache in front of a careful repository makes it no less so. -/
theorem IsCareful.cached {inner : Repository k} (h : inner.IsCareful) (ttl : Int) :
    (Repository.cached inner ttl).IsCareful where
  contains := h.contains
  find c := by
    refine IsCareful.bind (keepsTo_lookUp trivial) fun found => ?_
    cases found with
    | some record => exact keepsTo_ofExcept _
    | none => exact (h.find c).bind fun e => (keepsTo_keep trivial).bind fun _ => keepsTo_pure e
  create e he := (h.create e he).bind fun _ => keepsTo_forget trivial trivial
  update e he := (h.update e he).bind fun _ => keepsTo_forget trivial trivial
  delete c := by
    refine (h.delete c).bind fun _ => (keepsTo_forget trivial trivial).bind fun _ => ?_
    cases k with
    | uom => exact keepsTo_forgetMatching trivial
    | parameter => exact keepsTo_pure ()

end Repository

/-! ## Commands -/

namespace Command

variable {repo : Repository k} {c : Code k}

theorem isCareful_making (h : repo.IsCareful) {build : Timestamp → Except Fault (Entry k)}
    (hbuild : ∀ now e, build now = .ok e → Entry.Presentable e) :
    (making repo c build).IsCareful := by
  refine (h.contains c).bind fun taken => ?_
  split
  · exact isCareful_fail _
  · refine (isCareful_request (r := .now) trivial).bind fun now => ?_
    refine isCareful_ofExcept_bind fun e he => ?_
    exact (h.create e (hbuild now e he)).bind fun _ => (isCareful_log _).bind fun _ =>
      isCareful_pure e

private theorem isCareful_revising (h : repo.IsCareful)
    {edit : Timestamp → Entry k → Except Fault (Entry k)}
    (hedit : ∀ now old e, edit now old = .ok e → Entry.Revised e) :
    (revising repo c edit).IsCareful := by
  refine (h.find c).bind fun old => ?_
  refine (isCareful_request (r := .now) trivial).bind fun now => ?_
  refine isCareful_ofExcept_bind fun e he => ?_
  exact (h.update e (hedit now old e he)).bind fun _ => (isCareful_log _).bind fun _ =>
    isCareful_pure e

/-- The checks of its values leave a command with a name and an actor, and with options for a
choice. -/
theorem valueChecks_passed {name actor dataType : String} {time : Option Fault}
    {f : ParameterFields} (h : firstFault (valueChecks name actor dataType time f) = none) :
    name ≠ "" ∧ actor ≠ "" ∧ ¬ (dataType = "DROPDOWN" ∧ f.allowedValues = []) := by
  have hpassed {r : Rule} {p : Prop} [Decidable p] (hnone : broken r p = none) : ¬ p := fun hp =>
    nomatch (broken_of hp).symm.trans hnone
  simp only [valueChecks, firstFault, Option.or_eq_none_iff] at h
  obtain ⟨hname, hactor, -, -, hoptions, -⟩ := h
  exact ⟨hpassed hname, hpassed hactor, hpassed hoptions⟩

theorem hasOptions_of_shows {p : Parameter} {code name category : String} {t : DataType}
    {f : ParameterFields} {isActive : Bool} (h : Shows p code name category t.name f isActive)
    (hoptions : ¬ (t.name = "DROPDOWN" ∧ f.allowedValues = [])) :
    Entry.HasOptions (k := .parameter) p := by
  intro hdropdown hnone
  have htype : p.dataType.name = t.name := h.dataType
  rw [show p.dataType = .dropdown from hdropdown] at htype
  exact hoptions ⟨htype.symm, h.allowedValues ▸ hnone⟩

private theorem presentable_of_make {f : ParameterFields} {c : Code .parameter} {name actor : String}
    {category : ParameterCategory} {dataType : DataType} {now : Timestamp} {q : Parameter}
    (h : (Parameter.create c name category dataType actor now >>= fun p =>
      p.editAll now f.edits) = .ok q) : Entry.Presentable (k := .parameter) q := by
  obtain ⟨hshows, haudit⟩ := shows_of_make h
  have hfault := faultOf_make f c name category dataType actor now
  rw [h] at hfault
  obtain ⟨hname, hactor, hoptions⟩ := valueChecks_passed hfault.symm
  refine ⟨?_, ?_, hasOptions_of_shows hshows hoptions⟩
  · show q.name ≠ ""
    rwa [hshows.name]
  · show q.audit.createdBy ≠ ""
    rwa [haudit]

private theorem UpdateParameter.revised_of_editAll {cmd : UpdateParameter}
    {category : ParameterCategory} {dataType : DataType} {now : Timestamp} {p q : Parameter}
    (h : p.editAll now (cmd.edits category dataType) = .ok q) :
    Entry.Revised (k := .parameter) q := by
  obtain ⟨hshows, t, -, haudit⟩ := shows_of_editAll h
  have hfault := cmd.faultOf_editAll category dataType now p
  rw [h] at hfault
  obtain ⟨hname, hactor, hoptions⟩ := valueChecks_passed hfault.symm
  refine ⟨?_, ⟨t, cmd.updatedBy, ?_, ?_, hactor⟩, hasOptions_of_shows hshows hoptions⟩
  · show q.name ≠ ""
    rwa [hshows.name]
  · show q.audit.updatedAt = some t
    rw [haudit]
  · show q.audit.updatedBy = some cmd.updatedBy
    rw [haudit]

/-- A unit is made with a name and by someone, and marking it changes neither. -/
private theorem presentable_of_create {c : Code .uom} {name actor : String} {category : UomCategory}
    {now : Timestamp} {isBase : Bool} {v : Uom}
    (h : (Uom.create c name category actor now).map (fun u => if isBase then u.markBase else u) =
      .ok v) : Entry.Presentable (k := .uom) v := by
  cases hu : Uom.create c name category actor now with
  | error f => rw [hu] at h; cases h
  | ok u =>
    rw [hu] at h
    cases h
    unfold Uom.create at hu
    split at hu
    · cases hu
    next hname =>
    split at hu
    · cases hu
    next hactor =>
    cases hu
    cases isBase <;> exact ⟨hname, hactor, trivial⟩

private theorem revised_of_edit {now : Timestamp} {u v : Uom} {name actor : String}
    {category : UomCategory} {isBase : Bool}
    (h : Uom.edit now u (.update name category isBase actor) = (.ok (), v)) :
    Entry.Revised (k := .uom) v := by
  rw [Uom.edit] at h
  split at h
  · cases h
  next hname =>
  split at h
  · cases h
  next hactor =>
  dsimp only at h
  split at h
  case h_2 => cases h
  next audit hstamp =>
  cases h
  obtain ⟨t, -, haudit⟩ := bind_ok hstamp
  cases haudit
  exact ⟨hname, ⟨t, actor, rfl, rfl, hactor⟩, trivial⟩

/-- A command that makes an entry is careful, whether or not it breaks a rule. -/
private theorem isCareful_create (h : repo.IsCareful) (cmd : Creation k) :
    (create repo cmd).IsCareful := by
  cases k with
  | uom =>
    show (createUom repo cmd).IsCareful
    rw [createUom_eq]
    exact isCareful_ofExcept_bind fun c _ => isCareful_ofExcept_bind fun category _ =>
      isCareful_making h fun _ _ hbuild => presentable_of_create hbuild
  | parameter =>
    show (createParameter repo cmd).IsCareful
    rw [createParameter_eq]
    exact isCareful_ofExcept_bind fun c _ => isCareful_ofExcept_bind fun category _ =>
      isCareful_ofExcept_bind fun dataType _ =>
        isCareful_making h fun _ _ hbuild => presentable_of_make hbuild

/-- A command that changes an entry is careful, whatever the entry was before. -/
private theorem isCareful_update (h : repo.IsCareful) (cmd : Update k) :
    (update repo cmd).IsCareful := by
  cases k with
  | uom =>
    show (updateUom repo cmd).IsCareful
    refine isCareful_ofExcept_bind fun c _ => isCareful_ofExcept_bind fun category _ => ?_
    refine (h.find c).bind fun u => (isCareful_request (r := .now) trivial).bind fun now => ?_
    split
    · exact isCareful_fail _
    · next v hedit =>
      exact (h.update v (revised_of_edit hedit)).bind fun _ => (isCareful_log _).bind fun _ =>
        isCareful_pure v
  | parameter =>
    show (updateParameter repo cmd).IsCareful
    rw [updateParameter_eq]
    exact isCareful_ofExcept_bind fun c _ => isCareful_ofExcept_bind fun category _ =>
      isCareful_ofExcept_bind fun dataType _ =>
        isCareful_revising h fun _ _ _ hedit => UpdateParameter.revised_of_editAll hedit

private theorem isCareful_delete (h : repo.IsCareful) (code : String) :
    (delete repo code).IsCareful := by
  cases k with
  | uom =>
    exact isCareful_ofExcept_bind fun c _ => (h.delete c).bind fun _ => isCareful_log _
  | parameter =>
    exact isCareful_ofExcept_bind fun c _ => (h.delete c).bind fun _ => isCareful_log _

end Command

/-! ## Runs -/

/-- A command on an entry of a kind. -/
inductive Instruction where
  | create (k : Kind) (cmd : Command.Creation k)
  | update (k : Kind) (cmd : Command.Update k)
  | delete (k : Kind) (code : String)

/-- An instruction with the readings of the clocks at which it is carried out, and with the time to
live in the cache if it goes through one. -/
structure Occasion where
  instruction : Instruction
  wall : Timestamp
  monotonic : Float
  ttl : Option Int

namespace Occasion

/-- The repository over the store, behind the cache if there is a time to live. -/
def repository (o : Occasion) (k : Kind) : Repository k :=
  match o.ttl with
  | none => .stored k
  | some ttl => .cached (.stored k) ttl

/-- The world after an instruction was carried out, or refused. -/
def carryOut (o : Occasion) (w : World) : World :=
  let w := { w with wall := o.wall, monotonic := o.monotonic }
  match o.instruction with
  | .create k cmd => ((Command.create (o.repository k) cmd).perform w).2
  | .update k cmd => ((Command.update (o.repository k) cmd).perform w).2
  | .delete k code => ((Command.delete (o.repository k) code).perform w).2

private theorem repository_isCareful (o : Occasion) (k : Kind) : (o.repository k).IsCareful := by
  unfold repository
  split
  · exact Repository.stored_isCareful k
  · next ttl _ => exact (Repository.stored_isCareful k).cached ttl

/-- One instruction leaves a sound store sound. -/
theorem carryOut_sound (o : Occasion) {w : World} (h : w.store.Sound) :
    (o.carryOut w).store.Sound := by
  unfold carryOut
  have hrepository := o.repository_isCareful
  split
  · next k cmd _ => exact (Command.isCareful_create (hrepository k) cmd).perform_sound h
  · next k cmd _ => exact (Command.isCareful_update (hrepository k) cmd).perform_sound h
  · next k code _ => exact (Command.isCareful_delete (hrepository k) code).perform_sound h

/-- Instructions carried out one after the other. -/
def run (occasions : List Occasion) (w : World) : World :=
  occasions.foldl (fun w o => o.carryOut w) w

/-- So do any number of them. -/
private theorem run_sound_of (occasions : List Occasion) {w : World} (h : w.store.Sound) :
    (run occasions w).store.Sound := by
  induction occasions generalizing w with
  | nil => exact h
  | cons o occasions ih => exact ih (o.carryOut_sound h)

/-- Whatever is carried out from empty tables, the tables are there and sound: with the cache or
without it, whatever it holds and whether or not it works, and whether or not references are
enforced. -/
theorem run_sound (occasions : List Occasion) (w : World) (enforces : Bool) :
    (run occasions { w with store := { enforces } }).store.Sound := by
  have hempty : ({ enforces } : Store).Sound := fun k => by
    cases k <;> exact ⟨.empty, rfl, Table.sound_of_entries (List.forall_mem_nil _)⟩
  exact run_sound_of occasions hempty

end Occasion

end CostCatalog
