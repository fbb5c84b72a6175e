import CostCatalog.Proofs.Command.Checks
import CostCatalog.Proofs.Command.Creations
import CostCatalog.Proofs.Repository.Contract

/-!
# What a command on a parameter comes to

Over any repository that meets its contract, a command that makes or changes a parameter is refused
with the fault of the first check that fails, and then nothing that is kept has changed; and if no
check fails it is carried out, and then one entry has changed, which is the one that the command
describes, `parameter_commands_come_to`. An action `ComesTo` a fault or an entry along its parts:
each part adds the check that it makes to those of the rest.
-/

namespace CostCatalog.Command

variable {k : Kind} {α : Type}

/-- An action ends with a fault and has changed nothing; or there is no fault, and it ends with an
entry as described and has stored that entry and nothing else. -/
structure ComesTo (v : Keeping k) (w : World) (a : Action (Entry k)) (fault : Option Fault)
    (described : Entry k → Prop) : Prop where
  refused : ∀ f, fault = some f → ∃ w', a.perform w = (.error f, w') ∧ v.Unchanged w w'
  carriedOut : fault = none → ∃ e w', a.perform w = (.ok e, w') ∧ described e ∧ v.Stores e w w'

namespace ComesTo

variable {v : Keeping k} {w w₁ : World} {fault : Option Fault} {described : Entry k → Prop}

theorem mono {a : Action (Entry k)} {described' : Entry k → Prop}
    (h : ComesTo v w a fault described) (himp : ∀ e, described e → described' e) :
    ComesTo v w a fault described' where
  refused := h.refused
  carriedOut hnone := by
    obtain ⟨e, w', hrun, he, hstores⟩ := h.carriedOut hnone
    exact ⟨e, w', hrun, himp e he, hstores⟩

/-- An action that changes nothing, and what comes after it. -/
theorem bind {x : α} {a : Action α} {f : α → Action (Entry k)} (ha : a.perform w = (.ok x, w₁))
    (hunchanged : v.Unchanged w w₁) (h : ComesTo v w₁ (f x) fault described) :
    ComesTo v w (a >>= f) fault described where
  refused g hg := by
    obtain ⟨w', hrun, hunchanged'⟩ := h.refused g hg
    exact ⟨w', (Action.perform_bind_ok ha f).trans hrun, hunchanged.trans hunchanged'⟩
  carriedOut hnone := by
    obtain ⟨e, w', hrun, he, hstores⟩ := h.carriedOut hnone
    exact ⟨e, w', (Action.perform_bind_ok ha f).trans hrun, he, hunchanged.stores hstores⟩

theorem fail {g : Fault} {a : Action (Entry k)} (ha : a.perform w = (.error g, w₁))
    (hunchanged : v.Unchanged w w₁) (fault : Option Fault) :
    ComesTo v w a ((some g).or fault) described where
  refused f hf := by
    cases hf
    exact ⟨w₁, ha, hunchanged⟩
  carriedOut hnone := nomatch hnone

/-- A value that is read from what was given, and what is made of it. -/
theorem ofExcept {x : Except Fault α} {f : α → Action (Entry k)} (hw : v.Works w)
    (h : ∀ a, x = .ok a → ComesTo v w (f a) fault described) :
    ComesTo v w (Action.ofExcept x >>= f) ((faultOf x).or fault) described := by
  cases x with
  | ok a => exact (h a rfl).bind rfl (.refl hw)
  | error g => exact .fail rfl (.refl hw) fault

/-- What is left to do once an entry is stored: to write to the log and to return it. -/
theorem stored {a : Action Unit} {e : Entry k} {r : LogRecord} (ha : a.perform w = (.ok (), w₁))
    (hstores : v.Stores e w w₁) (he : described e) :
    ComesTo v w (do a; Action.log r; pure e) none described where
  refused f hf := nomatch hf
  carriedOut _ := by
    refine ⟨e, _, Action.perform_bind_ok ha _, he, v.works_log _ hstores.works, ?_⟩
    exact (v.held?_log w₁ _).trans hstores.held?

end ComesTo

/-! ## Making and changing -/

section

variable {repo : Repository k} {v : Keeping k} {w : World} {c : Code k}

/-- Making an entry is refused if the code is taken, and else if the entry is. -/
private theorem comesTo_making (h : repo.Meets v) (hw : v.Works w)
    {build : Timestamp → Except Fault (Entry k)}
    (hbuild : ∀ e, build w.wall = .ok e → e.code = c ∧ v.Admits e ∧
      (Entry.audit e).updatedAt = none ∧ (Entry.audit e).updatedBy = none) :
    ComesTo v w (making repo c build)
      ((broken (.alreadyExists k) ((v.held? w c).isSome = true)).or (faultOf (build w.wall)))
      fun e => v.held? w c = none ∧ build w.wall = .ok e := by
  obtain ⟨w₁, hcontains, hunchanged⟩ := h.contains c hw
  unfold making
  cases hheld : (v.held? w c).isSome with
  | true =>
    rw [hheld] at hcontains
    rw [broken_of rfl]
    exact .fail (Action.perform_bind_ok hcontains _) hunchanged _
  | false =>
    rw [hheld] at hcontains
    rw [broken_of_not Bool.noConfusion, Option.none_or, ← Option.or_none (o := faultOf _)]
    refine .bind hcontains hunchanged ?_
    rw [if_neg Bool.noConfusion]
    refine .bind (Action.now_perform_after hcontains) (.refl hunchanged.works) ?_
    refine .ofExcept hunchanged.works fun e he => ?_
    obtain ⟨hcode, hadmits, hat, hby⟩ := hbuild e he
    have hfree : v.held? w c = none := by simpa using hheld
    have hfree₁ : v.held? w₁ e.code = none := by rw [hunchanged.held?, hcode, hfree]
    obtain ⟨w₂, hcreate, hstores⟩ := h.create hunchanged.works hadmits hfree₁ hat hby
    exact .stored hcreate hstores ⟨hfree, he⟩

/-- Changing an entry is refused if there is none with the code, and else if the change is. -/
private theorem comesTo_revising (h : repo.Meets v) (hw : v.Works w)
    {edit : Timestamp → Entry k → Except Fault (Entry k)}
    (hedit : ∀ old e, v.held? w c = some old → edit w.wall old = .ok e → e.code = old.code ∧
      v.Admits e ∧ (Entry.audit e).createdAt = (Entry.audit old).createdAt ∧
      (Entry.audit e).createdBy = (Entry.audit old).createdBy) :
    ComesTo v w (revising repo c edit)
      ((broken (.notFound k) ((v.held? w c).isSome = false)).or
        ((v.held? w c).bind fun old => faultOf (edit w.wall old)))
      fun e => ∃ old, v.held? w c = some old ∧ edit w.wall old = .ok e := by
  obtain ⟨w₁, hfind, hunchanged⟩ := h.find c hw
  unfold revising
  unfold Keeping.found at hfind
  cases hold : v.held? w c with
  | none =>
    rw [hold] at hfind
    rw [broken_of Option.isSome_none]
    exact .fail (Action.perform_bind_error hfind _) hunchanged _
  | some old =>
    rw [hold] at hfind
    rw [broken_of_not Bool.noConfusion, Option.none_or, Option.bind_some,
      ← Option.or_none (o := faultOf _)]
    refine .bind hfind hunchanged ?_
    refine .bind (Action.now_perform_after hfind) (.refl hunchanged.works) ?_
    refine .ofExcept hunchanged.works fun e he => ?_
    obtain ⟨hcode, hadmits, hat, hby⟩ := hedit old e hold he
    have hthere : v.held? w₁ e.code = some old := by
      rw [hunchanged.held?, hcode, v.code_eq hw hold, hold]
    obtain ⟨w₂, hupdate, hstores⟩ := h.update hunchanged.works hadmits hthere hat hby
    exact .stored hupdate hstores ⟨old, rfl, he⟩

end

/-! ## Commands on parameters -/

/-- The parameter that is kept under the code that a text spells. -/
def heldUnder (held : Code .parameter → Option Parameter) (s : String) : Option Parameter :=
  (Code.ofText? .parameter s).bind held

theorem heldUnder_text (held : Code .parameter → Option Parameter) (c : Code .parameter) :
    heldUnder held c.text = held c := by
  rw [heldUnder, Code.ofText?_text, Option.bind_some]

/-- The checks of a command that makes a parameter. -/
def CreateParameter.checks (cmd : CreateParameter) (held : Code .parameter → Option Parameter) :
    List (Option Fault) :=
  textChecks cmd.code cmd.category cmd.dataType ++
    broken (.alreadyExists .parameter) ((heldUnder held cmd.code).isSome = true) ::
      valueChecks cmd.name cmd.createdBy cmd.dataType none cmd.fields

/-- The checks of a command that changes a parameter. -/
def UpdateParameter.checks (cmd : UpdateParameter) (held : Code .parameter → Option Parameter)
    (now : Timestamp) : List (Option Fault) :=
  textChecks cmd.code cmd.category cmd.dataType ++
    broken (.notFound .parameter) ((heldUnder held cmd.code).isSome = false) ::
      valueChecks cmd.name cmd.updatedBy cmd.dataType
        ((heldUnder held cmd.code).bind fun old => timeFault now old.audit) cmd.fields

theorem updateParameter_eq (repo : Repository .parameter) (cmd : UpdateParameter) :
    updateParameter repo cmd = readingTexts cmd.code cmd.category cmd.dataType
      fun c category dataType => revising repo c fun now p =>
        p.editAll now (cmd.edits category dataType) := rfl

theorem ComesTo.readingTexts {v : Keeping .parameter} {w : World} (hw : v.Works w)
    {code category dataType : String}
    {f : Code .parameter → ParameterCategory → DataType → Action Parameter}
    {checks : List (Option Fault)} {described : Parameter → Prop}
    (h : ∀ (c : Code .parameter) (a : ParameterCategory) (t : DataType), c.text = code →
      a.text = category → t.name = dataType →
        ComesTo v w (f c a t) (firstFault checks) described) :
    ComesTo v w (Command.readingTexts code category dataType f)
      (firstFault (textChecks code category dataType ++ checks)) described := by
  rw [textChecks, ← faultOf_parse_code, ← faultOf_parse_category, ← faultOf_parse_dataType]
  refine .ofExcept hw fun c hc => .ofExcept hw fun a ha => .ofExcept hw fun t ht => ?_
  exact h c a t (Code.text_of_parse hc) (Category.text_of_parse ha) (DataType.name_of_parse ht)

/-- Texts that are refused are all that a command looks at. -/
theorem readingTexts_eq_fail {α : Type} {code category dataType : String} {g : Fault}
    (h : firstFault (textChecks code category dataType) = some g)
    (f : Code .parameter → ParameterCategory → DataType → Action α) :
    readingTexts code category dataType f = Action.fail g := by
  rw [textChecks, ← faultOf_parse_code, ← faultOf_parse_category, ← faultOf_parse_dataType] at h
  unfold readingTexts
  cases hc : Code.parse .parameter (.str code) with
  | error f =>
    rw [hc] at h
    cases h
    rfl
  | ok c =>
    cases ha : Category.parse .parameter (.str category) with
    | error f =>
      rw [hc, ha] at h
      cases h
      rfl
    | ok a =>
      cases ht : DataType.parse (.str dataType) with
      | error f =>
        rw [hc, ha, ht] at h
        cases h
        rfl
      | ok t =>
        rw [hc, ha, ht] at h
        cases h

/-- What the commands on parameters come to over a repository, in a world. -/
structure CarriesOut (repo : Repository .parameter) (v : Keeping .parameter) (w : World) :
    Prop where
  /-- A parameter is made where there was none: active, never changed, and with the values given. -/
  create : ∀ cmd : CreateParameter, (∀ p : Parameter, p.uom = cmd.fields.uom → v.Admits p) →
    ComesTo v w (createParameter repo cmd) (firstFault (cmd.checks (v.held? w)))
      fun p : Parameter =>
      Shows p cmd.code cmd.name cmd.category cmd.dataType cmd.fields true ∧
        v.held? w p.code = none ∧ p.audit = .start cmd.createdBy w.wall
  /-- A parameter is changed where there was one, whose making stays on record. -/
  update : ∀ cmd : UpdateParameter, (∀ p : Parameter, p.uom = cmd.fields.uom → v.Admits p) →
    ComesTo v w (updateParameter repo cmd) (firstFault (cmd.checks (v.held? w) w.wall))
      fun p : Parameter =>
      Shows p cmd.code cmd.name cmd.category cmd.dataType cmd.fields cmd.isActive ∧
        ∃ old : Parameter, v.held? w p.code = some old ∧
          ∃ t, Audit.nextTime w.wall old.audit.latest = .ok t ∧
            p.audit = { old.audit with updatedAt := some t, updatedBy := some cmd.updatedBy }
  /-- When a text is refused the repository is not asked anything. -/
  createUnread : ∀ (cmd : CreateParameter) (f : Fault),
    firstFault (textChecks cmd.code cmd.category cmd.dataType) = some f →
      createParameter repo cmd = Action.fail f
  updateUnread : ∀ (cmd : UpdateParameter) (f : Fault),
    firstFault (textChecks cmd.code cmd.category cmd.dataType) = some f →
      updateParameter repo cmd = Action.fail f
  /-- The time of a change is no reason to refuse it, unless the calendar ends. -/
  inTime : ∀ (c : Code .parameter) (old : Parameter), v.held? w c = some old →
    w.wall.isAware = true → old.audit.HasNext → timeFault w.wall old.audit = none

/-- The commands on parameters do all this over every repository that meets its contract. -/
theorem parameter_commands_come_to {repo : Repository .parameter} {v : Keeping .parameter}
    (h : repo.Meets v) {w : World} (hw : v.Works w) : CarriesOut repo v w where
  create cmd hadmits := by
    rw [createParameter_eq]
    refine .readingTexts hw fun c category dataType hcode hcategory hdataType => ?_
    rw [← hcode, ← hcategory, ← hdataType, heldUnder_text, firstFault,
      ← faultOf_make cmd.fields c cmd.name category dataType cmd.createdBy w.wall]
    refine (comesTo_making h hw fun p hp => ?_).mono fun p hp => ?_
    · obtain ⟨hshows, haudit⟩ := shows_of_make hp
      exact ⟨Code.ext_text hshows.code, hadmits p hshows.uom, congrArg Audit.updatedAt haudit,
        congrArg Audit.updatedBy haudit⟩
    · obtain ⟨hfree, hp⟩ := hp
      obtain ⟨hshows, haudit⟩ := shows_of_make hp
      exact ⟨hshows, Code.ext_text hshows.code ▸ hfree, haudit⟩
  update cmd hadmits := by
    rw [updateParameter_eq]
    refine .readingTexts hw fun c category dataType hcode hcategory hdataType => ?_
    rw [← hcode, ← hcategory, ← hdataType, heldUnder_text]
    -- What is left to check hangs on the entry that is found, if one is.
    have hfault : firstFault (broken (.notFound .parameter) ((v.held? w c).isSome = false) ::
        valueChecks cmd.name cmd.updatedBy dataType.name
          ((v.held? w c).bind fun old => timeFault w.wall (Parameter.audit old)) cmd.fields) =
        (broken (.notFound .parameter) ((v.held? w c).isSome = false)).or
          ((v.held? w c).bind fun old => faultOf (Parameter.editAll w.wall old
            (cmd.edits category dataType))) := by
      rw [firstFault]
      cases v.held? w c with
      | none => rw [broken_of Option.isSome_none, Option.some_or, Option.some_or]
      | some old => rw [Option.bind_some, Option.bind_some, cmd.faultOf_editAll]
    rw [hfault]
    refine (comesTo_revising h hw fun old p _ hp => ?_).mono fun p hp => ?_
    · obtain ⟨hshows, t, -, haudit⟩ := UpdateParameter.shows_of_editAll hp
      have hat := congrArg Audit.createdAt haudit
      have hby := congrArg Audit.createdBy haudit
      exact ⟨Code.ext_text hshows.code, hadmits p hshows.uom, hat, hby⟩
    · obtain ⟨old, hold, hp⟩ := hp
      obtain ⟨hshows, t, ht, haudit⟩ := UpdateParameter.shows_of_editAll hp
      have hcodes : Parameter.code old = c := v.code_eq hw hold
      have hthere : v.held? w (Parameter.code p) = some old := by
        rw [Code.ext_text hshows.code, hcodes, hold]
      exact ⟨hcodes ▸ hshows, old, hthere, t, ht, haudit⟩
  createUnread cmd f hf := (createParameter_eq repo cmd).trans (readingTexts_eq_fail hf _)
  updateUnread cmd f hf := (updateParameter_eq repo cmd).trans (readingTexts_eq_fail hf _)
  inTime _ _ _ hnow hnext := timeFault_eq_none hnow hnext

/-- Parameters measured in kilograms, kept in a store. -/
def keptInKilograms : Keeping .parameter :=
  .inStore (fun _ => True) (fun _ h => h) fun p : Parameter => p.uom = some "KG"

/-- They are made and changed in a store that holds the kilogram and enforces references. -/
theorem parameter_commands_come_to_guarded :
    (Repository.stored .parameter).Meets keptInKilograms ∧ keptInKilograms.Works Sample.guarded ∧
      CarriesOut (Repository.stored .parameter) keptInKilograms Sample.guarded := by
  have hmeets : (Repository.stored .parameter).Meets keptInKilograms := Repository.stored_meets _
  have hworks : keptInKilograms.Works Sample.guarded := by
    refine ⟨⟨⟨.empty, rfl⟩, fun p hp => ?_⟩, trivial⟩
    have hreference : Entry.reference? (k := .parameter) p = some "KG" := hp
    rw [Store.referenceHolds, hreference]
    rfl
  exact ⟨hmeets, hworks, parameter_commands_come_to hmeets hworks⟩

end CostCatalog.Command
