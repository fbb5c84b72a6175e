import CostCatalog.Command.Parameter
import CostCatalog.Proofs.Edits

/-!
# Commands that change or end an entry

A command that changes an entry reads its texts, finds the entry, and stores what it makes of it,
`update_eq_revising`. What it makes is the same for every entry with its code, but for the making of
the entry: the change is forgetful, `forgetful_edit`. So an update may be made of an entry that is out
of date without anything of it being stored.
-/

namespace CostCatalog.Command

variable {k : Kind}

/-! ## Updates -/

/-- The commands that change an entry of a kind. -/
abbrev Update : Kind → Type
  | .uom => UpdateUom
  | .parameter => UpdateParameter

/-- Changes an entry. -/
def update : {k : Kind} → Repository k → Update k → Action (Entry k)
  | .uom, repo, cmd => updateUom repo cmd
  | .parameter, repo, cmd => updateParameter repo cmd

/-- Ends an entry. -/
def delete : {k : Kind} → Repository k → String → Action Unit
  | .uom, repo, code => deleteUom repo code
  | .parameter, repo, code => deleteParameter repo code

/-- What a command makes of a unit at a time, once its category is read. -/
def UpdateUom.edit (cmd : UpdateUom) : Except Fault (Timestamp → Uom → Except Fault Uom) := do
  let category ← Category.parse .uom (.str cmd.category)
  .ok fun now u =>
    match Uom.edit now u (.update cmd.name category cmd.isBase cmd.updatedBy) with
    | (.ok (), u) => .ok u
    | (.error f, _) => .error f

/-- The changes of a command, in their order. -/
def UpdateParameter.edits (cmd : UpdateParameter) (category : ParameterCategory)
    (dataType : DataType) : List Parameter.Edit :=
  .update cmd.name category dataType cmd.updatedBy :: cmd.fields.edits ++
    [if cmd.isActive then .activate else .deactivate]

/-- What a command makes of a parameter at a time, once its category and data type are read. -/
def UpdateParameter.edit (cmd : UpdateParameter) :
    Except Fault (Timestamp → Parameter → Except Fault Parameter) := do
  let category ← Category.parse .parameter (.str cmd.category)
  let dataType ← DataType.parse (.str cmd.dataType)
  .ok fun now p => p.editAll now (cmd.edits category dataType)

/-- What a command makes of an entry at a time, or the rule that one of its texts breaks. -/
def Update.edit : {k : Kind} → Update k → Except Fault (Timestamp → Entry k → Except Fault (Entry k))
  | .uom, cmd => UpdateUom.edit cmd
  | .parameter, cmd => UpdateParameter.edit cmd

/-- The code that a command names. -/
def Update.codeText : {k : Kind} → Update k → String
  | .uom, cmd => UpdateUom.code cmd
  | .parameter, cmd => UpdateParameter.code cmd

/-- Finds an entry, changes it and stores the change. -/
def revising (repo : Repository k) (c : Code k)
    (edit : Timestamp → Entry k → Except Fault (Entry k)) : Action (Entry k) := do
  let e ← repo.find c
  let now ← Action.now
  let e ← Action.ofExcept (edit now e)
  repo.update e
  Action.log (doneRecord k c "updated")
  pure e

/-- Changing a unit is reading its texts, and changing the entry. -/
theorem updateUom_eq (repo : Repository .uom) (cmd : UpdateUom) : updateUom repo cmd = (do
    let c ← Action.ofExcept (Code.parse .uom (.str cmd.code))
    let category ← Action.ofExcept (Category.parse .uom (.str cmd.category))
    revising repo c fun now u =>
      match Uom.edit now u (.update cmd.name category cmd.isBase cmd.updatedBy) with
      | (.ok (), u) => .ok u
      | (.error f, _) => .error f) := by
  unfold updateUom revising
  refine congrArg _ (funext fun c => congrArg _ (funext fun category =>
    congrArg _ (funext fun u => congrArg _ (funext ?_))))
  intro now
  dsimp only
  cases Uom.edit now u (.update cmd.name category cmd.isBase cmd.updatedBy) with
  | mk outcome u' => cases outcome <;> rfl

/-- A command reads its texts, and does nothing else before it looks for the entry. -/
theorem update_eq_revising {cmd : Update k} {c : Code k} (h : cmd.codeText = c.text)
    (repo : Repository k) :
    update repo cmd = Action.ofExcept cmd.edit >>= revising repo c := by
  cases k with
  | uom =>
    have hcode : Code.parse .uom (.str (UpdateUom.code cmd)) = .ok c := Code.parse_of_text h
    show updateUom repo cmd = Action.ofExcept (UpdateUom.edit cmd) >>= revising repo c
    rw [updateUom_eq, UpdateUom.edit, hcode]
    cases Category.parse .uom (.str (UpdateUom.category cmd)) <;> rfl
  | parameter =>
    have hcode : Code.parse .parameter (.str (UpdateParameter.code cmd)) = .ok c :=
      Code.parse_of_text h
    show updateParameter repo cmd = Action.ofExcept (UpdateParameter.edit cmd) >>= revising repo c
    unfold updateParameter UpdateParameter.edit
    rw [hcode]
    cases Category.parse .parameter (.str (UpdateParameter.category cmd)) with
    | error f => rfl
    | ok category =>
      cases DataType.parse (.str (UpdateParameter.dataType cmd)) with
      | error f => rfl
      | ok dataType => rfl

/-! ## What an update keeps -/

theorem UpdateUom.forgetful_edit {cmd : UpdateUom} {edit} (h : cmd.edit = .ok edit)
    (c : Code .uom) : ∃ draft, Forgetful (k := .uom) c edit draft := by
  unfold UpdateUom.edit at h
  obtain ⟨category, -, h⟩ := bind_ok h
  cases h
  by_cases hname : cmd.name = ""
  · refine ⟨.error (.ofRule (.emptyName .uom)), ?_⟩
    intro now u hnow hu hcode
    simp only [Uom.edit, hname, if_true]
  by_cases hactor : cmd.updatedBy = ""
  · refine ⟨.error (.ofRule (.emptyActor .uom)), ?_⟩
    intro now u hnow hu hcode
    simp only [Uom.edit, hname, hactor, if_true, if_false]
  refine ⟨.ok ⟨c, cmd.name, category, cmd.isBase, ⟨none, "", none, some cmd.updatedBy⟩⟩,
    ?_⟩
  intro now u hnow hu hcode
  obtain ⟨t, ht, hbound⟩ := Audit.stamp_ok hu hnow cmd.updatedBy
  change (Uom.audit u).stamp cmd.updatedBy now = _ at ht
  refine ⟨rfl, t, ?_, hbound⟩
  subst hcode
  simp only [Uom.edit, hname, hactor, if_false, ht]
  rfl

/-- The optional fields are set as they are given, unless two values do not go together. -/
theorem ParameterFields.editAll_edits (f : ParameterFields) (now : Timestamp) (p : Parameter)
    (rest : List Parameter.Edit) :
    p.editAll now (f.edits ++ rest) =
      if Parameter.boundsCross f.minValue f.maxValue then .error (.ofRule .boundsCrossed)
      else if p.dataType = .dropdown ∧ f.allowedValues = [] then .error (.ofRule .noOptions)
      else ({ p with
        uom := f.uom, minValue := f.minValue, maxValue := f.maxValue,
        allowedValues := f.allowedValues, isMandatory := f.isMandatory,
        description := f.description } : Parameter).editAll now rest := by
  simp only [ParameterFields.edits, List.cons_append, List.nil_append, Parameter.editAll,
    Parameter.edit]
  by_cases hcross : Parameter.boundsCross f.minValue f.maxValue
  · simp only [hcross, if_true]
  · by_cases hoptions : p.dataType = .dropdown ∧ f.allowedValues = []
    · simp only [hcross, hoptions, if_true, Bool.false_eq_true, if_false, and_self]
    · simp only [hcross, hoptions, Bool.false_eq_true, if_false]

/-- The changes behind the first replace every field that is not set yet, unless two of the new values
do not go together. -/
theorem UpdateParameter.editAll_fields (cmd : UpdateParameter) (now : Timestamp) (p : Parameter) :
    p.editAll now (cmd.fields.edits ++ [if cmd.isActive then .activate else .deactivate]) =
      if Parameter.boundsCross cmd.fields.minValue cmd.fields.maxValue then
        .error (.ofRule .boundsCrossed)
      else if p.dataType = .dropdown ∧ cmd.fields.allowedValues = [] then .error (.ofRule .noOptions)
      else .ok ⟨p.code, p.name, p.category, p.dataType, cmd.fields.uom, cmd.fields.minValue,
        cmd.fields.maxValue, cmd.fields.allowedValues, cmd.fields.isMandatory,
        cmd.fields.description, cmd.isActive, p.audit⟩ := by
  rw [ParameterFields.editAll_edits]
  cases cmd.isActive <;> rfl

theorem UpdateParameter.forgetful_edit {cmd : UpdateParameter} {edit} (h : cmd.edit = .ok edit)
    (c : Code .parameter) : ∃ draft, Forgetful (k := .parameter) c edit draft := by
  unfold UpdateParameter.edit at h
  obtain ⟨category, -, h⟩ := bind_ok h
  obtain ⟨dataType, -, h⟩ := bind_ok h
  cases h
  by_cases hname : cmd.name = ""
  · refine ⟨.error (.ofRule (.emptyName .parameter)), ?_⟩
    intro now p hnow hp hcode
    simp only [edits, List.cons_append, Parameter.editAll, Parameter.edit, hname, if_true]
  by_cases hactor : cmd.updatedBy = ""
  · refine ⟨.error (.ofRule (.emptyActor .parameter)), ?_⟩
    intro now p hnow hp hcode
    simp only [edits, List.cons_append, Parameter.editAll, Parameter.edit, hname, hactor, if_true,
      if_false]
  -- From here on the time of the change is found before anything else can be refused.
  have hfirst : ∀ now (p : Parameter) {audit}, p.audit.stamp cmd.updatedBy now = .ok audit →
      p.editAll now (cmd.edits category dataType) =
        ({ p with name := cmd.name, category, dataType, audit } : Parameter).editAll now
          (cmd.fields.edits ++ [if cmd.isActive then .activate else .deactivate]) := by
    intro now p audit hstamp
    simp only [edits, List.cons_append, Parameter.editAll, Parameter.edit, hname, hactor, if_false,
      hstamp]
  by_cases hcross : Parameter.boundsCross cmd.fields.minValue cmd.fields.maxValue
  · refine ⟨.error (.ofRule .boundsCrossed), ?_⟩
    intro now p hnow hp hcode
    obtain ⟨t, ht, -⟩ := Audit.stamp_ok hp hnow cmd.updatedBy
    exact (hfirst now p ht).trans ((editAll_fields cmd now _).trans (if_pos hcross))
  by_cases hoptions : dataType = .dropdown ∧ cmd.fields.allowedValues = []
  · refine ⟨.error (.ofRule .noOptions), ?_⟩
    intro now p hnow hp hcode
    obtain ⟨t, ht, -⟩ := Audit.stamp_ok hp hnow cmd.updatedBy
    refine (hfirst now p ht).trans ((editAll_fields cmd now _).trans ?_)
    rw [if_neg hcross, if_pos hoptions]
  refine ⟨.ok ⟨c, cmd.name, category, dataType, cmd.fields.uom, cmd.fields.minValue,
    cmd.fields.maxValue, cmd.fields.allowedValues, cmd.fields.isMandatory, cmd.fields.description,
    cmd.isActive, ⟨none, "", none, some cmd.updatedBy⟩⟩, ?_⟩
  intro now p hnow hp hcode
  obtain ⟨t, ht, hbound⟩ := Audit.stamp_ok hp hnow cmd.updatedBy
  refine ⟨rfl, t, ?_, hbound⟩
  refine (hfirst now p ht).trans ((editAll_fields cmd now _).trans ?_)
  rw [if_neg hcross, if_neg hoptions]
  subst hcode
  rfl

/-- What a command makes of an entry shows nothing of it but its code and its making. -/
theorem Update.forgetful_edit {cmd : Update k} {edit} (h : cmd.edit = .ok edit) (c : Code k) :
    ∃ draft, Forgetful c edit draft := by
  cases k with
  | uom => exact UpdateUom.forgetful_edit h c
  | parameter => exact UpdateParameter.forgetful_edit h c

end CostCatalog.Command
