import CostCatalog.Proofs.Codes
import CostCatalog.Proofs.Command.Updates

/-!
# What a command on a parameter is checked for

The rules that the texts and the values of a command can break, in the order in which they are
looked at. A command is refused with the fault of the first one that is broken, `firstFault`. Each
group is matched with the part of the command that does the checking: reading the texts, and making
or changing the parameter.
-/

namespace CostCatalog.Command

variable {k : Kind} {α : Type}

/-! ## Checks in their order -/

/-- The fault of a rule, if it is broken. -/
def broken (r : Rule) (p : Prop) [Decidable p] : Option Fault :=
  if p then some (.ofRule r) else none

/-- The fault of the first check that fails. -/
def firstFault : List (Option Fault) → Option Fault
  | [] => none
  | check :: checks => check.or (firstFault checks)

/-- The fault that an outcome is. -/
def faultOf : Except Fault α → Option Fault
  | .ok _ => none
  | .error f => some f

theorem broken_of {r : Rule} {p : Prop} [Decidable p] (h : p) : broken r p = some (.ofRule r) :=
  if_pos h

theorem broken_of_not {r : Rule} {p : Prop} [Decidable p] (h : ¬ p) : broken r p = none := if_neg h

/-! ## Texts -/

/-- The checks of the texts that a command on a parameter gives: the pattern of codes, and the names
of the costing areas and of the data types. -/
def textChecks (code category dataType : String) : List (Option Fault) :=
  [broken (.malformedCode .parameter) (¬ Code.HasPattern .parameter code),
    broken (.unknownCategory .parameter)
      (category ∉ ["MACHINE", "MATERIAL", "QUALITY", "OUTPUT", "PROCESS"]),
    broken .unknownDataType (dataType ∉ ["NUMERIC", "TEXT", "BOOLEAN", "DROPDOWN"])]

theorem faultOf_parse_code (s : String) :
    faultOf (Code.parse k (.str s)) = broken (.malformedCode k) (¬ Code.HasPattern k s) := by
  unfold Code.parse broken
  rw [Json.str?, Option.bind_some, Code.ofText?]
  by_cases h : Code.HasPattern k s
  · rw [dif_pos (Code.isWellFormed_iff.mpr h), if_neg (not_not_intro h)]
    rfl
  · rw [dif_neg (mt Code.isWellFormed_iff.mp h), if_pos h]
    rfl

/-- A text is refused if it is none of the texts of a closed set. -/
theorem faultOf_member [Enumeration α] {s : String} {r : Rule} {texts : List String}
    (htexts : (Enumeration.members (α := α)).map Enumeration.text = texts) {x : Except Fault α}
    (hsome : ∀ a, Enumeration.ofText? s = some a → x = .ok a)
    (hnone : Enumeration.ofText? (α := α) s = none → x = .error (.ofRule r)) :
    faultOf x = broken r (s ∉ texts) := by
  unfold broken
  cases hs : Enumeration.ofText? (α := α) s with
  | some a =>
    have hmem : s ∈ texts :=
      htexts ▸ List.mem_map.mpr ⟨a, Enumeration.mem_members a, Enumeration.text_of_ofText? hs⟩
    rw [if_neg (not_not_intro hmem), hsome a hs]
    rfl
  | none =>
    have hmem : s ∉ texts := by
      rw [← htexts, List.mem_map]
      rintro ⟨a, -, rfl⟩
      rw [Enumeration.ofText?_text] at hs
      cases hs
    rw [if_pos hmem, hnone hs]
    rfl

theorem faultOf_parse_category (s : String) :
    faultOf (Category.parse .parameter (.str s)) = broken (.unknownCategory .parameter)
      (s ∉ ["MACHINE", "MATERIAL", "QUALITY", "OUTPUT", "PROCESS"]) :=
  faultOf_member (α := ParameterCategory) (by rfl)
    (fun c hc => by simp only [Category.parse, Enumeration.ofJson?]; exact hc ▸ rfl)
    (fun hs => by simp only [Category.parse, Enumeration.ofJson?]; exact hs ▸ rfl)

theorem faultOf_parse_dataType (s : String) :
    faultOf (DataType.parse (.str s)) =
      broken .unknownDataType (s ∉ ["NUMERIC", "TEXT", "BOOLEAN", "DROPDOWN"]) :=
  faultOf_member (α := DataType) (by rfl)
    (fun t ht => by simp only [DataType.parse, Enumeration.ofJson?, ht])
    (fun hs => by simp only [DataType.parse, Enumeration.ofJson?, hs])

/-! ## Values -/

/-- The fault of a change at a time, if no time can be put on record after the last one. -/
def timeFault (now : Timestamp) (a : Audit) : Option Fault := faultOf (Audit.nextTime now a.latest)

/-- There is a time to put on record unless the calendar ends. -/
theorem timeFault_eq_none {now : Timestamp} {a : Audit} (hnow : now.isAware = true)
    (ha : a.HasNext) : timeFault now a = none := by
  obtain ⟨t, ht, -⟩ := Audit.nextTime_ok ha hnow
  rw [timeFault, ht]
  rfl

/-- The checks of the values that a command on a parameter gives. The time of the change, if the
command makes one, is found before the bounds are looked at. -/
def valueChecks (name actor dataType : String) (time : Option Fault) (f : ParameterFields) :
    List (Option Fault) :=
  [broken (.emptyName .parameter) (name = ""),
    broken (.emptyActor .parameter) (actor = ""),
    time,
    broken .boundsCrossed (∃ lo ∈ f.minValue, ∃ hi ∈ f.maxValue, hi < lo),
    broken .noOptions (dataType = "DROPDOWN" ∧ f.allowedValues = [])]

theorem boundsCross_iff {lo hi : Option Float} :
    Parameter.boundsCross lo hi = true ↔ ∃ x ∈ lo, ∃ y ∈ hi, y < x := by
  cases lo with
  | none => exact iff_of_false Bool.noConfusion fun ⟨_, h, _⟩ => nomatch h
  | some x =>
    cases hi with
    | none => exact iff_of_false Bool.noConfusion fun ⟨_, _, _, h, _⟩ => nomatch h
    | some y =>
      simp only [Parameter.boundsCross, decide_eq_true_iff, Option.mem_def, Option.some.injEq,
        exists_eq_left']

/-- A change of optional fields is refused by the checks of the bounds and of the options. -/
private theorem faultOf_editAll {f : ParameterFields} {now : Timestamp} {p : Parameter}
    {rest : List Parameter.Edit} (hrest : ∀ q : Parameter, faultOf (q.editAll now rest) = none) :
    faultOf (p.editAll now (f.edits ++ rest)) = firstFault
      [broken .boundsCrossed (∃ lo ∈ f.minValue, ∃ hi ∈ f.maxValue, hi < lo),
        broken .noOptions (p.dataType.name = "DROPDOWN" ∧ f.allowedValues = [])] := by
  have hdropdown : p.dataType.name = "DROPDOWN" ↔ p.dataType = .dropdown := by
    cases p.dataType <;> decide
  rw [f.editAll_edits]
  by_cases hcross : Parameter.boundsCross f.minValue f.maxValue
  · rw [if_pos hcross, firstFault, broken_of (boundsCross_iff.mp hcross)]
    rfl
  · rw [if_neg hcross, firstFault, broken_of_not (mt boundsCross_iff.mpr hcross)]
    by_cases hoptions : p.dataType = .dropdown ∧ f.allowedValues = []
    · rw [if_pos hoptions, firstFault, broken_of ⟨hdropdown.mpr hoptions.1, hoptions.2⟩]
      rfl
    · rw [if_neg hoptions, hrest, firstFault,
        broken_of_not fun h => hoptions ⟨hdropdown.mp h.1, h.2⟩]
      rfl

/-- What a command makes of a parameter is refused by the checks of its values. -/
theorem faultOf_make (f : ParameterFields) (c : Code .parameter) (name : String)
    (category : ParameterCategory) (dataType : DataType) (actor : String) (now : Timestamp) :
    faultOf (Parameter.create c name category dataType actor now >>= fun p =>
      p.editAll now f.edits) = firstFault (valueChecks name actor dataType.name none f) := by
  unfold Parameter.create valueChecks
  by_cases hname : name = ""
  · rw [if_pos hname, firstFault, broken_of hname]
    rfl
  by_cases hactor : actor = ""
  · rw [if_neg hname, if_pos hactor, firstFault, broken_of_not hname, firstFault, broken_of hactor]
    rfl
  rw [if_neg hname, if_neg hactor, firstFault, broken_of_not hname, firstFault,
    broken_of_not hactor, ← List.append_nil f.edits]
  exact faultOf_editAll fun _ => rfl

theorem UpdateParameter.faultOf_editAll (cmd : UpdateParameter) (category : ParameterCategory)
    (dataType : DataType) (now : Timestamp) (p : Parameter) :
    faultOf (p.editAll now (cmd.edits category dataType)) = firstFault
      (valueChecks cmd.name cmd.updatedBy dataType.name (timeFault now p.audit) cmd.fields) := by
  unfold valueChecks
  rw [edits, List.cons_append, Parameter.editAll, Parameter.edit]
  by_cases hname : cmd.name = ""
  · rw [if_pos hname, firstFault, broken_of hname]
    rfl
  by_cases hactor : cmd.updatedBy = ""
  · rw [if_neg hname, if_pos hactor, firstFault, broken_of_not hname, firstFault, broken_of hactor]
    rfl
  rw [if_neg hname, if_neg hactor, firstFault, broken_of_not hname, firstFault,
    broken_of_not hactor]
  have hlast (q : Parameter) :
      faultOf (q.editAll now [if cmd.isActive then .activate else .deactivate]) = none := by
    cases cmd.isActive <;> rfl
  dsimp only [timeFault, Audit.stamp]
  cases Audit.nextTime now p.audit.latest with
  | error g => rfl
  | ok t => exact Command.faultOf_editAll hlast

/-! ## What a command describes -/

/-- A parameter shows the values that a command gives. -/
structure Shows (p : Parameter) (code name category dataType : String) (f : ParameterFields)
    (isActive : Bool) : Prop where
  code : p.code.text = code
  name : p.name = name
  category : p.category.text = category
  dataType : p.dataType.name = dataType
  uom : p.uom = f.uom
  minValue : p.minValue = f.minValue
  maxValue : p.maxValue = f.maxValue
  allowedValues : p.allowedValues = f.allowedValues
  isMandatory : p.isMandatory = f.isMandatory
  description : p.description = f.description
  isActive : p.isActive = isActive

private theorem editAll_of_ok {f : ParameterFields} {now : Timestamp} {p q : Parameter}
    {rest : List Parameter.Edit} (h : p.editAll now (f.edits ++ rest) = .ok q) :
    ({ p with
      uom := f.uom, minValue := f.minValue, maxValue := f.maxValue,
      allowedValues := f.allowedValues, isMandatory := f.isMandatory,
      description := f.description } : Parameter).editAll now rest = .ok q := by
  rw [f.editAll_edits] at h
  split at h
  · cases h
  · split at h
    · cases h
    · exact h

/-- A parameter that is made shows the values that are given, is active and was made now. -/
theorem shows_of_make {f : ParameterFields} {c : Code .parameter} {name actor : String}
    {category : ParameterCategory} {dataType : DataType} {now : Timestamp} {q : Parameter}
    (h : (Parameter.create c name category dataType actor now >>= fun p =>
      p.editAll now f.edits) = .ok q) :
    Shows q c.text name category.text dataType.name f true ∧ q.audit = .start actor now := by
  obtain ⟨p, hp, hq⟩ := bind_ok h
  rw [← List.append_nil f.edits] at hq
  cases editAll_of_ok hq
  unfold Parameter.create at hp
  split at hp
  · cases hp
  · split at hp
    · cases hp
    · cases hp
      exact ⟨⟨rfl, rfl, rfl, rfl, rfl, rfl, rfl, rfl, rfl, rfl, rfl⟩, rfl⟩

/-- A parameter that is changed shows the values that are given; its making stays on record, and the
change is the next thing on record. -/
theorem UpdateParameter.shows_of_editAll {cmd : UpdateParameter} {category : ParameterCategory}
    {dataType : DataType} {now : Timestamp} {p q : Parameter}
    (h : p.editAll now (cmd.edits category dataType) = .ok q) :
    Shows q p.code.text cmd.name category.text dataType.name cmd.fields cmd.isActive ∧
      ∃ t, Audit.nextTime now p.audit.latest = .ok t ∧
        q.audit = { p.audit with updatedAt := some t, updatedBy := some cmd.updatedBy } := by
  rw [edits, List.cons_append, Parameter.editAll, Parameter.edit] at h
  split at h
  case h_2 => cases h
  next q' hedit =>
  split at hedit
  · cases hedit
  split at hedit
  · cases hedit
  dsimp only at hedit
  split at hedit
  case h_2 => cases hedit
  next audit hstamp =>
  cases hedit
  obtain ⟨t, ht, haudit⟩ := bind_ok hstamp
  cases haudit
  have hlast := editAll_of_ok h
  -- The last change switches the parameter on or off, as the command says.
  cases hactive : cmd.isActive <;> rw [hactive] at hlast <;> cases hlast <;>
    exact ⟨⟨rfl, rfl, rfl, rfl, rfl, rfl, rfl, rfl, rfl, rfl, rfl⟩, t, ht, rfl⟩

end CostCatalog.Command
