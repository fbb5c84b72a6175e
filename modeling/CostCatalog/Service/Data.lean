import CostCatalog.Entry
import CostCatalog.Timestamp.Rfc3339
import CostCatalog.Wire.ParameterMessages
import CostCatalog.Wire.UomMessages

/-!
# Entries as responses show them

Categories and data types by their wire names, timestamps in their wire text. An entry whose time of
creation is not known cannot be shown.
-/

namespace CostCatalog.Service

open Wire (AuditInfo ParameterData UomData)

/-- The wire text of a timestamp, if there is one; a fault if UTC puts it outside the calendar. -/
def timeText : Option Timestamp → Except Fault (Option String)
  | none => .ok none
  | some t =>
    match t.toRfc3339? with
    | some s => .ok (some s)
    | none => .error (.unexpected .beyondCalendar)

/-- The audit fields of an entry. -/
def auditInfo (a : Audit) : Except Fault AuditInfo := do
  let createdAt ← timeText a.createdAt
  let updatedAt ← timeText a.updatedAt
  match createdAt with
  | some createdAt => .ok ⟨createdAt, a.createdBy, updatedAt, a.updatedBy⟩
  | none => .error (.unexpected (.illFormed [⟨[.field "created_at"], .notText⟩]))

/-- A unit as responses show it. -/
def uomData (u : Uom) : Except Fault UomData := do
  let audit ← auditInfo u.audit
  .ok
    { code := u.code.text, name := u.name
      category := Wire.uomCategories.toWire u.category.text
      isBase := u.isBase, audit }

/-- A parameter as responses show it. -/
def parameterData (p : Parameter) : Except Fault ParameterData := do
  let audit ← auditInfo p.audit
  .ok
    { code := p.code.text, name := p.name
      category := Wire.parameterCategories.toWire p.category.text
      dataType := Wire.dataTypes.toWire p.dataType.name
      uom := p.uom, minValue := p.minValue, maxValue := p.maxValue
      allowedValues := p.allowedValues, isMandatory := p.isMandatory
      description := p.description, isActive := p.isActive, audit }

end CostCatalog.Service
