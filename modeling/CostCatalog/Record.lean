import CostCatalog.Entry
import CostCatalog.Json.Basic

/-!
# Records

An entry as a JSON object, the form in which it is cached: codes, categories and data types as
texts, timestamps in their canonical text, bounds as doubles. Writing followed by reading gives the
entry back; reading a foreign record reports the first field, in the order of writing, that is
missing or wrong. Fields beyond those are ignored.
-/

namespace CostCatalog.Record

/-! ## Fields -/

/-- A field of a record. -/
def field (r : Json) (name : String) : Except Fault Json :=
  match r with
  | .obj _ =>
    match r.get? name with
    | some v => .ok v
    | none => .error (.unexpected (.missingField name))
  | _ => .error (.unexpected .wrongShape)

/-- A text. -/
def text : Json → Except Fault String
  | .str s => .ok s
  | _ => .error (.unexpected .wrongShape)

/-- A text or nothing. -/
def text? : Json → Except Fault (Option String)
  | .null => .ok none
  | v => do .ok (some (← text v))

/-- A truth value. -/
def flag : Json → Except Fault Bool
  | .bool b => .ok b
  | _ => .error (.unexpected .wrongShape)

/-- A bound or nothing. An integer stands for the double nearest to it. -/
def bound? : Json → Except Fault (Option Float)
  | .null => .ok none
  | .int n => .ok (some (Binary64.ofInt n))
  | .float x => .ok (some x)
  | _ => .error (.unexpected .wrongShape)

/-- A timestamp or nothing. -/
def time? : Json → Except Fault (Option Timestamp)
  | .null => .ok none
  | .str s =>
    match Timestamp.ofIso s with
    | .ok t => .ok (some t)
    | .error e => .error (.unexpected (.unreadableTime e))
  | _ => .error (.unexpected .wrongShape)

/-- A member of a closed set. -/
def member {α : Type} [Enumeration α] (v : Json) : Except Fault α :=
  match Enumeration.ofJson? v with
  | some a => .ok a
  | none => .error (.unexpected (.unknownMember (Enumeration.refusal α v)))

/-- A list of texts. A text stands for its characters and an object for its names. -/
def texts : Json → Except Fault (List String)
  | .arr items => items.mapM text
  | .str s => .ok (s.toList.map String.singleton)
  | .obj members => .ok (members.map (·.1))
  | _ => .error (.unexpected .wrongShape)

/-! ## Units -/

/-- A timestamp, or nothing, as a field. -/
def ofTime? (t : Option Timestamp) : Json := Json.ofOption (fun t => .str t.toIso) t

/-- The record of a unit. -/
def ofUom (u : Uom) : Json :=
  .obj [
    ("code", .str u.code.text),
    ("name", .str u.name),
    ("category", .str u.category.text),
    ("is_base_uom", .bool u.isBase),
    ("created_at", ofTime? u.audit.createdAt),
    ("created_by", .str u.audit.createdBy),
    ("updated_at", ofTime? u.audit.updatedAt),
    ("updated_by", Json.ofOption .str u.audit.updatedBy)]

/-- The unit of a record. -/
def toUom (r : Json) : Except Fault Uom := do
  let code ← Code.parse .uom (← field r "code")
  let name ← text (← field r "name")
  let category ← member (← field r "category")
  let isBase ← flag (← field r "is_base_uom")
  let createdAt ← time? (← field r "created_at")
  let createdBy ← text (← field r "created_by")
  let updatedAt ← time? (← field r "updated_at")
  let updatedBy ← text? (← field r "updated_by")
  .ok { code, name, category, isBase, audit := { createdAt, createdBy, updatedAt, updatedBy } }

/-! ## Parameters -/

/-- The record of a parameter. -/
def ofParameter (p : Parameter) : Json :=
  .obj [
    ("code", .str p.code.text),
    ("name", .str p.name),
    ("category", .str p.category.text),
    ("data_type", .str p.dataType.name),
    ("uom", Json.ofOption .str p.uom),
    ("min_value", Json.ofOption .float p.minValue),
    ("max_value", Json.ofOption .float p.maxValue),
    ("allowed_values", .arr (p.allowedValues.map .str)),
    ("is_mandatory", .bool p.isMandatory),
    ("description", Json.ofOption .str p.description),
    ("is_active", .bool p.isActive),
    ("created_at", ofTime? p.audit.createdAt),
    ("created_by", .str p.audit.createdBy),
    ("updated_at", ofTime? p.audit.updatedAt),
    ("updated_by", Json.ofOption .str p.audit.updatedBy)]

/-- The parameter of a record. -/
def toParameter (r : Json) : Except Fault Parameter := do
  let code ← Code.parse .parameter (← field r "code")
  let name ← text (← field r "name")
  let category ← member (← field r "category")
  let dataType ← member (← field r "data_type")
  let uom ← text? (← field r "uom")
  let minValue ← bound? (← field r "min_value")
  let maxValue ← bound? (← field r "max_value")
  let allowedValues ← texts (← field r "allowed_values")
  let isMandatory ← flag (← field r "is_mandatory")
  let description ← text? (← field r "description")
  let isActive ← flag (← field r "is_active")
  let createdAt ← time? (← field r "created_at")
  let createdBy ← text (← field r "created_by")
  let updatedAt ← time? (← field r "updated_at")
  let updatedBy ← text? (← field r "updated_by")
  .ok { code, name, category, dataType, uom, minValue, maxValue, allowedValues, isMandatory,
        description, isActive, audit := { createdAt, createdBy, updatedAt, updatedBy } }

/-! ## Entries and pages -/

/-- The record of an entry. -/
def ofEntry : {k : Kind} → Entry k → Json
  | .uom, u => ofUom u
  | .parameter, p => ofParameter p

/-- The entry of a record. -/
def toEntry : (k : Kind) → Json → Except Fault (Entry k)
  | .uom, r => toUom r
  | .parameter, r => toParameter r

/-- The record of a page of entries and the total it was taken from. -/
def ofPage {k : Kind} (items : List (Entry k)) (total : Int) : Json :=
  .obj [("items", .arr (items.map ofEntry)), ("total", .int total)]

/-- The records of a page's items. A text stands for its characters and an object for its names,
none of which is a record. -/
def items : Json → Except Fault (List Json)
  | .arr vs => .ok vs
  | .str s => .ok (s.toList.map fun c => .str (String.singleton c))
  | .obj ms => .ok (ms.map fun m => .str m.1)
  | _ => .error (.unexpected .wrongShape)

/-- A total. -/
def total : Json → Except Fault Int
  | .int n => .ok n
  | _ => .error (.unexpected .wrongShape)

/-- The page of a record. -/
def toPage (k : Kind) (r : Json) : Except Fault (List (Entry k) × Int) := do
  let entries ← (← items (← field r "items")).mapM (toEntry k)
  let n ← total (← field r "total")
  .ok (entries, n)

end CostCatalog.Record
