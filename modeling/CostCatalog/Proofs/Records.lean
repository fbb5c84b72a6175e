import CostCatalog.Proofs.Json.Values
import CostCatalog.Proofs.Timestamp
import CostCatalog.Record
import CostCatalog.Store.Row

/-!
# Records read back

An entry is read back from its record but for its times, which are read back as their texts are,
`toEntry_ofEntry_eq`. So an entry is read back, `toEntry_ofEntry`, and a page from its record,
`toPage_ofPage`, as long as the times in them have texts that are read back. Those of stored entries
do, being times of UTC. A record names each of its fields once and goes four levels deep at the most, so
it survives being written as text and read again, unless the total of a page has too many digits to be
written at all.
-/

namespace CostCatalog

/-! ## Legible entries -/

/-- The times of an audit trail are read back from their texts. -/
structure Audit.Legible (a : Audit) : Prop where
  created : ∀ t ∈ a.createdAt, t.ReadableOffset
  updated : ∀ t ∈ a.updatedAt, t.ReadableOffset

/-- An audit trail as it is read back from its texts. -/
def Audit.reread (a : Audit) : Audit :=
  { a with
    createdAt := a.createdAt.map Timestamp.reread
    updatedAt := a.updatedAt.map Timestamp.reread }

theorem Timestamp.map_reread_eq_self_iff (o : Option Timestamp) :
    o.map reread = o ↔ ∀ t ∈ o, t.ReadableOffset := by
  cases o with
  | none => exact iff_of_true rfl fun t ht => by cases ht
  | some t =>
    simp only [Option.map_some, Option.some.injEq, reread_eq_self_iff, Option.mem_some_iff,
      forall_eq']

/-- Exactly the legible audit trails are read back. -/
theorem Audit.reread_eq_self_iff (a : Audit) : a.reread = a ↔ a.Legible := by
  have hfields : a.reread = a ↔
      a.createdAt.map Timestamp.reread = a.createdAt ∧
        a.updatedAt.map Timestamp.reread = a.updatedAt := by
    cases a
    simp only [reread, mk.injEq, true_and, and_true]
  rw [hfields, Timestamp.map_reread_eq_self_iff, Timestamp.map_reread_eq_self_iff]
  exact ⟨fun h => ⟨h.1, h.2⟩, fun h => ⟨h.created, h.updated⟩⟩

theorem Timestamp.readableOffset_of_stored {o : Option Timestamp} (h : o.map stored = o) :
    ∀ t ∈ o, t.ReadableOffset := by
  intro t ht
  rw [ht] at h
  intro offset hoffset
  rw [← Option.some.inj h] at hoffset
  exact Or.inl (Option.some.inj hoffset).symm

/-- What the store holds is legible. -/
theorem Audit.IsStored.legible {a : Audit} (h : a.IsStored) : a.Legible :=
  ⟨Timestamp.readableOffset_of_stored h.created, Timestamp.readableOffset_of_stored h.updated⟩

namespace Record

/-! ## Fields -/

theorem parse_code {k : Kind} (c : Code k) : Code.parse k (.str c.text) = .ok c := by
  simp only [Code.parse, Json.str?, Option.bind_some, Code.ofText?_text]

theorem member_text {α : Type} [Enumeration α] (a : α) :
    member (.str (Enumeration.text a)) = .ok a := by
  simp only [member, Enumeration.ofJson?, Enumeration.ofText?_text]

theorem time?_ofTime? (t : Option Timestamp) :
    time? (ofTime? t) = .ok (t.map Timestamp.reread) := by
  cases t with
  | none => rfl
  | some t => simp only [ofTime?, Json.ofOption, time?, Timestamp.ofIso_toIso_eq, Option.map_some]

theorem text?_ofOption (s : Option String) : text? (Json.ofOption .str s) = .ok s := by
  cases s <;> rfl

private theorem bound?_ofOption (b : Option Float) : bound? (Json.ofOption .float b) = .ok b := by
  cases b <;> rfl

private theorem texts_map (options : List String) :
    texts (.arr (options.map .str)) = .ok options := by
  have hitems : (options.map Json.str).mapM text = .ok options := by
    induction options with
    | nil => rfl
    | cons s options ih =>
      rw [List.map_cons, List.mapM_cons, ih]
      rfl
  exact hitems

/-! ## Entries -/

private theorem toUom_ofUom (u : Uom) : toUom (ofUom u) = .ok { u with audit := u.audit.reread } := by
  have hcategory : member (.str u.category.text) = .ok u.category := member_text u.category
  have hfields :
      field (ofUom u) "code" = .ok (.str u.code.text) ∧
      field (ofUom u) "name" = .ok (.str u.name) ∧
      field (ofUom u) "category" = .ok (.str u.category.text) ∧
      field (ofUom u) "is_base_uom" = .ok (.bool u.isBase) ∧
      field (ofUom u) "created_at" = .ok (ofTime? u.audit.createdAt) ∧
      field (ofUom u) "created_by" = .ok (.str u.audit.createdBy) ∧
      field (ofUom u) "updated_at" = .ok (ofTime? u.audit.updatedAt) ∧
      field (ofUom u) "updated_by" = .ok (Json.ofOption .str u.audit.updatedBy) :=
    ⟨rfl, rfl, rfl, rfl, rfl, rfl, rfl, rfl⟩
  simp only [toUom, hfields, bind, Except.bind, parse_code, text, hcategory, flag, time?_ofTime?,
    text?_ofOption, Audit.reread]

private theorem toParameter_ofParameter (p : Parameter) :
    toParameter (ofParameter p) = .ok { p with audit := p.audit.reread } := by
  have hcategory : member (.str p.category.text) = .ok p.category := member_text p.category
  have htype : member (.str p.dataType.name) = .ok p.dataType := member_text p.dataType
  have hfields :
      field (ofParameter p) "code" = .ok (.str p.code.text) ∧
      field (ofParameter p) "name" = .ok (.str p.name) ∧
      field (ofParameter p) "category" = .ok (.str p.category.text) ∧
      field (ofParameter p) "data_type" = .ok (.str p.dataType.name) ∧
      field (ofParameter p) "uom" = .ok (Json.ofOption .str p.uom) ∧
      field (ofParameter p) "min_value" = .ok (Json.ofOption .float p.minValue) ∧
      field (ofParameter p) "max_value" = .ok (Json.ofOption .float p.maxValue) ∧
      field (ofParameter p) "allowed_values" = .ok (.arr (p.allowedValues.map .str)) ∧
      field (ofParameter p) "is_mandatory" = .ok (.bool p.isMandatory) ∧
      field (ofParameter p) "description" = .ok (Json.ofOption .str p.description) ∧
      field (ofParameter p) "is_active" = .ok (.bool p.isActive) ∧
      field (ofParameter p) "created_at" = .ok (ofTime? p.audit.createdAt) ∧
      field (ofParameter p) "created_by" = .ok (.str p.audit.createdBy) ∧
      field (ofParameter p) "updated_at" = .ok (ofTime? p.audit.updatedAt) ∧
      field (ofParameter p) "updated_by" = .ok (Json.ofOption .str p.audit.updatedBy) :=
    ⟨rfl, rfl, rfl, rfl, rfl, rfl, rfl, rfl, rfl, rfl, rfl, rfl, rfl, rfl, rfl⟩
  simp only [toParameter, hfields, bind, Except.bind, parse_code, text, hcategory, htype,
    text?_ofOption, bound?_ofOption, texts_map, flag, time?_ofTime?, Audit.reread]

/-- All of an entry is read back from its record, its times as their texts are. -/
theorem toEntry_ofEntry_eq {k : Kind} (e : Entry k) :
    toEntry k (ofEntry e) = .ok (e.withAudit e.audit.reread) := by
  cases k with
  | uom => exact toUom_ofUom e
  | parameter => exact toParameter_ofParameter e

/-- An entry is read back from its record. -/
theorem toEntry_ofEntry {k : Kind} {e : Entry k} (h : e.audit.Legible) :
    toEntry k (ofEntry e) = .ok e := by
  rw [toEntry_ofEntry_eq, (Audit.reread_eq_self_iff e.audit).mpr h]
  cases k <;> rfl

/-! ## Pages -/

/-- A page is read back from its record. -/
theorem toPage_ofPage {k : Kind} {entries : List (Entry k)} (total : Int)
    (h : ∀ e ∈ entries, e.audit.Legible) :
    toPage k (ofPage entries total) = .ok (entries, total) := by
  have hentries : (entries.map ofEntry).mapM (toEntry k) = .ok entries := by
    induction entries with
    | nil => rfl
    | cons e entries ih =>
      rw [List.map_cons, List.mapM_cons, toEntry_ofEntry (h e (List.mem_cons_self ..)),
        ih fun x hx => h x (List.mem_cons_of_mem _ hx)]
      rfl
  have hitems : field (ofPage entries total) "items" = .ok (.arr (entries.map ofEntry)) := rfl
  have htotal : field (ofPage entries total) "total" = .ok (.int total) := rfl
  simp only [toPage, hitems, htotal, bind, Except.bind, items, hentries, Record.total]

/-! ## Records as texts -/

theorem wellNamed_ofOption {α : Type} {f : α → Json} (h : ∀ a, (f a).WellNamed) (o : Option α) :
    (Json.ofOption f o).WellNamed := by
  cases o with
  | none => trivial
  | some a => exact h a

theorem wellNamed_map {α : Type} {f : α → Json} (h : ∀ a, (f a).WellNamed) (xs : List α) :
    Json.ItemsWellNamed (xs.map f) := by
  induction xs with
  | nil => trivial
  | cons x xs ih => exact ⟨h x, ih⟩

/-- A record names each of its fields once. -/
theorem wellNamed_ofEntry {k : Kind} (e : Entry k) : (ofEntry e).WellNamed := by
  have htext (s : Option String) : (Json.ofOption .str s).WellNamed :=
    wellNamed_ofOption (f := .str) (fun _ => trivial) s
  have htime (t : Option Timestamp) : (ofTime? t).WellNamed :=
    wellNamed_ofOption (f := fun t : Timestamp => .str t.toIso) (fun _ => trivial) t
  have hbound (b : Option Float) : (Json.ofOption .float b).WellNamed :=
    wellNamed_ofOption (f := .float) (fun _ => trivial) b
  have htexts (options : List String) : (Json.arr (options.map .str)).WellNamed :=
    wellNamed_map (f := .str) (fun _ => trivial) options
  cases k with
  | uom =>
    refine ⟨?_, trivial, trivial, trivial, trivial, htime _, trivial, htime _, htext _, trivial⟩
    simp only [List.map_cons, List.map_nil]
    decide
  | parameter =>
    refine ⟨?_, trivial, trivial, trivial, trivial, htext _, hbound _, hbound _, htexts _, trivial,
      htext _, trivial, htime _, trivial, htime _, htext _, trivial⟩
    simp only [List.map_cons, List.map_nil]
    decide

theorem wellNamed_ofPage {k : Kind} (entries : List (Entry k)) (total : Int) :
    (ofPage entries total).WellNamed := by
  refine ⟨?_, wellNamed_map wellNamed_ofEntry entries, trivial, trivial⟩
  simp only [List.map_cons, List.map_nil]
  decide

/-- The deepest that a record of an entry goes is a list of options. -/
theorem obstacle?_ofEntry {k : Kind} (e : Entry k) {levels : Nat} (hlevels : 2 ≤ levels) :
    (ofEntry e).obstacle? levels = none := by
  obtain ⟨below, rfl⟩ : ∃ below, levels = below + 2 := ⟨levels - 2, by omega⟩
  have hoption {α : Type} {f : α → Json} (hf : ∀ a, (f a).obstacle? (below + 1) = none)
      (o : Option α) : (Json.ofOption f o).obstacle? (below + 1) = none := by
    cases o with
    | none => rfl
    | some a => exact hf a
  have htext (s : Option String) : (Json.ofOption .str s).obstacle? (below + 1) = none :=
    hoption (f := .str) (fun _ => rfl) s
  have htime (t : Option Timestamp) : (ofTime? t).obstacle? (below + 1) = none :=
    hoption (f := fun t : Timestamp => .str t.toIso) (fun _ => rfl) t
  have hbound (b : Option Float) : (Json.ofOption .float b).obstacle? (below + 1) = none :=
    hoption (f := .float) (fun _ => rfl) b
  have htexts (options : List String) : Json.itemsObstacle? below (options.map .str) = none := by
    rw [Json.itemsObstacle?_eq_none_iff]
    intro v hv
    obtain ⟨s, -, rfl⟩ := List.mem_map.mp hv
    rfl
  cases k with
  | uom =>
    rw [ofEntry, ofUom, Json.obstacle?]
    simp only [Json.membersObstacle?, Json.obstacle?, htext, htime, Option.or_none]
  | parameter =>
    rw [ofEntry, ofParameter, Json.obstacle?]
    simp only [Json.membersObstacle?, Json.obstacle?, htext, htime, hbound, htexts, Option.or_none]

/-- The record of an entry can always be written. -/
theorem isWritable_ofEntry {k : Kind} (e : Entry k) (depth : Json.Depth) :
    (ofEntry e).isWritable depth = true :=
  Option.isNone_iff_eq_none.mpr (obstacle?_ofEntry e (by have := depth.enough; omega))

/-- The record of a page can be written unless its total has too many digits. -/
theorem obstacle?_ofPage {k : Kind} (entries : List (Entry k)) (total : Int) (depth : Json.Depth) :
    (ofPage entries total).obstacle? depth.levels =
      if Decimal.isShort total then none else some .digits := by
  obtain ⟨below, hbelow⟩ : ∃ below, depth.levels = below + 4 :=
    ⟨depth.levels - 4, by have := depth.enough; omega⟩
  have hentries : Json.itemsObstacle? (below + 2) (entries.map ofEntry) = none := by
    rw [Json.itemsObstacle?_eq_none_iff]
    intro v hv
    obtain ⟨e, -, rfl⟩ := List.mem_map.mp hv
    exact obstacle?_ofEntry e (by omega)
  rw [hbelow, ofPage, Json.obstacle?, Json.membersObstacle?, Json.obstacle?, hentries,
    Option.none_or, Json.membersObstacle?, Json.obstacle?, Json.membersObstacle?, Option.or_none]

theorem isWritable_ofPage {k : Kind} (entries : List (Entry k)) (total : Int) (depth : Json.Depth) :
    (ofPage entries total).isWritable depth = Decimal.isShort total := by
  rw [Json.isWritable, obstacle?_ofPage]
  cases Decimal.isShort total <;> rfl

end Record

end CostCatalog
