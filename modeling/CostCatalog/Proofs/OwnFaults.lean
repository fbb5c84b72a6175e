import CostCatalog.Command.Parameter
import CostCatalog.Proofs.Repository.Stored

/-!
# The catalogue's own faults

Whatever the catalogue itself finds wrong, with what a command says, with a record or with the store, is
no failure of the cache and no cancellation, `Spares`. What a caller is told of either comes from
outside: from the cache, or from repositories that are not the catalogue's.
-/

namespace CostCatalog

variable {k : Kind} {α β : Type}

/-! ## Outcomes -/

/-- A fault that is neither a failure of the cache nor the end of work that was cancelled. -/
structure Fault.IsOwn (f : Fault) : Prop where
  isOfCache : f.isOfCache = false
  isCancellation : f.isCancellation = false

theorem Fault.isCancellation_of_isOfCache {f : Fault} (h : f.isOfCache = true) :
    f.isCancellation = false := by
  cases f with
  | known c context => rfl
  | unexpected a => cases h

theorem Fault.isOwn_ofRule (r : Rule) : (ofRule r).IsOwn := ⟨rfl, rfl⟩

/-- An outcome that spares the caller all faults but the catalogue's own. -/
def Spares (x : Except Fault α) : Prop := ∀ f, x = .error f → f.IsOwn

theorem spares_ok (a : α) : Spares (.ok a) := fun _ h => nomatch h

theorem spares_error {f : Fault} (h : f.IsOwn) : Spares (.error f : Except Fault α) :=
  fun _ hf => by cases hf; exact h

theorem spares_ofRule (r : Rule) : Spares (.error (.ofRule r) : Except Fault α) :=
  spares_error (Fault.isOwn_ofRule r)

theorem Spares.bind {x : Except Fault α} {f : α → Except Fault β} (hx : Spares x)
    (hf : ∀ a, Spares (f a)) : Spares (x >>= f) := by
  cases x with
  | ok a => exact hf a
  | error e => exact spares_error (hx e rfl)

theorem Spares.map {x : Except Fault α} (hx : Spares x) (g : α → β) :
    Spares (x.map g) := by
  cases x with
  | ok a => exact spares_ok _
  | error e => exact spares_error (hx e rfl)

theorem Spares.of_map {x : Except Fault α} {g : α → β} (h : Spares (x.map g)) :
    Spares x := by
  cases x with
  | ok a => exact spares_ok a
  | error e => exact spares_error (h e rfl)

theorem Spares.mapM {f : α → Except Fault β} (hf : ∀ a, Spares (f a)) (xs : List α) :
    Spares (xs.mapM f) := by
  induction xs with
  | nil => exact spares_ok _
  | cons x xs ih =>
    rw [List.mapM_cons]
    exact (hf x).bind fun _ => ih.bind fun _ => spares_ok _

/-! ## Commands -/

theorem Code.spares_parse (v : Json) : Spares (Code.parse k v) := by
  unfold Code.parse
  split
  · exact spares_ok _
  · exact spares_ofRule _

theorem Category.spares_parse (v : Json) : Spares (Category.parse k v) := by
  unfold Category.parse
  split
  · exact spares_ok _
  · exact spares_ofRule _

theorem DataType.spares_parse (v : Json) : Spares (DataType.parse v) := by
  unfold DataType.parse
  split
  · exact spares_ok _
  · exact spares_ofRule _

theorem Audit.spares_stamp (actor : String) (now : Timestamp) (a : Audit) :
    Spares (a.stamp actor now) := by
  have htime : Spares (Audit.nextTime now a.latest) := by
    unfold Audit.nextTime
    split
    · exact spares_ok _
    split
    · exact spares_error ⟨rfl, rfl⟩
    · exact spares_ok _
    split
    · exact spares_ok _
    · exact spares_error ⟨rfl, rfl⟩
  exact htime.bind fun _ => spares_ok _

theorem Uom.spares_create (code : Code .uom) (name : String) (category : UomCategory) (actor : String)
    (now : Timestamp) : Spares (Uom.create code name category actor now) := by
  unfold Uom.create
  split
  · exact spares_ofRule _
  split
  · exact spares_ofRule _
  · exact spares_ok _

theorem Uom.spares_edit (now : Timestamp) (u : Uom) (e : Edit) : Spares (u.edit now e).1 := by
  cases e with
  | markBase => exact spares_ok ()
  | update name category isBase actor =>
    rw [Uom.edit]
    split
    · exact spares_ofRule _
    split
    · exact spares_ofRule _
    dsimp only
    split
    · exact spares_ok ()
    · next f hf => exact spares_error (Audit.spares_stamp _ _ _ f hf)

namespace Parameter

theorem spares_create (code : Code .parameter) (name : String) (category : ParameterCategory)
    (dataType : DataType) (actor : String) (now : Timestamp) :
    Spares (create code name category dataType actor now) := by
  unfold create
  split
  · exact spares_ofRule _
  split
  · exact spares_ofRule _
  · exact spares_ok _

theorem spares_edit (now : Timestamp) (p : Parameter) (e : Edit) : Spares (p.edit now e).1 := by
  cases e with
  | update name category dataType actor =>
    rw [edit]
    split
    · exact spares_ofRule _
    split
    · exact spares_ofRule _
    dsimp only
    split
    · exact spares_ok ()
    · next f hf => exact spares_error (Audit.spares_stamp _ _ _ f hf)
  | setBounds | setOptions =>
    rw [edit]
    split
    · exact spares_ofRule _
    · exact spares_ok ()
  | setUom | setDescription | setMandatory | activate | deactivate => exact spares_ok ()

theorem spares_editAll (now : Timestamp) (p : Parameter) (es : List Edit) :
    Spares (p.editAll now es) := by
  induction es generalizing p with
  | nil => exact spares_ok p
  | cons e es ih =>
    unfold editAll
    split
    · exact ih _
    · next f _ hf => exact spares_error (p.spares_edit now e f (congrArg Prod.fst hf))

end Parameter

theorem Command.ListUoms.spares_filter (q : ListUoms) : Spares q.filter := by
  unfold filter
  cases q.category with
  | none => exact spares_ok _
  | some c => exact ((Category.spares_parse _).map some).bind fun _ => spares_ok _

theorem Command.ListParameters.spares_filter (q : ListParameters) : Spares q.filter := by
  unfold filter
  cases q.category with
  | none => exact spares_ok _
  | some c => exact ((Category.spares_parse _).map some).bind fun _ => spares_ok _

/-! ## Records -/

namespace Record

private theorem spares_field (r : Json) (name : String) : Spares (field r name) := by
  unfold field
  split
  · split
    · exact spares_ok _
    · exact spares_error ⟨rfl, rfl⟩
  · exact spares_error ⟨rfl, rfl⟩

theorem spares_text (v : Json) : Spares (text v) := by
  cases v with
  | str s => exact spares_ok s
  | _ => exact spares_error ⟨rfl, rfl⟩

theorem spares_text? (v : Json) : Spares (text? v) := by
  cases v with
  | null => exact spares_ok none
  | _ => exact (spares_text _).bind fun _ => spares_ok _

theorem spares_flag (v : Json) : Spares (flag v) := by
  cases v with
  | bool b => exact spares_ok b
  | _ => exact spares_error ⟨rfl, rfl⟩

theorem spares_bound? (v : Json) : Spares (bound? v) := by
  cases v with
  | null | int | float => exact spares_ok _
  | _ => exact spares_error ⟨rfl, rfl⟩

theorem spares_time? (v : Json) : Spares (time? v) := by
  cases v with
  | null => exact spares_ok none
  | str s =>
    unfold time?
    dsimp only
    split
    · exact spares_ok _
    · exact spares_error ⟨rfl, rfl⟩
  | _ => exact spares_error ⟨rfl, rfl⟩

theorem spares_member [Enumeration α] (v : Json) : Spares (member (α := α) v) := by
  unfold member
  split
  · exact spares_ok _
  · exact spares_error ⟨rfl, rfl⟩

private theorem spares_texts (v : Json) : Spares (texts v) := by
  cases v with
  | arr vs => exact .mapM spares_text vs
  | str | obj => exact spares_ok _
  | _ => exact spares_error ⟨rfl, rfl⟩

/-- A field that is read, and what is made of it. -/
theorem spares_field_bind {r : Json} {name : String} {read : Json → Except Fault α}
    {f : α → Except Fault β} (hread : ∀ v, Spares (read v)) (hf : ∀ a, Spares (f a)) :
    Spares (field r name >>= fun v => read v >>= f) :=
  (spares_field r name).bind fun v => (hread v).bind hf

/-- Reading a record spares the caller, whatever the record. -/
theorem spares_toEntry (k : Kind) (r : Json) : Spares (toEntry k r) := by
  cases k with
  | uom =>
    refine spares_field_bind Code.spares_parse fun code => ?_
    refine spares_field_bind spares_text fun name => ?_
    refine spares_field_bind spares_member fun category => ?_
    refine spares_field_bind spares_flag fun isBase => ?_
    refine spares_field_bind spares_time? fun createdAt => ?_
    refine spares_field_bind spares_text fun createdBy => ?_
    refine spares_field_bind spares_time? fun updatedAt => ?_
    exact spares_field_bind spares_text? fun updatedBy => spares_ok _
  | parameter =>
    refine spares_field_bind Code.spares_parse fun code => ?_
    refine spares_field_bind spares_text fun name => ?_
    refine spares_field_bind spares_member fun category => ?_
    refine spares_field_bind spares_member fun dataType => ?_
    refine spares_field_bind spares_text? fun uom => ?_
    refine spares_field_bind spares_bound? fun minValue => ?_
    refine spares_field_bind spares_bound? fun maxValue => ?_
    refine spares_field_bind spares_texts fun allowedValues => ?_
    refine spares_field_bind spares_flag fun isMandatory => ?_
    refine spares_field_bind spares_text? fun description => ?_
    refine spares_field_bind spares_flag fun isActive => ?_
    refine spares_field_bind spares_time? fun createdAt => ?_
    refine spares_field_bind spares_text fun createdBy => ?_
    refine spares_field_bind spares_time? fun updatedAt => ?_
    exact spares_field_bind spares_text? fun updatedBy => spares_ok _

theorem spares_toPage (k : Kind) (r : Json) : Spares (toPage k r) := by
  have hitems (v : Json) : Spares (items v) := by
    cases v with
    | arr | str | obj => exact spares_ok _
    | _ => exact spares_error ⟨rfl, rfl⟩
  have htotal (v : Json) : Spares (total v) := by
    cases v with
    | int n => exact spares_ok n
    | _ => exact spares_error ⟨rfl, rfl⟩
  refine spares_field_bind hitems fun records => ?_
  refine (Spares.mapM (spares_toEntry k) records).bind fun entries => ?_
  exact spares_field_bind htotal fun n => spares_ok _

end Record

/-! ## The store -/

theorem StoreFailure.isOwn_toFault (operation : String) (f : StoreFailure) :
    (f.toFault operation).IsOwn := by
  cases f <;> exact ⟨rfl, rfl⟩

/-- The store answers every call with a result or a fault of its own. -/
theorem Store.spares_answer (s : Store) (call : Call) : Spares (s.answer call).1 := by
  have hcontained (k : Kind) (c : Code k) : Spares (s.contained c) := by
    unfold contained
    cases s.contains c with
    | ok b => exact spares_ok b
    | error f => exact spares_error (f.isOwn_toFault _)
  have hchanged (k : Kind) (operation : String) (x : Except StoreFailure (Bool × Store)) :
      Spares (changed k operation s x).1 := by
    match x with
    | .ok (true, _) => exact spares_ok ()
    | .ok (false, _) => exact spares_error ⟨rfl, rfl⟩
    | .error f => exact spares_error (f.isOwn_toFault _)
  cases call with
  | create k e =>
    refine Spares.map ?_ _
    unfold created
    split
    · exact spares_ok ()
    · next f _ =>
      refine spares_error ?_
      unfold createFault
      split
      · split
        · exact Fault.isOwn_ofRule _
        · exact f.isOwn_toFault _
        · next g hg => exact hcontained k e.code g hg
      · exact f.isOwn_toFault _
  | find k c =>
    refine Spares.map ?_ _
    unfold found
    split
    · exact spares_ok _
    · exact spares_error ⟨rfl, rfl⟩
    · next f _ => exact spares_error (f.isOwn_toFault _)
  | list k f =>
    refine Spares.map ?_ _
    unfold listed
    split
    · exact spares_ok _
    · next g _ => exact spares_error (g.isOwn_toFault _)
    · next g _ _ => exact spares_error (g.isOwn_toFault _)
  | update k e => exact (hchanged k _ _).map _
  | delete k c => exact (hchanged k _ _).map _
  | contains k c => exact (hcontained k c).map _

end CostCatalog
