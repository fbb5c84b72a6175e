import CostCatalog.Proofs.Command.Successes
import CostCatalog.Service.Operation

/-!
# One pipeline for all operations

Every operation turns its request into a command or a query, runs that, and puts what comes of it into
an envelope: its result as it is shown, or the status of its fault, which is logged. A cancellation alone
is put into no envelope. So an operation
is told by its command, by how the result is shown, and by the envelope that says no more than a status,
`Operation.serve_run`.
-/

namespace CostCatalog.Service

open Wire (Base)

variable {α ε : Type}

/-! ## Runs of the pipeline -/

/-- A command run under a limit, its result shown or the status of its fault told. -/
def answering (operation : String) (limit : Option Duration) (a : Action α)
    (shown : α → Except Fault ε) (blank : Base → ε) : Action ε := do
  match ← outcomeOf operation limit a with
  | .ok x => Action.ofExcept (shown x)
  | .error base => pure (blank base)

/-- The fault of a command as the limit reports it. -/
def reported (operation : String) (limit : Option Duration) (f : Fault) : Fault :=
  if f.isTimeout then .pastDeadline operation limit else f

/-- A passing of time has the status of an internal error, whoever reports it. -/
theorem status_reported (operation : String) (limit : Option Duration) (f : Fault) :
    (reported operation limit f).outcome.status = f.outcome.status := by
  unfold reported
  split
  · next h =>
    unfold Fault.isTimeout at h
    split at h
    · rfl
    · cases h
  · rfl

private theorem isCancellation_reported {operation : String} {limit : Option Duration} {f : Fault}
    (hf : f.isCancellation = false) : (reported operation limit f).isCancellation = false := by
  unfold reported
  split
  · rfl
  · exact hf

section Runs

variable {operation : String} {limit : Option Duration} {a : Action α} {shown : α → Except Fault ε}
  {blank : Base → ε} {p p' : Prospect}

/-- The limit is not spent before anything is done. -/
def Unspent (limit : Option Duration) : Prop := (limit.map Duration.isSpent).getD false = false

theorem underDeadline_run (operation : String) (hlimit : Unspent limit) :
    (underDeadline operation limit a).performAmid p =
      (.ok (underLimit operation limit (a.performAmid p).1), (a.performAmid p).2) := by
  unfold underDeadline
  rw [if_neg (by rw [hlimit]; exact Bool.noConfusion),
    Action.performAmid_bind_ok (Action.performAmid_attempt p a)]
  rfl

private theorem outcomeOf_ok (hlimit : Unspent limit) {x : α} (ha : a.performAmid p = (.ok x, p')) :
    (outcomeOf operation limit a).performAmid p = (.ok (.ok x), p') := by
  have hunder := underDeadline_run (a := a) (p := p) operation hlimit
  rw [ha] at hunder
  exact Action.performAmid_bind_ok hunder _

private theorem outcomeOf_error (hlimit : Unspent limit) {f : Fault} (hf : f.isCancellation = false)
    (ha : a.performAmid p = (.error f, p')) :
    (outcomeOf operation limit a).performAmid p =
      (.ok (.error (failed (reported operation limit f))),
        (p'.answer (.log (failureRecord operation (reported operation limit f)))).2) := by
  have hunder := underDeadline_run (a := a) (p := p) operation hlimit
  have hreported : underLimit operation limit (.error f : Except Fault α) =
      .error (reported operation limit f) := by
    simp only [underLimit, reported]
    split <;> rfl
  rw [ha, hreported] at hunder
  rw [outcomeOf, Action.performAmid_bind_ok hunder]
  simp only [isCancellation_reported hf, Bool.false_eq_true, if_false]
  rfl

/-- A command that comes to a result has it shown. -/
theorem answering_ok (hlimit : Unspent limit) {x : α} (ha : a.performAmid p = (.ok x, p')) :
    (answering operation limit a shown blank).performAmid p = (shown x, p') :=
  Action.performAmid_bind_ok (outcomeOf_ok hlimit ha) _

/-- A command that ends with a fault has its status told, and the fault is logged. -/
theorem answering_error (hlimit : Unspent limit) {f : Fault} (hf : f.isCancellation = false)
    (ha : a.performAmid p = (.error f, p')) :
    (answering operation limit a shown blank).performAmid p =
      (.ok (blank (failed (reported operation limit f))),
        (p'.answer (.log (failureRecord operation (reported operation limit f)))).2) :=
  Action.performAmid_bind_ok (outcomeOf_error hlimit hf ha) _

end Runs

/-! ## Requests and their commands -/

theorem Setting.repository_of (repos : Repositories) (actor : String) (limit : Option Duration)
    (k : Kind) : (Setting.of repos actor limit).repository k = repos k := by
  cases k <;> rfl

/-- The command of a request for a new entry. -/
def Creating.command (actor : String) : {k : Kind} → Creating k → Command.Creation k
  | .uom, r =>
    { code := Wire.CreateUom.code r, name := Wire.CreateUom.name r
      category := Wire.uomCategories.toDomain (Wire.CreateUom.category r)
      isBase := Wire.CreateUom.isBase r, createdBy := actor : Command.CreateUom }
  | .parameter, r =>
    { code := Wire.CreateParameter.code r, name := Wire.CreateParameter.name r
      category := Wire.parameterCategories.toDomain (Wire.CreateParameter.options r).category
      dataType := Wire.dataTypes.toDomain (Wire.CreateParameter.options r).dataType
      createdBy := actor, fields := fieldsOf (Wire.CreateParameter.options r) :
        Command.CreateParameter }

/-- The command of a request for a change. -/
def Updating.command (actor : String) : {k : Kind} → Updating k → Command.Update k
  | .uom, r =>
    { code := Wire.UpdateUom.code r, name := Wire.UpdateUom.name r
      category := Wire.uomCategories.toDomain (Wire.UpdateUom.category r)
      isBase := Wire.UpdateUom.isBase r, updatedBy := actor : Command.UpdateUom }
  | .parameter, r =>
    { code := Wire.UpdateParameter.code r, name := Wire.UpdateParameter.name r
      category := Wire.parameterCategories.toDomain (Wire.UpdateParameter.options r).category
      dataType := Wire.dataTypes.toDomain (Wire.UpdateParameter.options r).dataType
      updatedBy := actor, fields := fieldsOf (Wire.UpdateParameter.options r)
      isActive := Wire.UpdateParameter.isActive r : Command.UpdateParameter }

/-- The query of a request for a page. -/
def Listing.query : {k : Kind} → Listing k → Command.Listing k
  | .uom, r =>
    { page := Wire.ListUoms.page r, pageSize := Wire.ListUoms.pageSize r
      category := (Wire.ListUoms.category r).bind fun c => stated (Wire.uomCategories.toDomain c) :
        Command.ListUoms }
  | .parameter, r =>
    { page := Wire.ListParameters.page r, pageSize := Wire.ListParameters.pageSize r
      category := (Wire.ListParameters.category r).bind fun c =>
        stated (Wire.parameterCategories.toDomain c)
      isActive := Wire.ListParameters.isActive r : Command.ListParameters }

/-- An entry as responses show it. -/
def entryData : {k : Kind} → Entry k → Except Fault (Data k)
  | .uom, u => uomData u
  | .parameter, p => parameterData p

namespace Operation

/-- What the command of a request results in. -/
def Result : Operation → Type
  | .create k _ | .get k _ | .update k _ => Entry k
  | .list k _ => List (Entry k) × Int × Filter k
  | .delete _ _ => Unit

/-- The command of a request. -/
def command (s : Setting) : (op : Operation) → Action op.Result
  | .create k r => Command.create (s.repository k) (r.command s.actor)
  | .get k code => Command.get (s.repository k) code
  | .list k r => Command.list (s.repository k) r.query
  | .update k r => Command.update (s.repository k) (r.command s.actor)
  | .delete k code => Command.delete (s.repository k) code

/-- The name of an operation in the log. -/
def name : Operation → String
  | .create .uom _ => "CreateUOM"
  | .create .parameter _ => "CreateParameter"
  | .get .uom _ => "GetUOM"
  | .get .parameter _ => "GetParameter"
  | .list .uom _ => "ListUOMs"
  | .list .parameter _ => "ListParameters"
  | .update .uom _ => "UpdateUOM"
  | .update .parameter _ => "UpdateParameter"
  | .delete .uom _ => "DeleteUOM"
  | .delete .parameter _ => "DeleteParameter"

/-- The status of a request that was carried out. -/
def success : Operation → Base
  | .create .uom _ => created "UOM created successfully"
  | .create .parameter _ => created "Parameter created successfully"
  | .get .uom _ => succeeded "UOM retrieved successfully"
  | .get .parameter _ => succeeded "Parameter retrieved successfully"
  | .list .uom _ => succeeded "UOMs retrieved successfully"
  | .list .parameter _ => succeeded "Parameters retrieved successfully"
  | .update .uom _ => succeeded "UOM updated successfully"
  | .update .parameter _ => succeeded "Parameter updated successfully"
  | .delete .uom _ => succeeded "UOM deleted successfully"
  | .delete .parameter _ => succeeded "Parameter deleted successfully"

/-- An envelope that says no more than a status. -/
def blank : Operation → Base → Envelope
  | .create k _, base | .get k _, base | .update k _, base => .item k { base }
  | .list k _, base => .page k { base }
  | .delete _ _, base => .empty { base }

theorem isSuccess_success (op : Operation) : op.success.isSuccess = true := by
  cases op with
  | create k | get k | list k | update k | delete k => cases k <;> rfl

theorem base_blank (op : Operation) (base : Base) : (op.blank base).base = base := by
  cases op <;> rfl

theorem isBlank_blank (op : Operation) (base : Base) : (op.blank base).IsBlank := by
  cases op with
  | create | get | update => rfl
  | list => exact ⟨rfl, rfl⟩
  | delete => trivial

/-- The envelope that shows an entry. -/
def shownItem {k : Kind} (base : Base) (e : Entry k) : Except Fault Envelope :=
  (entryData e).map fun data => .item k { base, data := some data }

/-- The envelope that shows a page. -/
def shownPage {k : Kind} (base : Base) (found : List (Entry k) × Int × Filter k) :
    Except Fault Envelope := do
  let data ← found.1.mapM entryData
  let pagination ← pagination found.2.2.page found.2.1
  .ok (.page k { base, data, pagination := some pagination })

/-- The envelope that shows the result of the command of a request. -/
def shown : (op : Operation) → op.Result → Except Fault Envelope
  | .create k r, e => shownItem (success (.create k r)) e
  | .get k code, e => shownItem (success (.get k code)) e
  | .update k r, e => shownItem (success (.update k r)) e
  | .list k r, found => shownPage (success (.list k r)) found
  | .delete k code, _ => .ok (.empty { base := success (.delete k code) })

/-- What comes of a command, put into an envelope in two steps or in one. -/
theorem itemOf_run {k : Kind} (operation : String) (limit : Option Duration) (a : Action (Entry k))
    (base : Base) (p : Prospect) :
    Action.performAmid (do pure (Envelope.item k (← itemOf operation limit a base entryData))) p =
      (answering operation limit a (shownItem base) fun base => .item k { base }).performAmid p := by
  unfold itemOf answering
  rw [Action.performAmid_bind, Action.performAmid_bind, Action.performAmid_bind]
  cases (outcomeOf operation limit a).performAmid p with
  | mk outcome p' =>
    cases outcome with
    | error f => rfl
    | ok outcome =>
      cases outcome with
      | error base => rfl
      | ok x =>
        simp only [shownItem, Action.performAmid_bind, Action.performAmid_ofExcept]
        cases entryData x <;> rfl

private theorem listOf_run {k : Kind} (operation : String) (limit : Option Duration)
    (a : Action (List (Entry k) × Int × Filter k)) (base : Base) (p : Prospect) :
    Action.performAmid (do pure (Envelope.page k (← listOf operation limit a base entryData))) p =
      (answering operation limit a (shownPage base) fun base => .page k { base }).performAmid p := by
  unfold listOf answering
  rw [Action.performAmid_bind, Action.performAmid_bind, Action.performAmid_bind]
  cases (outcomeOf operation limit a).performAmid p with
  | mk outcome p' =>
    cases outcome with
    | error f => rfl
    | ok outcome =>
      cases outcome with
      | error base => rfl
      | ok found =>
        obtain ⟨entries, total, filter⟩ := found
        simp only [shownPage, Action.performAmid_bind, Action.performAmid_ofExcept]
        cases entries.mapM entryData with
        | error f => rfl
        | ok data => cases pagination filter.page total <;> rfl

private theorem emptyOf_run (operation : String) (limit : Option Duration) (a : Action Unit)
    (base : Base) (p : Prospect) :
    Action.performAmid (do pure (Envelope.empty (← emptyOf operation limit a base))) p =
      (answering operation limit a (fun _ => .ok (.empty { base })) fun base =>
        .empty { base }).performAmid p := by
  unfold emptyOf answering
  rw [Action.performAmid_bind, Action.performAmid_bind, Action.performAmid_bind]
  cases (outcomeOf operation limit a).performAmid p with
  | mk outcome p' =>
    cases outcome with
    | error f => rfl
    | ok outcome => cases outcome <;> rfl

/-- Every operation runs its command under the limit and shows what comes of it. -/
theorem serve_run (s : Setting) (op : Operation) (p : Prospect) :
    (op.serve s).performAmid p =
      (answering op.name s.limit (op.command s) op.shown op.blank).performAmid p := by
  cases op with
  | create k r =>
    have hrun := itemOf_run (k := k) (name (.create k r)) s.limit (command s (.create k r))
      (success (.create k r)) p
    cases k <;> exact hrun
  | get k code =>
    have hrun := itemOf_run (k := k) (name (.get k code)) s.limit (command s (.get k code))
      (success (.get k code)) p
    cases k <;> exact hrun
  | update k r =>
    have hrun := itemOf_run (k := k) (name (.update k r)) s.limit (command s (.update k r))
      (success (.update k r)) p
    cases k <;> exact hrun
  | list k r =>
    have hrun := listOf_run (k := k) (name (.list k r)) s.limit (command s (.list k r))
      (success (.list k r)) p
    cases k <;> exact hrun
  | delete k code =>
    have hrun := emptyOf_run (name (.delete k code)) s.limit (command s (.delete k code))
      (success (.delete k code)) p
    cases k <;> exact hrun

end Operation

end CostCatalog.Service
