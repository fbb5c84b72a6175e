import CostCatalog.Http.App
import CostCatalog.Proofs.Service.Pipeline

/-!
# Requests for operations

A request whose message is well formed asks for one of the ten operations, `Request.operation?`. The
route then serves it and sends the envelope, `App.route_of_operation`; and an operation whose command
ends with a fault other than a cancellation is answered by an envelope that holds the status of that
fault and nothing else, `Service.Operation.serve_of_fault`.
-/

namespace CostCatalog

open Wire (Checked Message)

/-! ## Operations and their responses -/

namespace Service

/-- An envelope as JSON. -/
def Envelope.toJson : Envelope → Json
  | .item .uom r => Message.toJson (α := Wire.ItemResponse Wire.UomData) r
  | .item .parameter r => Message.toJson (α := Wire.ItemResponse Wire.ParameterData) r
  | .page .uom r => Message.toJson (α := Wire.ListResponse Wire.UomData) r
  | .page .parameter r => Message.toJson (α := Wire.ListResponse Wire.ParameterData) r
  | .empty r => Message.toJson r

/-- The transport status under which an envelope is sent: "created" only if something was. -/
def Operation.transport : Operation → Envelope → Nat
  | .create _ _, e => if e.base.isSuccess then 201 else 200
  | _, _ => 200

/-- Serves a request for an operation and sends the envelope. -/
def Operation.respond (s : Setting) (op : Operation) : Action Http.Response := do
  let e ← op.serve s
  pure (.ofJson (op.transport e) e.toJson)

end Service

namespace Http

/-- The operation that a request asks for, if its message is well formed. -/
def requested (r : Request) (c : Content) : Kind → Operation → Checked Service.Operation
  | .uom, .create => Service.Operation.create .uom <$> c.message
  | .parameter, .create => Service.Operation.create .parameter <$> c.message
  | k, .find code => .ok (.get k code)
  | .uom, .list => Service.Operation.list .uom <$> r.queryMessage
  | .parameter, .list => Service.Operation.list .parameter <$> r.queryMessage
  | .uom, .update code =>
    (fun m : Wire.UpdateUom => Service.Operation.update .uom { m with code }) <$> c.message
  | .parameter, .update code =>
    (fun m : Wire.UpdateParameter => Service.Operation.update .parameter { m with code }) <$>
      c.message
  | k, .delete code => .ok (.delete k code)

/-- An operation that puts what an action results in into an envelope is answered by running the action
and sending that envelope. -/
private theorem respond_perform {α : Type} {s : Service.Setting} {asked : Service.Operation}
    {a : Action α} (g : α → Service.Envelope) (hserve : asked.serve s = a >>= fun x => pure (g x))
    {sent : α → Response}
    (hsent : ∀ x, sent x = .ofJson (asked.transport (g x)) (g x).toJson) (w : World) :
    (a >>= fun x => pure (sent x)).perform w = (asked.respond s).perform w := by
  rw [Service.Operation.respond, hserve, Action.perform_bind, Action.perform_bind,
    Action.perform_bind]
  cases a.perform w with
  | mk result w' =>
    cases result with
    | error f => rfl
    | ok x => simp only [Action.perform_pure, hsent]

private theorem checked_map_ok {α β : Type} {f : α → β} {x : Checked α} {b : β}
    (h : f <$> x = .ok b) : ∃ a, x = .ok a ∧ b = f a := by
  cases x with
  | ok a => cases h; exact ⟨a, rfl, rfl⟩
  | refused v vs => cases h

/-- A request that asks for an operation is answered by serving it. -/
private theorem entryAction_of_requested (s : Service.Setting) {r : Request} {c : Content} {k : Kind}
    {op : Operation} {asked : Service.Operation} (h : requested r c k op = .ok asked) :
    ∃ action, entryAction s r c k op = .ok action ∧
      ∀ w, action.perform w = (asked.respond s).perform w := by
  cases k with
  | uom =>
    cases op with
    | create =>
      obtain ⟨m, hm, rfl⟩ := checked_map_ok h
      refine ⟨_, by rw [entryAction, uomAction, hm]; rfl, ?_⟩
      exact respond_perform (.item .uom) rfl fun _ => rfl
    | list =>
      obtain ⟨m, hm, rfl⟩ := checked_map_ok h
      refine ⟨_, by rw [entryAction, uomAction, hm]; rfl, ?_⟩
      exact respond_perform (.page .uom) rfl fun _ => rfl
    | find code => cases h; exact ⟨_, rfl, respond_perform (.item .uom) rfl fun _ => rfl⟩
    | update code =>
      obtain ⟨m, hm, rfl⟩ := checked_map_ok h
      refine ⟨_, by rw [entryAction, uomAction, hm]; rfl, ?_⟩
      exact respond_perform (.item .uom) rfl fun _ => rfl
    | delete code => cases h; exact ⟨_, rfl, respond_perform .empty rfl fun _ => rfl⟩
  | parameter =>
    cases op with
    | create =>
      obtain ⟨m, hm, rfl⟩ := checked_map_ok h
      refine ⟨_, by rw [entryAction, parameterAction, hm]; rfl, ?_⟩
      exact respond_perform (.item .parameter) rfl fun _ => rfl
    | list =>
      obtain ⟨m, hm, rfl⟩ := checked_map_ok h
      refine ⟨_, by rw [entryAction, parameterAction, hm]; rfl, ?_⟩
      exact respond_perform (.page .parameter) rfl fun _ => rfl
    | find code => cases h; exact ⟨_, rfl, respond_perform (.item .parameter) rfl fun _ => rfl⟩
    | update code =>
      obtain ⟨m, hm, rfl⟩ := checked_map_ok h
      refine ⟨_, by rw [entryAction, parameterAction, hm]; rfl, ?_⟩
      exact respond_perform (.item .parameter) rfl fun _ => rfl
    | delete code => cases h; exact ⟨_, rfl, respond_perform .empty rfl fun _ => rfl⟩

/-- The operation that a request asks for. -/
def Request.operation? (r : Request) : Option Service.Operation :=
  match destination r.method r.path with
  | .found (.entries k op) =>
    match if op.hasBody then r.content else .ok .empty with
    | .ok c =>
      match requested r c k op with
      | .ok asked => some asked
      | .refused _ _ => none
    | .error _ => none
  | _ => none

/-- Where there is a store to work on, a request that asks for an operation is answered by serving
it. -/
theorem App.route_of_operation {a : App} {r : Request} {asked : Service.Operation}
    (h : r.operation? = some asked) (haccess : a.access ≠ .absent) (w : World) :
    (a.route r).perform w = (asked.respond a.setting).perform w := by
  unfold Request.operation? at h
  unfold App.route
  split at h
  · next k op hdestination =>
    rw [hdestination]
    simp only [App.serve]
    split at h
    · next c hc =>
      rw [hc]
      split at h
      · next hrequested =>
        cases h
        obtain ⟨action, haction, hperform⟩ := entryAction_of_requested a.setting hrequested
        simp only [haccess, if_false, haction]
        exact hperform w
      · cases h
    · cases h
  · cases h

end Http

/-! ## Operations that fail -/

namespace Service

variable {α ε : Type} {operation : String} {limit : Option Duration} {a : Action α} {w : World}
  {f : Fault}

/-- A command that ends with a fault is told by the status of the fault; a cancellation goes on. -/
theorem outcomeOf_of_fault (h : ((underDeadline operation limit a).perform w).1 = .ok (.error f)) :
    ((outcomeOf operation limit a).perform w).1 =
      if f.isCancellation then .error f else .ok (.error (failed f)) := by
  have hunder : (underDeadline operation limit a).perform w =
      (.ok (.error f), ((underDeadline operation limit a).perform w).2) := Prod.ext h rfl
  rw [outcomeOf, Action.perform_bind_ok hunder]
  dsimp only
  split <;> rfl

/-- An operation whose command ends with a fault is answered by an envelope that holds the status of
the fault and nothing else. -/
private theorem Operation.serve_of_fault {s : Setting} {op : Operation}
    (hf : f.isCancellation = false)
    (h : ((underDeadline op.name s.limit (op.command s)).perform w).1 = .ok (.error f)) :
    ((op.serve s).perform w).1 = .ok (op.blank (failed f)) := by
  have hserve := congrArg Prod.fst (op.serve_run s { world := w })
  rw [Action.performAmid_nil, Action.performAmid_nil] at hserve
  have houtcome : (outcomeOf op.name s.limit (op.command s)).perform w =
      (.ok (.error (failed f)), ((outcomeOf op.name s.limit (op.command s)).perform w).2) := by
    refine Prod.ext ((outcomeOf_of_fault h).trans ?_) rfl
    rw [hf]
    rfl
  refine hserve.trans ?_
  rw [answering, Action.perform_bind_ok houtcome]
  rfl

theorem Operation.respond_of_fault {s : Setting} {op : Operation} (hf : f.isCancellation = false)
    (h : ((underDeadline op.name s.limit (op.command s)).perform w).1 = .ok (.error f)) :
    ((op.respond s).perform w).1 = .ok (.ofJson 200 (op.blank (failed f)).toJson) := by
  have hserve : (op.serve s).perform w = (.ok (op.blank (failed f)), ((op.serve s).perform w).2) :=
    Prod.ext (serve_of_fault hf h) rfl
  rw [respond, Action.perform_bind_ok hserve]
  cases op <;> rfl

end Service

end CostCatalog
