import CostCatalog.Http.Input
import CostCatalog.Http.Route
import CostCatalog.Service.Basic

/-!
# The routes of entries

How the ten operations are reached. The outcome of an operation travels in its envelope: the
response itself is a success whatever came of the operation, and it says "created" only when
something was. In an update the code in the path counts and not the one in the body.
-/

namespace CostCatalog.Http

open Service (Setting)
open Wire (Checked ItemResponse ListResponse Message)

/-- The response with an envelope. -/
def enveloped {α : Type} [Message α] (a : Action α) : Action Response := do
  pure (.ofJson 200 (Message.toJson (← a)))

/-- The response with the envelope of something that was to be made. -/
def envelopedNew {α : Type} [Message (ItemResponse α)] (a : Action (ItemResponse α)) :
    Action Response := do
  let r ← a
  pure (.ofJson (if r.base.isSuccess then 201 else 200) (Message.toJson r))

/-- What a request for an operation on units does, if its message is well formed. -/
def uomAction (s : Setting) (r : Request) (c : Content) : Operation → Checked (Action Response)
  | .create => (fun m => envelopedNew (Service.createUom s m)) <$> c.message
  | .list => (fun m => enveloped (Service.listUoms s m)) <$> r.queryMessage
  | .find code => .ok (enveloped (Service.getUom s ⟨code⟩))
  | .update code =>
    (fun m : Wire.UpdateUom => enveloped (Service.updateUom s { m with code })) <$> c.message
  | .delete code => .ok (enveloped (Service.deleteUom s ⟨code⟩))

/-- What a request for an operation on parameters does, if its message is well formed. -/
def parameterAction (s : Setting) (r : Request) (c : Content) :
    Operation → Checked (Action Response)
  | .create => (fun m => envelopedNew (Service.createParameter s m)) <$> c.message
  | .list => (fun m => enveloped (Service.listParameters s m)) <$> r.queryMessage
  | .find code => .ok (enveloped (Service.getParameter s ⟨code⟩))
  | .update code =>
    (fun m : Wire.UpdateParameter => enveloped (Service.updateParameter s { m with code })) <$>
      c.message
  | .delete code => .ok (enveloped (Service.deleteParameter s ⟨code⟩))

/-- What a request for an operation does, if its message is well formed. -/
def entryAction (s : Setting) (r : Request) (c : Content) :
    Kind → Operation → Checked (Action Response)
  | .uom => uomAction s r c
  | .parameter => parameterAction s r c

end CostCatalog.Http
