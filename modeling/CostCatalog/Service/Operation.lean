import CostCatalog.Repository.Call
import CostCatalog.Service.Basic

/-!
# Operations as values

A request for one of the ten operations as a value, and the envelope that answers it, so that one can
speak of a sequence of requests and of what the store looks like in between.
-/

namespace CostCatalog.Service

open Wire (EmptyResponse ItemResponse ListResponse)

/-- The requests for a new entry of a kind. -/
abbrev Creating : Kind → Type
  | .uom => Wire.CreateUom
  | .parameter => Wire.CreateParameter

/-- The requests for a change of an entry of a kind. -/
abbrev Updating : Kind → Type
  | .uom => Wire.UpdateUom
  | .parameter => Wire.UpdateParameter

/-- The requests for a page of entries of a kind. -/
abbrev Listing : Kind → Type
  | .uom => Wire.ListUoms
  | .parameter => Wire.ListParameters

/-- The entries of a kind as responses show them. -/
abbrev Data : Kind → Type
  | .uom => Wire.UomData
  | .parameter => Wire.ParameterData

/-- A request for an operation. -/
inductive Operation where
  | create (k : Kind) (r : Creating k)
  | get (k : Kind) (code : String)
  | list (k : Kind) (r : Listing k)
  | update (k : Kind) (r : Updating k)
  | delete (k : Kind) (code : String)

/-- An envelope that answers a request. -/
inductive Envelope where
  | item (k : Kind) (r : ItemResponse (Data k))
  | page (k : Kind) (r : ListResponse (Data k))
  | empty (r : EmptyResponse)

/-- The status that an envelope carries. -/
def Envelope.base : Envelope → Wire.Base
  | .item _ r => r.base
  | .page _ r => r.base
  | .empty r => r.base

/-- An envelope with nothing in it but its status. -/
def Envelope.IsBlank : Envelope → Prop
  | .item _ r => r.data = none
  | .page _ r => r.data = [] ∧ r.pagination = none
  | .empty _ => True

/-- What is served with some repositories. -/
def Setting.of (repos : Repositories) (actor : String) (limit : Option Duration) : Setting :=
  { uoms := repos .uom, parameters := repos .parameter, actor, limit }

/-- The repository of a kind. -/
def Setting.repository (s : Setting) : (k : Kind) → Repository k
  | .uom => s.uoms
  | .parameter => s.parameters

/-- Serves a request. -/
def Operation.serve (s : Setting) : Operation → Action Envelope
  | .create .uom r => do pure (.item .uom (← createUom s r))
  | .create .parameter r => do pure (.item .parameter (← createParameter s r))
  | .get .uom code => do pure (.item .uom (← getUom s ⟨code⟩))
  | .get .parameter code => do pure (.item .parameter (← getParameter s ⟨code⟩))
  | .list .uom r => do pure (.page .uom (← listUoms s r))
  | .list .parameter r => do pure (.page .parameter (← listParameters s r))
  | .update .uom r => do pure (.item .uom (← updateUom s r))
  | .update .parameter r => do pure (.item .parameter (← updateParameter s r))
  | .delete .uom code => do pure (.empty (← deleteUom s ⟨code⟩))
  | .delete .parameter code => do pure (.empty (← deleteParameter s ⟨code⟩))

end CostCatalog.Service
