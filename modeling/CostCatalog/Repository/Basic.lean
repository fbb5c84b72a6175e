import CostCatalog.Program.Basic

/-!
# Repositories

Where entries are kept, as those who use them see it. Finding, changing and deleting refuse a code
that is not there; creating refuses one that is. `Repository.stored` keeps entries in the store.
-/

namespace CostCatalog

/-- The operations on the entries of a kind. -/
structure Repository (k : Kind) where
  create : Entry k → Action Unit
  find : Code k → Action (Entry k)
  /-- A page of entries, and how many there are on all pages. -/
  list : Filter k → Action (List (Entry k) × Int)
  update : Entry k → Action Unit
  delete : Code k → Action Unit
  contains : Code k → Action Bool

namespace Repository

variable {α : Type} (k : Kind)

/-- The result of a statement. A failure is logged and becomes a fault. -/
def settle (operation : String) : Except StoreFailure α → Action α
  | .ok a => pure a
  | .error f => do
    match f.record operation with
    | some r => Action.log r
    | none => pure ()
    Action.fail (f.toFault operation)

/-- Whether there is an entry with a code. -/
def storedContains (c : Code k) : Action Bool := do
  settle "select" (← Action.request (.contains k c))

/-- Stores a new entry. When a constraint refuses it and the code turns out to be taken, that is
what is reported; else the failure is. -/
def storedCreate (e : Entry k) : Action Unit := do
  match ← Action.request (.insert k e) with
  | .ok () => pure ()
  | .error f =>
    match ← Action.attempt (settle (α := Unit) "insert" (.error f)) with
    | .ok () => pure ()
    | .error fault =>
      if f.isIntegrity then
        if ← storedContains k e.code then Action.fail (.ofRule (.alreadyExists k))
        else Action.fail fault
      else Action.fail fault

/-- The entry with a code. -/
def storedFind (c : Code k) : Action (Entry k) := do
  match ← settle "select" (← Action.request (.find k c)) with
  | some e => pure e
  | none => Action.fail (.ofRule (.notFound k))

/-- The entries of a filter's page, and how many the filter selects. -/
def storedList (f : Filter k) : Action (List (Entry k) × Int) := do
  let total ← settle "select" (← Action.request (.count k f))
  let entries ← settle "select" (← Action.request (.page k f))
  pure (entries, total)

/-- Ends with "not found" unless a statement found a row. -/
def needRow (found : Bool) : Action Unit :=
  if found then pure () else Action.fail (.ofRule (.notFound k))

/-- Stores a change of an entry. -/
def storedUpdate (e : Entry k) : Action Unit := do
  needRow k (← settle "update" (← Action.request (.update k e)))

/-- Deletes an entry. -/
def storedDelete (c : Code k) : Action Unit := do
  needRow k (← settle "delete" (← Action.request (.delete k c)))

/-- The repository over the store. -/
def stored : Repository k where
  create := storedCreate k
  find := storedFind k
  list := storedList k
  update := storedUpdate k
  delete := storedDelete k
  contains := storedContains k

variable {k}

/-- A repository that marks each call before it passes it on. -/
def marked (inner : Repository k) : Repository k where
  create e := do Action.request (.mark k .create); inner.create e
  find c := do Action.request (.mark k .find); inner.find c
  list f := do Action.request (.mark k .list); inner.list f
  update e := do Action.request (.mark k .update); inner.update e
  delete c := do Action.request (.mark k .delete); inner.delete c
  contains c := do Action.request (.mark k .contains); inner.contains c

end Repository

end CostCatalog
