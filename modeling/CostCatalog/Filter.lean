import CostCatalog.Entry
import CostCatalog.Page

/-!
# Filters

Which entries a list shows: those of one category or of all, for parameters also the active or the
inactive ones alone; and of them one page.
-/

namespace CostCatalog

/-- The choice between active and inactive entries, for the kinds that know the difference. -/
abbrev Activity : Kind → Type
  | .uom => Unit
  | .parameter => Option Bool

/-- A page of the entries that pass a selection. -/
structure Filter (k : Kind) where
  page : Page := {}
  category : Option (Category k) := none
  activity : Activity k

namespace Filter

variable {k : Kind}

/-- No choice between active and inactive. -/
def anyActivity : (k : Kind) → Activity k
  | .uom => ()
  | .parameter => none

/-- Whether an entry's state passes a choice. -/
def passesActivity : {k : Kind} → Activity k → Entry k → Bool
  | .uom, _, _ => true
  | .parameter, none, _ => true
  | .parameter, some b, p => Parameter.isActive p == b

/-- Whether an entry passes the selection of a filter. -/
def selects (f : Filter k) (e : Entry k) : Bool :=
  (f.category.all fun c => decide (e.category = c)) && passesActivity f.activity e

/-- An entry is of the category that a filter names, if it names one, and active or not as it asks. -/
def Matches : {k : Kind} → Filter k → Entry k → Prop
  | .uom, f, u => ∀ c ∈ f.category, Uom.category u = c
  | .parameter, f, p => (∀ c ∈ f.category, Parameter.category p = c) ∧
      ∀ b : Bool, f.activity = some b → Parameter.isActive p = b

theorem selects_iff {f : Filter k} {e : Entry k} : f.selects e = true ↔ f.Matches e := by
  unfold selects
  rw [Bool.and_eq_true]
  cases k with
  | uom =>
    simp only [passesActivity, and_true, Matches, Option.all_eq_true, decide_eq_true_eq]
    exact Iff.rfl
  | parameter =>
    refine and_congr ?_ ?_
    · simp only [Option.all_eq_true, decide_eq_true_eq]
      exact Iff.rfl
    · obtain ⟨page, category, activity⟩ := f
      cases activity with
      | none => exact iff_of_true rfl fun b hb => nomatch hb
      | some b =>
        simp only [passesActivity, beq_iff_eq, Option.some.injEq, forall_eq']

instance (f : Filter k) : DecidablePred f.Matches := fun _ => decidable_of_iff _ selects_iff

/-! ## Cache keys -/

/-- The first part of every cache key of a kind. -/
def keySpace : Kind → String
  | .uom => "uom:"
  | .parameter => "param:"

/-- The part of a list key that names the choice of states, for the kinds that have one. -/
def activityKey : {k : Kind} → Activity k → String
  | .uom, _ => ""
  | .parameter, none => "all:"
  | .parameter, some true => "true:"
  | .parameter, some false => "false:"

/-- The text of the cache key of the list that a filter asks for. -/
def listKey (f : Filter k) : String :=
  keySpace k ++ "list:" ++ (f.category.map Enumeration.text).getD "all" ++ ":" ++
    activityKey f.activity ++ toString f.page.effective ++ ":" ++ toString f.page.limit

/-- Whether the list that a filter asks for has a cache key: the number of its page has to have few
enough digits for a text. -/
def hasListKey (f : Filter k) : Bool := Decimal.isShort f.page.effective

/-- The cache key of the list that a filter asks for, if it has one. -/
def listKey? (f : Filter k) : Except Fault String :=
  if f.hasListKey then .ok f.listKey else .error (.unexpected .tooManyDigits)

/-- The cache key of the entry with a code. -/
def entryKey (c : Code k) : String := keySpace k ++ c.text

/-- The pattern of the list keys of a kind. -/
def listPattern (k : Kind) : String := keySpace k ++ "list:*"

/-- The pattern of all keys of a kind. -/
def allPattern (k : Kind) : String := keySpace k ++ "*"

end Filter

end CostCatalog
