import CostCatalog.Cache.Basic
import CostCatalog.Filter
import CostCatalog.Proofs.Cache.Globs
import CostCatalog.Proofs.Number.Digits

/-!
# Cache keys

The keys of one kind are told from those of the other by their first part, and the key of an entry
from that of a list because a code holds no colon. The key of a list says everything that its answer
depends on, `listKey_inj`: the category, the choice of states, the page that is meant and its size.

Two patterns drop keys, and under a stem of plain characters they drop what they are meant to:
`matches_listPattern` and `matches_allPattern`.
-/

namespace CostCatalog.Filter

variable {k : Kind}

/-! ## Parts set apart by a mark -/

/-- Of two texts that agree, the parts in front of the first mark agree, and those behind it. -/
theorem append_mark_inj {c : Char} {a a' b b' : List Char} (ha : c ∉ a) (ha' : c ∉ a')
    (h : a ++ c :: b = a' ++ c :: b') : a = a' ∧ b = b' := by
  induction a generalizing a' with
  | nil =>
    cases a' with
    | nil => exact ⟨rfl, (List.cons.inj h).2⟩
    | cons d a' => exact absurd (List.cons.inj h).1 (List.ne_of_not_mem_cons ha')
  | cons d a ih =>
    cases a' with
    | nil => exact absurd (List.cons.inj h).1.symm (List.ne_of_not_mem_cons ha)
    | cons d' a' =>
      obtain ⟨rfl, htail⟩ := List.cons.inj h
      obtain ⟨rfl, rfl⟩ := ih (fun hc => ha (List.mem_cons_of_mem _ hc))
        (fun hc => ha' (List.mem_cons_of_mem _ hc)) htail
      exact ⟨rfl, rfl⟩

theorem append_left_cancel {stem a b : String} (h : stem ++ a = stem ++ b) : a = b := by
  have hchars := congrArg String.toList h
  rw [String.toList_append, String.toList_append] at hchars
  exact String.toList_injective (List.append_cancel_left hchars)

theorem colon_not_mem_toString (n : Nat) : ':' ∉ (toString n).toList := by
  intro h
  rw [Nat.toString_eq_ofList_toDigits, String.toList_ofList] at h
  have := Decimal.isDigit_of_mem_toDigits h
  cases this

theorem toString_inj {m n : Nat} (h : (toString m).toList = (toString n).toList) : m = n := by
  rw [Nat.toString_eq_ofList_toDigits, Nat.toString_eq_ofList_toDigits, String.toList_ofList,
    String.toList_ofList] at h
  rw [← Decimal.ofDigits_toDigits m, h, Decimal.ofDigits_toDigits]

/-! ## The parts of a list key -/

/-- The part of a list key that names the category. -/
def categoryKey (c : Option (Category k)) : String := (c.map Enumeration.text).getD "all"

theorem colon_not_mem_categoryKey (c : Option (Category k)) : ':' ∉ (categoryKey c).toList := by
  cases k <;> rcases c with _ | c <;> try cases c
  all_goals decide

private theorem categoryKey_inj {c d : Option (Category k)} (h : categoryKey c = categoryKey d) :
    c = d := by
  have hall (c : Category k) : Enumeration.text c ≠ "all" := by
    cases k <;> cases c <;> decide
  cases c with
  | none =>
    cases d with
    | none => rfl
    | some d => exact absurd h.symm (hall d)
  | some c =>
    cases d with
    | none => exact absurd h (hall c)
    | some d => exact congrArg some (Enumeration.text_injective c d h)

/-- A choice of states is told from what follows it. -/
private theorem activityKey_append_inj {a b : Activity k} {x y : List Char}
    (h : (activityKey a).toList ++ x = (activityKey b).toList ++ y) : a = b ∧ x = y := by
  cases k with
  | uom => exact ⟨rfl, h⟩
  | parameter =>
    have hhead := congrArg List.head? h
    rcases a with _ | _ | _ <;> rcases b with _ | _ | _ <;>
      first
      | exact ⟨rfl, List.append_cancel_left h⟩
      | simp [activityKey] at hhead

theorem toList_listKey (f : Filter k) : f.listKey.toList =
    (keySpace k ++ "list:").toList ++ ((categoryKey f.category).toList ++ ':' ::
      ((activityKey f.activity).toList ++ ((toString f.page.effective).toList ++ ':' ::
        (toString f.page.limit).toList))) := by
  simp only [listKey, categoryKey, String.toList_append, List.append_assoc]
  rfl

/-- The key of a list says all that the list depends on. -/
theorem listKey_inj {f g : Filter k} (h : f.listKey = g.listKey) :
    f.category = g.category ∧ f.activity = g.activity ∧ f.page.effective = g.page.effective ∧
      f.page.limit = g.page.limit := by
  have hchars := congrArg String.toList h
  rw [toList_listKey, toList_listKey] at hchars
  obtain ⟨hcategory, hchars⟩ := append_mark_inj (colon_not_mem_categoryKey _)
    (colon_not_mem_categoryKey _) (List.append_cancel_left hchars)
  obtain ⟨hactivity, hchars⟩ := activityKey_append_inj hchars
  obtain ⟨heffective, hlimit⟩ := append_mark_inj (colon_not_mem_toString _)
    (colon_not_mem_toString _) hchars
  exact ⟨categoryKey_inj (String.toList_injective hcategory), hactivity, toString_inj heffective,
    toString_inj hlimit⟩

/-! ## Keys of entries and of lists -/

theorem entryKey_inj {c d : Code k} (h : entryKey c = entryKey d) : c = d :=
  Code.ext_text (append_left_cancel h)

/-- A code starts with a capital, so no code goes on like the key of a list. -/
private theorem not_list_prefix_code (c : Code k) : ¬ "list:".toList <+: c.text.toList := by
  intro h
  have hwell := c.wellFormed
  obtain ⟨rest, hrest⟩ := h
  rw [← hrest] at hwell
  cases hwell

theorem list_prefix_listKey (f : Filter k) :
    (keySpace k ++ "list:").toList <+: f.listKey.toList := by
  rw [toList_listKey]
  exact List.prefix_append _ _

theorem not_list_prefix_entryKey (c : Code k) :
    ¬ (keySpace k ++ "list:").toList <+: (entryKey c).toList := by
  rw [entryKey, String.toList_append, String.toList_append, List.prefix_append_right_inj]
  exact not_list_prefix_code c

theorem entryKey_ne_listKey (c : Code k) (f : Filter k) : entryKey c ≠ f.listKey := by
  intro h
  have hprefix := list_prefix_listKey f
  rw [← h] at hprefix
  exact not_list_prefix_entryKey c hprefix

/-! ## Keys of the two kinds -/

theorem keySpace_prefix_entryKey (c : Code k) : (keySpace k).toList <+: (entryKey c).toList := by
  rw [entryKey, String.toList_append]
  exact List.prefix_append _ _

theorem keySpace_prefix_listKey (f : Filter k) : (keySpace k).toList <+: f.listKey.toList := by
  rw [toList_listKey, String.toList_append, List.append_assoc]
  exact List.prefix_append _ _

/-- A key belongs to one kind. -/
theorem kind_eq_of_prefix {j k : Kind} {cs : List Char} (hj : (keySpace j).toList <+: cs)
    (hk : (keySpace k).toList <+: cs) : j = k := by
  obtain ⟨x, rfl⟩ := hj
  obtain ⟨y, hy⟩ := hk
  have hhead := congrArg List.head? hy
  cases j <;> cases k <;>
    first
    | rfl
    | simp [keySpace] at hhead

/-! ## What the patterns match -/

section Patterns

variable {stem : String} (hstem : ∀ c ∈ stem.toList, Glob.IsPlain c)

include hstem

private theorem matches_behind {lit : String} (hlit : ∀ c ∈ lit.toList, Glob.IsPlain c)
    (key : String) :
    Glob.isMatch (stem ++ (lit ++ "*")) (stem ++ key) = true ↔ lit.toList <+: key.toList := by
  have hplain : ∀ c ∈ (stem ++ lit).toList, Glob.IsPlain c := fun c hc => by
    rw [String.toList_append] at hc
    exact (List.mem_append.mp hc).elim (hstem c) (hlit c)
  rw [← String.append_assoc, Glob.isMatch_stem hplain, String.toList_append, String.toList_append,
    List.prefix_append_right_inj]

/-- The pattern of the lists of a kind matches what starts as their keys do. -/
theorem matches_listPattern (k : Kind) (key : String) :
    Glob.isMatch (stem ++ listPattern k) (stem ++ key) = true ↔
      (keySpace k ++ "list:").toList <+: key.toList := by
  have hpattern : listPattern k = keySpace k ++ "list:" ++ "*" := by cases k <;> rfl
  rw [hpattern]
  exact matches_behind hstem (Glob.isPlain_of_all (by cases k <;> rfl)) key

/-- The pattern of all keys of a kind matches what starts as they do. -/
theorem matches_allPattern (k : Kind) (key : String) :
    Glob.isMatch (stem ++ allPattern k) (stem ++ key) = true ↔
      (keySpace k).toList <+: key.toList := by
  exact matches_behind hstem (Glob.isPlain_of_all (by cases k <;> rfl)) key

end Patterns

end CostCatalog.Filter
