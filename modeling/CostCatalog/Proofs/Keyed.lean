import Mathlib.Data.List.Nodup

/-!
# Lists with one entry a key

What a search by key finds in a list in which no two entries have one key: the entry that is there,
after some entries were taken out the same unless it is one of them, and after an entry was placed
that one under its key and the same under any other.
-/

namespace CostCatalog

variable {α β : Type} {f : α → β} {xs : List α}

/-- An entry is found by its key. -/
theorem find?_of_nodup_map (h : (xs.map f).Nodup) {a : α} (ha : a ∈ xs) {p : α → Bool}
    (hp : ∀ x, p x = true ↔ f x = f a) : xs.find? p = some a := by
  cases hfind : xs.find? p with
  | none => exact absurd ((hp a).mpr rfl) (List.find?_eq_none.mp hfind a ha)
  | some b =>
    have hkey := (hp b).mp (List.find?_some hfind)
    exact congrArg some (List.inj_on_of_nodup_map h (List.mem_of_find?_eq_some hfind) ha hkey)

/-- Taking entries out changes what is found under a key only if it is taken out. -/
theorem find?_filter_of_nodup_map [BEq β] [LawfulBEq β] (h : (xs.map f).Nodup) (keep : α → Bool)
    (key : β) : (xs.filter keep).find? (fun x => f x == key) =
      (xs.find? fun x => f x == key).filter keep := by
  cases hfind : xs.find? fun x => f x == key with
  | none =>
    rw [Option.filter_none, List.find?_eq_none]
    intro x hx
    exact List.find?_eq_none.mp hfind x (List.mem_of_mem_filter hx)
  | some a =>
    have hkey : f a = key := by simpa using List.find?_some hfind
    have ha := List.mem_of_find?_eq_some hfind
    by_cases hkeep : keep a = true
    · have hnodup : ((xs.filter keep).map f).Nodup := h.sublist (List.filter_sublist.map f)
      rw [Option.filter_some, if_pos hkeep]
      exact find?_of_nodup_map hnodup (List.mem_filter.mpr ⟨ha, hkeep⟩) fun x => by
        rw [beq_iff_eq, hkey]
    · rw [Option.filter_some, if_neg hkeep, List.find?_eq_none]
      intro x hx hxkey
      obtain ⟨hmem, hxkeep⟩ := List.mem_filter.mp hx
      have hsame : x = a := List.inj_on_of_nodup_map h hmem ha ((beq_iff_eq.mp hxkey).trans hkey.symm)
      exact hkeep (hsame ▸ hxkeep)

/-! ## An entry placed -/

section Placed

variable [DecidableEq β]

/-- A list with an entry in the place of the one with its key, or at the end. -/
def placed (f : α → β) (xs : List α) (new : α) : List α :=
  if (xs.find? fun x => f x == f new).isSome then xs.map fun x => if f x = f new then new else x
  else xs ++ [new]

/-- Replacing an entry by one of its key moves no key. -/
private theorem find?_replaced (f : α → β) (xs : List α) (new : α) (key : β) :
    (xs.map fun x => if f x = f new then new else x).find? (fun x => f x == key) =
      (xs.find? fun x => f x == key).map fun x => if f x = f new then new else x := by
  have hkey : (fun x => f x == key) ∘ (fun x => if f x = f new then new else x) =
      fun x => f x == key := by
    funext x
    by_cases hx : f x = f new <;> simp [hx]
  rw [List.find?_map, hkey]

theorem find?_placed_self (f : α → β) (xs : List α) (new : α) :
    (placed f xs new).find? (fun x => f x == f new) = some new := by
  unfold placed
  cases hfind : xs.find? fun x => f x == f new with
  | none =>
    rw [if_neg (by simp), List.find?_append, hfind]
    simp
  | some a =>
    have ha : f a = f new := by simpa using List.find?_some hfind
    rw [if_pos Option.isSome_some, find?_replaced, hfind, Option.map_some, if_pos ha]

theorem find?_placed_of_ne {new : α} {key : β} (h : key ≠ f new) (xs : List α) :
    (placed f xs new).find? (fun x => f x == key) = xs.find? fun x => f x == key := by
  unfold placed
  split
  · rw [find?_replaced]
    cases hfind : xs.find? fun x => f x == key with
    | none => rfl
    | some a =>
      have ha : f a = key := by simpa using List.find?_some hfind
      rw [Option.map_some, if_neg (ha.trans_ne h)]
  · have hnew : [new].find? (fun x => f x == key) = none := by simp [h.symm]
    rw [List.find?_append, hnew, Option.or_none]

theorem nodup_map_placed (h : (xs.map f).Nodup) (new : α) : ((placed f xs new).map f).Nodup := by
  unfold placed
  split
  case isTrue =>
    have hkeys : (xs.map fun x => if f x = f new then new else x).map f = xs.map f := by
      rw [List.map_map]
      apply List.map_congr_left
      intro x _
      by_cases hx : f x = f new <;> simp [hx]
    rwa [hkeys]
  case isFalse hfree =>
    rw [List.map_append, List.map_singleton]
    refine List.nodup_append.mpr ⟨h, List.nodup_singleton (f new), ?_⟩
    intro key hkey _ hsingle heq
    obtain ⟨x, hx, rfl⟩ := List.mem_map.mp hkey
    exact hfree (List.find?_isSome.mpr ⟨x, hx, by simpa [heq] using hsingle⟩)

end Placed

end CostCatalog
