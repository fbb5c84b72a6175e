import CostCatalog.Text.Quoted

/-!
# Mappings between wire names and domain texts

A table from the members of a wire enumeration to domain texts. It is accepted when every member
is in it, no two members share a text, and some member stands for the empty text: that member is
the one for "not stated", and every text outside the table is read as it. So both directions come
from one table and cannot drift apart.

Whether two members share a text is told by counting: the table read from its texts to its members
has as many entries exactly if none of them takes the place of another, `length_reversed_eq_iff`.
-/

namespace CostCatalog.Wire

/-- Why a table is not accepted. -/
inductive MappingError where
  | missing (title : String) (names : List String)
  | notOneToOne (title : String)
  | noUnspecified (title : String)
deriving DecidableEq, Repr

/-- The wording of an error. -/
def MappingError.message : MappingError → String
  | .missing title names => title ++ " mapping missing: " ++ Text.quotedList names
  | .notOneToOne title => title ++ " mapping is not one-to-one"
  | .noUnspecified title => title ++ " mapping has no unspecified entry"

/-- An accepted table over the wire members `members`. -/
structure Mapping {W : Type} [DecidableEq W] (members : List W) where
  table : List (W × String)
  keys_nodup : (table.map (·.1)).Nodup
  covers : ∀ w ∈ members, w ∈ table.map (·.1)
  texts_nodup : (table.map (·.2)).Nodup
  unspecified : W
  unspecified_mem : (unspecified, "") ∈ table

namespace Mapping

/-! ## Tables -/

section Tables

variable {K V : Type} [DecidableEq K] {k x : K} {v : V} {t : List (K × V)}

/-- A table with the value of one key set: the last word counts, the first place is kept. -/
def setValue (k : K) (v : V) : List (K × V) → List (K × V)
  | [] => [(k, v)]
  | e :: es => if e.1 = k then (k, v) :: es else e :: setValue k v es

/-- A table in which of several entries for one key only the last one counts. -/
def ofEntries (entries : List (K × V)) : List (K × V) :=
  entries.foldl (fun t e => setValue e.1 e.2 t) []

/-- The value of a key. -/
def value? (k : K) (t : List (K × V)) : Option V := (t.find? fun e => decide (e.1 = k)).map (·.2)

theorem mem_keys_setValue : x ∈ (setValue k v t).map (·.1) ↔ x = k ∨ x ∈ t.map (·.1) := by
  induction t with
  | nil => simp [setValue]
  | cons e es ih =>
    unfold setValue
    split
    · next h => subst h; simp
    · simp only [List.map_cons, List.mem_cons, ih, or_left_comm]

theorem keys_setValue_nodup (h : (t.map (·.1)).Nodup) : ((setValue k v t).map (·.1)).Nodup := by
  induction t with
  | nil => simp [setValue]
  | cons e es ih =>
    have ⟨he, hes⟩ := List.nodup_cons.mp h
    unfold setValue
    split
    · next hk => subst hk; exact List.nodup_cons.mpr ⟨he, hes⟩
    · next hk =>
      refine List.nodup_cons.mpr ⟨fun hm => ?_, ih hes⟩
      rcases mem_keys_setValue.mp hm with hx | hx
      · exact hk hx
      · exact he hx

theorem keys_ofEntries_nodup (entries : List (K × V)) :
    ((ofEntries entries).map (·.1)).Nodup := by
  unfold ofEntries
  suffices ∀ t : List (K × V), (t.map (·.1)).Nodup →
      ((entries.foldl (fun t e => setValue e.1 e.2 t) t).map (·.1)).Nodup by
    exact this [] List.nodup_nil
  induction entries with
  | nil => exact fun t h => h
  | cons e es ih => exact fun t h => ih _ (keys_setValue_nodup h)

theorem setValue_of_not_mem (h : k ∉ t.map (·.1)) : setValue k v t = t ++ [(k, v)] := by
  induction t with
  | nil => rfl
  | cons e es ih =>
    rw [List.map_cons, List.mem_cons, not_or] at h
    rw [setValue, if_neg (Ne.symm h.1), ih h.2, List.cons_append]

theorem length_setValue_of_mem (h : k ∈ t.map (·.1)) : (setValue k v t).length = t.length := by
  induction t with
  | nil => cases h
  | cons e es ih =>
    unfold setValue
    split
    · rfl
    · next hk =>
      rw [List.map_cons, List.mem_cons] at h
      rw [List.length_cons, ih (h.resolve_left (Ne.symm hk)), List.length_cons]

theorem mem_of_mem_setValue {e : K × V} (h : e ∈ setValue k v t) : e = (k, v) ∨ e ∈ t := by
  induction t with
  | nil => exact Or.inl (List.mem_singleton.mp h)
  | cons d es ih =>
    unfold setValue at h
    split at h
    · exact (List.mem_cons.mp h).imp_right (List.mem_cons_of_mem d)
    · rcases List.mem_cons.mp h with rfl | hes
      · exact Or.inr (List.mem_cons_self ..)
      · exact (ih hes).imp_right (List.mem_cons_of_mem d)

/-- A table holds nothing but what its entries say. -/
theorem mem_of_mem_ofEntries {entries : List (K × V)} {e : K × V} (h : e ∈ ofEntries entries) :
    e ∈ entries := by
  suffices ∀ t : List (K × V), e ∈ entries.foldl (fun t e => setValue e.1 e.2 t) t →
      e ∈ t ∨ e ∈ entries by
    exact (this [] h).resolve_left List.not_mem_nil
  clear h
  induction entries with
  | nil => exact fun t h => Or.inl h
  | cons d es ih =>
    intro t h
    rcases ih _ h with hset | hes
    · rcases mem_of_mem_setValue hset with rfl | ht
      · exact Or.inr (List.mem_cons_self ..)
      · exact Or.inl ht
    · exact Or.inr (List.mem_cons_of_mem d hes)

theorem value?_mem (h : value? k t = some v) : (k, v) ∈ t := by
  obtain ⟨e, he, rfl⟩ := Option.map_eq_some_iff.mp h
  have hkey : e.1 = k := by simpa using List.find?_some he
  exact hkey ▸ List.mem_of_find?_eq_some he

/-! ### Counting -/

private theorem length_foldl_setValue_le (entries t : List (K × V)) :
    (entries.foldl (fun t e => setValue e.1 e.2 t) t).length ≤ t.length + entries.length := by
  induction entries generalizing t with
  | nil => exact Nat.le_refl _
  | cons e es ih =>
    refine Nat.le_trans (ih (setValue e.1 e.2 t)) ?_
    by_cases he : e.1 ∈ t.map (·.1)
    · rw [length_setValue_of_mem he, List.length_cons]
      omega
    · rw [setValue_of_not_mem he, List.length_append, List.length_singleton, List.length_cons]
      omega

/-- Every entry counts exactly if no two are for one key. -/
theorem length_ofEntries_eq_iff (entries : List (K × V)) :
    (ofEntries entries).length = entries.length ↔ (entries.map (·.1)).Nodup := by
  suffices ∀ t : List (K × V), (t.map (·.1)).Nodup →
      ((entries.foldl (fun t e => setValue e.1 e.2 t) t).length = t.length + entries.length ↔
        ((t ++ entries).map (·.1)).Nodup) by
    have hempty := this [] List.nodup_nil
    rwa [List.length_nil, Nat.zero_add] at hempty
  induction entries with
  | nil => exact fun t h => iff_of_true rfl (by rwa [List.append_nil])
  | cons e es ih =>
    intro t h
    rw [List.foldl_cons]
    by_cases he : e.1 ∈ t.map (·.1)
    · -- The entry takes the place of one before it, and no other makes up for it.
      have hle := length_foldl_setValue_le es (setValue e.1 e.2 t)
      rw [length_setValue_of_mem he] at hle
      refine iff_of_false (fun heq => ?_) fun hnodup => ?_
      · rw [List.length_cons] at heq
        omega
      · rw [List.map_append] at hnodup
        exact (List.nodup_append.mp hnodup).2.2 _ he _ (List.mem_cons_self ..) rfl
    · have hnodup := keys_setValue_nodup (k := e.1) (v := e.2) h
      have hnext := ih _ hnodup
      rw [setValue_of_not_mem he] at hnext ⊢
      rw [List.append_assoc, List.singleton_append, List.length_append, List.length_singleton,
        Nat.add_assoc, Nat.add_comm 1] at hnext
      exact hnext

end Tables

section Reversed

variable {K V : Type} [DecidableEq V]

/-- A table read from its values to its keys. -/
def reversed (t : List (K × V)) : List (V × K) := ofEntries (t.map Prod.swap)

/-- A table read from its values to its keys has as many entries exactly if no two share a value. -/
theorem length_reversed_eq_iff (t : List (K × V)) :
    (reversed t).length = t.length ↔ (t.map (·.2)).Nodup := by
  have hcount := length_ofEntries_eq_iff (t.map Prod.swap)
  rwa [List.length_map, List.map_map] at hcount

theorem mem_of_value?_reversed {k : K} {v : V} {t : List (K × V)}
    (h : value? v (reversed t) = some k) : (k, v) ∈ t := by
  obtain ⟨e, he, hswap⟩ := List.mem_map.mp (mem_of_mem_ofEntries (value?_mem h))
  cases hswap
  exact he

end Reversed

/-! ## Accepting a table -/

variable {W : Type} [DecidableEq W]

/-- The mapping of a table, or why it is not accepted. -/
def ofTable (title : String) (members : List W) (name : W → String)
    (entries : List (W × String)) : Except MappingError (Mapping members) :=
  let table := ofEntries entries
  let reverse := reversed table
  if hc : ∀ w ∈ members, w ∈ table.map (·.1) then
    if hn : reverse.length = table.length then
      match hw : value? "" reverse with
      | some w =>
        .ok ⟨table, keys_ofEntries_nodup entries, hc, (length_reversed_eq_iff table).mp hn, w,
          mem_of_value?_reversed hw⟩
      | none => .error (.noUnspecified title)
    else .error (.notOneToOne title)
  else
    .error (.missing title ((members.filter fun w => w ∉ table.map (·.1)).map name))

variable {members : List W}

/-- The domain text of a member. -/
def toDomain? (m : Mapping members) (w : W) : Option String :=
  (m.table.find? fun e => decide (e.1 = w)).map (·.2)

/-- The domain text of a member; for one outside the table, that of "not stated". -/
def toDomain (m : Mapping members) (w : W) : String := (m.toDomain? w).getD ""

/-- The member for a domain text. -/
def toWire (m : Mapping members) (text : String) : W :=
  ((m.table.find? fun e => e.2 == text).map (·.1)).getD m.unspecified

/-- The domain texts other than the empty one. -/
def domainTexts (m : Mapping members) : List String :=
  (m.table.map (·.2)).filter fun s => s != ""

end Mapping

end CostCatalog.Wire
