import CostCatalog.Filter
import CostCatalog.Store.Row

/-!
# Tables

The stored entries of one kind, in normal form and in strictly ascending order of their codes; so no
two have one code, and a page is a stretch of the list.
-/

namespace CostCatalog

/-- One entry comes before another by its code. -/
def Entry.Before {k : Kind} (a b : Entry k) : Prop := a.code.text < b.code.text

instance {k : Kind} (a b : Entry k) : Decidable (a.Before b) := by
  unfold Entry.Before; infer_instance

/-- The rows of a kind. -/
structure Table (k : Kind) where
  rows : List (Entry k)
  sorted : rows.Pairwise Entry.Before
  stored : ∀ e ∈ rows, e.IsStored

namespace Table

variable {k : Kind}

/-- The table without rows. -/
def empty : Table k := ⟨[], .nil, List.forall_mem_nil _⟩

/-- The row with a code. -/
def find? (t : Table k) (c : Code k) : Option (Entry k) := t.rows.find? fun e => decide (e.code = c)

/-- Whether there is a row with a code. -/
def contains (t : Table k) (c : Code k) : Bool := (t.find? c).isSome

/-- A row put in its place among sorted ones. -/
def place (e : Entry k) : List (Entry k) → List (Entry k)
  | [] => [e]
  | x :: xs => if e.Before x then e :: x :: xs else x :: place e xs

theorem mem_place {e x : Entry k} {xs : List (Entry k)} : x ∈ place e xs ↔ x = e ∨ x ∈ xs := by
  induction xs with
  | nil => simp [place]
  | cons y ys ih =>
    unfold place
    split
    · simp
    · simp only [List.mem_cons, ih, or_left_comm]

theorem place_sorted {e : Entry k} {xs : List (Entry k)} (h : xs.Pairwise Entry.Before)
    (hne : ∀ x ∈ xs, x.code ≠ e.code) : (place e xs).Pairwise Entry.Before := by
  induction xs with
  | nil => simp [place]
  | cons y ys ih =>
    obtain ⟨hy, hys⟩ := List.pairwise_cons.mp h
    unfold place
    split
    · next hb =>
      refine List.pairwise_cons.mpr ⟨fun x hx => ?_, h⟩
      rcases List.mem_cons.mp hx with rfl | hx'
      · exact hb
      · exact String.lt_trans hb (hy x hx')
    · next hb =>
      refine List.pairwise_cons.mpr ⟨fun x hx => ?_, ih hys fun x hx =>
        hne x (List.mem_cons_of_mem _ hx)⟩
      rcases mem_place.mp hx with rfl | hx'
      · have hn := hne y (List.mem_cons_self ..)
        refine Decidable.byContradiction fun hlt => hn (Code.ext_text ?_)
        exact String.le_antisymm (String.not_lt.mp hb) (String.not_lt.mp hlt)
      · exact hy x hx'

/-- The table with the row of a new entry; nothing when its code is taken. -/
def insert? (t : Table k) (e : Entry k) : Option (Table k) :=
  if h : ∀ x ∈ t.rows, x.code ≠ e.inserted.code then
    some {
      rows := place e.inserted t.rows
      sorted := place_sorted t.sorted h
      stored := fun x hx => (mem_place.mp hx).elim (fun hx => hx ▸ e.inserted_isStored) (t.stored x) }
  else none

/-- A change of every row that leaves the codes alone and keeps the normal form. -/
def mapRows (t : Table k) (f : Entry k → Entry k) (code_eq : ∀ e, (f e).code = e.code)
    (isStored : ∀ e : Entry k, e.IsStored → (f e).IsStored) : Table k where
  rows := t.rows.map f
  sorted := by
    refine List.pairwise_map.mpr (t.sorted.imp fun {a b} h => ?_)
    unfold Entry.Before at h ⊢
    rw [code_eq a, code_eq b]
    exact h
  stored := List.forall_mem_map.mpr fun e he => isStored e (t.stored e he)

/-- The table with a changed entry in the place of the old one, if there is one. -/
def replace (t : Table k) (e : Entry k) : Table k :=
  t.mapRows (fun old => if old.code = e.code then e.replaced old else old)
    (fun old => by
      split
      · next h => rw [Entry.code_replaced, h]
      · rfl)
    (fun old h => by
      split
      · exact e.replaced_isStored h
      · exact h)

/-- The table without the row with a code. -/
def erase (t : Table k) (c : Code k) : Table k where
  rows := t.rows.filter fun e => !decide (e.code = c)
  sorted := t.sorted.filter _
  stored := fun e he => t.stored e (List.mem_filter.mp he).1

/-- The rows that pass a filter's selection. -/
def selected (t : Table k) (f : Filter k) : List (Entry k) := t.rows.filter f.selects

/-- The rows of a filter's page. -/
def page (t : Table k) (f : Filter k) : List (Entry k) :=
  ((t.selected f).drop f.page.offset).take f.page.limit

end Table

end CostCatalog
