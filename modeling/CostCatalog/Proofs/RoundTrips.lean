import CostCatalog.Proofs.Edits
import CostCatalog.Proofs.Records
import CostCatalog.Proofs.Samples

/-!
# Round trips

What goes through the cache is written as a record and read again. An entry comes back as it went
exactly when its times are legible, and nothing but the offset of a time ever changes on the way,
`read_back_iff`. Entries that were read once are legible, whatever record they were read from: the
second way through changes nothing.
-/

namespace CostCatalog

/-- A unit made half a second ahead of UTC. -/
def Sample.ahead : Uom :=
  { kilogram "Kilogram" with
    audit := .start "ada"
      { Timestamp.epoch with offset := some 500000, offset_lt := by intro o h; cases h; decide } }

namespace Record

variable {k : Kind}

/-! ## Entries that were read -/

theorem readableOffset_of_time? {v : Json} {o : Option Timestamp} (h : time? v = .ok o) :
    ∀ t ∈ o, t.ReadableOffset := by
  intro t ht
  cases ht
  unfold time? at h
  split at h
  · cases h
  · split at h
    · next hread =>
      cases h
      exact Timestamp.readableOffset_of_ofIso hread
    · cases h
  · cases h

-- A field is one step to look up and one to read; the times are what is kept of them.
private theorem legible_of_toUom {r : Json} {u : Uom} (h : toUom r = .ok u) : u.audit.Legible := by
  unfold toUom at h
  iterate 9 obtain ⟨_, -, h⟩ := bind_ok h
  obtain ⟨createdAt, hcreated, h⟩ := bind_ok h
  iterate 3 obtain ⟨_, -, h⟩ := bind_ok h
  obtain ⟨updatedAt, hupdated, h⟩ := bind_ok h
  iterate 2 obtain ⟨_, -, h⟩ := bind_ok h
  cases h
  exact ⟨readableOffset_of_time? hcreated, readableOffset_of_time? hupdated⟩

private theorem legible_of_toParameter {r : Json} {p : Parameter} (h : toParameter r = .ok p) :
    p.audit.Legible := by
  unfold toParameter at h
  iterate 23 obtain ⟨_, -, h⟩ := bind_ok h
  obtain ⟨createdAt, hcreated, h⟩ := bind_ok h
  iterate 3 obtain ⟨_, -, h⟩ := bind_ok h
  obtain ⟨updatedAt, hupdated, h⟩ := bind_ok h
  iterate 2 obtain ⟨_, -, h⟩ := bind_ok h
  cases h
  exact ⟨readableOffset_of_time? hcreated, readableOffset_of_time? hupdated⟩

/-- What is read from a record is legible, also where the record spells an offset otherwise. -/
theorem legible_of_toEntry {r : Json} {e : Entry k} (h : toEntry k r = .ok e) :
    e.audit.Legible := by
  cases k with
  | uom => exact legible_of_toUom h
  | parameter => exact legible_of_toParameter h

/-! ## There and back -/

/-- Exactly the legible entries are read back. -/
theorem toEntry_ofEntry_iff (e : Entry k) :
    toEntry k (ofEntry e) = .ok e ↔ e.audit.Legible := by
  constructor
  · exact legible_of_toEntry
  · exact toEntry_ofEntry

/-- A record that is read and written again. -/
def rewrite (k : Kind) (r : Json) : Except Fault Json := (toEntry k r).map ofEntry

private theorem rewrite_rewrite (r : Json) : rewrite k r >>= rewrite k = rewrite k r := by
  cases hread : toEntry k r with
  | error f => simp only [rewrite, hread, Except.map, bind, Except.bind]
  | ok e =>
    simp only [rewrite, hread, Except.map, bind, Except.bind,
      toEntry_ofEntry (legible_of_toEntry hread)]

/-- An entry is read back from its record exactly when its times have offsets of zero, of a second
or more, or none. Everything of it but the offsets is read back always, and a record that is read at
all is settled after one reading. -/
theorem read_back_iff (k : Kind) :
    (∀ e : Entry k,
      (toEntry k (ofEntry e) = .ok e ↔ e.audit.Legible) ∧
        toEntry k (ofEntry e) = .ok (e.withAudit e.audit.reread)) ∧
      ∀ r, rewrite k r >>= rewrite k = rewrite k r :=
  ⟨fun e => ⟨toEntry_ofEntry_iff e, toEntry_ofEntry_eq e⟩, rewrite_rewrite⟩

/-- The unit made half a second ahead of UTC is read back as one made in UTC. -/
theorem ahead_read_back :
    toEntry .uom (ofEntry (k := .uom) Sample.ahead) = .ok (Sample.kilogram "Kilogram") ∧
      Sample.kilogram "Kilogram" ≠ Sample.ahead := by
  constructor
  · rw [toEntry_ofEntry_eq]
    rfl
  · decide

end Record

end CostCatalog
