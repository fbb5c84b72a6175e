import CostCatalog.Cache.Basic

/-!
# The slots of a cache

Which slots each operation of a cache leaves: reading and sweeping drop some, writing adds one and
drops its namesakes, dropping by key or by pattern leaves those of other keys. None changes the
stem, or how deep values may be nested.
-/

namespace CostCatalog.Cache

variable {c : Cache} {slot : Slot}

theorem mem_erase {key : String} :
    slot ∈ (c.erase key).slots ↔ slot ∈ c.slots ∧ slot.key ≠ key := by
  simp only [erase, List.mem_filter, bne_iff_ne]

theorem mem_of_mem_sweep {now : Float} (h : slot ∈ (c.sweep now).slots) : slot ∈ c.slots :=
  (List.mem_filter.mp h).1

theorem find?_spec {key : String} (h : c.find? key = some slot) :
    slot ∈ c.slots ∧ slot.key = key :=
  ⟨List.mem_of_find?_eq_some h, by simpa using List.find?_some h⟩

/-- After a slot is written, a slot is that one or one of before under another key. -/
theorem mem_put {new : Slot} (h : slot ∈ (c.put new).slots) :
    slot = new ∨ slot ∈ c.slots ∧ slot.key ≠ new.key := by
  unfold put at h
  split at h
  · obtain ⟨old, hold, rfl⟩ := List.mem_map.mp h
    split
    · exact Or.inl rfl
    · next hkey => exact Or.inr ⟨hold, hkey⟩
  · next hfree =>
    rcases List.mem_append.mp h with hold | hnew
    · refine Or.inr ⟨hold, fun hkey => hfree ?_⟩
      exact List.find?_isSome.mpr ⟨slot, hold, beq_iff_eq.mpr hkey⟩
    · exact Or.inl (List.mem_singleton.mp hnew)

theorem stem_put (new : Slot) : (c.put new).stem = c.stem := by
  unfold put
  split <;> rfl

theorem depth_put (new : Slot) : (c.put new).depth = c.depth := by
  unfold put
  split <;> rfl

theorem mem_delete_one {key : String} :
    slot ∈ (c.delete [key]).slots ↔ slot ∈ c.slots ∧ slot.key ≠ c.stem ++ key :=
  mem_erase

theorem mem_deleteMatching {pattern : String} :
    slot ∈ (c.deleteMatching pattern).2.slots ↔
      slot ∈ c.slots ∧ Glob.isMatch (c.stem ++ pattern) slot.key = false := by
  simp only [deleteMatching, List.mem_filter, Bool.not_eq_true']

/-- What is left when a key is dropped and then a pattern. -/
theorem forgotten_subset {key pattern : String} :
    ((c.delete [key]).deleteMatching pattern).2.slots ⊆ c.slots := by
  intro slot hslot
  exact (mem_delete_one.mp (mem_deleteMatching.mp hslot).1).1

theorem key_of_mem_forgotten {key pattern : String}
    (h : slot ∈ ((c.delete [key]).deleteMatching pattern).2.slots) :
    slot.key ≠ c.stem ++ key ∧ Glob.isMatch (c.stem ++ pattern) slot.key = false := by
  obtain ⟨hmem, hmatch⟩ := mem_deleteMatching.mp h
  exact ⟨(mem_delete_one.mp hmem).2, hmatch⟩

section

variable (τ : Type) [Textual τ] [DecidableEq τ]

/-- A read either finds nothing, and may drop a slot, or reads the text of a slot of its key. -/
theorem getAs_cases (c : Cache) (key : String) (now : Float) :
    (∃ slots ⊆ c.slots, c.getAs τ key now = (.ok none, { c with slots })) ∨
      ∃ slot ∈ c.slots, slot.key = c.stem ++ key ∧
        c.getAs τ key now = (match Json.decode c.depth (Textual.points slot.payload) with
          | .ok v => (.ok (some v), c)
          | .error e => (.error (readFault e), c)) := by
  unfold getAs
  cases hfind : c.find? (c.stem ++ key) with
  | none => exact Or.inl ⟨c.slots, List.Subset.refl _, rfl⟩
  | some slot =>
    obtain ⟨hmem, hkey⟩ := find?_spec hfind
    simp only
    split
    · exact Or.inl ⟨_, fun x hx => (mem_erase.mp hx).1, rfl⟩
    · exact Or.inr ⟨slot, hmem, hkey, rfl⟩

theorem getAs_subset {key : String} {now : Float} (h : slot ∈ (c.getAs τ key now).2.slots) :
    slot ∈ c.slots := by
  rcases c.getAs_cases τ key now with ⟨slots, hslots, hget⟩ | ⟨found, -, -, hget⟩ <;> rw [hget] at h
  · exact hslots h
  · cases hread : Json.decode (τ := τ) c.depth (Textual.points found.payload) <;>
      rw [hread] at h <;> exact h

end

/-! ## Values set -/

section

variable {τ : Type} [Textual τ] {key : String} {v : Json τ}

theorem written_of_isWritable (h : v.isWritable c.depth = true) :
    c.written (.json v) = .ok v.printAscii := by
  rw [written, Option.isNone_iff_eq_none.mp h]

/-- A value that cannot be written is a failure of the cache, unless it is nested too deep. -/
theorem written_of_not_isWritable (h : ¬ v.isWritable c.depth = true) :
    ∃ o, c.written (.json v) = .error (writeFault o) ∧ v.obstacle? c.depth.levels = some o := by
  cases hobstacle : v.obstacle? c.depth.levels with
  | none => exact absurd (Option.isNone_iff_eq_none.mpr hobstacle) h
  | some o => exact ⟨o, by rw [written, hobstacle], rfl⟩

/-- A whole number of seconds that an entry can be kept for: a double is nearest to it. -/
abbrev CanLast (ttl : Int) : Prop := (Binary64.ofInt? ttl).isSome

/-- A value set for a whole number of seconds is written, after what has ended was dropped; or it cannot
be written and nothing changes; or the seconds are more than can be counted, and what has ended is
dropped. -/
theorem set_whole_cases (c : Cache) (key : String) (v : Json τ) (ttl : Int) (now : Float) :
    (v.isWritable c.depth = true ∧ CanLast ttl ∧ ∃ ends, endAfter (.whole ttl) now = .ok ends ∧
      c.set key (.json v) (.whole ttl) now =
        (.ok (), (c.sweep now).put ⟨c.stem ++ key, ends, v.printAscii⟩)) ∨
    (∃ o, v.obstacle? c.depth.levels = some o ∧
      c.set key (.json v) (.whole ttl) now = (.error (writeFault o), c)) ∨
    (v.isWritable c.depth = true ∧ ¬ CanLast ttl ∧ c.set key (.json v) (.whole ttl) now =
      (.error (.unexpected .beyondDoubles), c.sweep now)) := by
  unfold set
  by_cases hv : v.isWritable c.depth = true
  · rw [written_of_isWritable hv, endAfter]
    cases httl : Binary64.ofInt? ttl with
    | some seconds => exact Or.inl ⟨hv, by rw [CanLast, httl]; rfl, _, rfl, rfl⟩
    | none => exact Or.inr (Or.inr ⟨hv, by rw [CanLast, httl]; exact Bool.false_ne_true, rfl⟩)
  · obtain ⟨o, hwritten, hobstacle⟩ := written_of_not_isWritable hv
    exact Or.inr (Or.inl ⟨o, hobstacle, by rw [hwritten]⟩)

end

end CostCatalog.Cache
