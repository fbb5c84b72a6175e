import CostCatalog.Program.World
import CostCatalog.Proofs.Command.Updates
import CostCatalog.Proofs.Store

/-!
# What a change or an end does to a row

A command that changes or ends an entry comes to a course once its texts are read. `Course.effect`
says what a course does to the row of its code, up to times of change, without any other step in
between. The statement that changes the row does all of that at once, `answer_update` and
`answer_delete`, even if the change was made of a row that is out of date by then.
-/

namespace CostCatalog

variable {k : Kind} {c : Code k} {holds : Entry k → Bool} {bound : Nat} {row : Option (Entry k)}

/-- A result without the times of change in it. -/
def upToTime {ε : Type} (x : Except ε (Option (Entry k))) : Except ε (Option (Entry k)) :=
  x.map (Option.map Entry.untimed)

/-! ## The row of a code -/

/-- A store shows a row under a code, up to its time of change, which is within a bound; the table
can be written to, and the units that entries name are known to be there or not. -/
structure Store.Shows (c : Code k) (holds : Entry k → Bool) (bound : Nat) (row : Option (Entry k))
    (s : Store) : Prop where
  table : ∃ t, s.writable k = .ok t ∧ (t.find? c).map Entry.untimed = row ∧
    ∀ e ∈ t.find? c, (Entry.audit e).Within bound
  references : ∀ e : Entry k, s.referenceHolds e = holds e

namespace Store.Shows

variable {s : Store}

theorem mono {bound' : Nat} (h : s.Shows c holds bound row) (hle : bound ≤ bound') :
    s.Shows c holds bound' row := by
  obtain ⟨⟨t, hwritable, hrow, hwithin⟩, hreferences⟩ := h
  exact ⟨⟨t, hwritable, hrow, fun e he => (hwithin e he).mono hle⟩, hreferences⟩

/-- What is found under the code. -/
theorem find (h : s.Shows c holds bound row) :
    ∃ x, s.find c = .ok x ∧ x.map Entry.untimed = row ∧
      ∀ e ∈ x, e.code = c ∧ (Entry.audit e).Within bound := by
  obtain ⟨⟨t, hwritable, hrow, hwithin⟩, -⟩ := h
  exact ⟨t.find? c, Store.find_of_writable hwritable c, hrow, fun e he =>
    ⟨(Table.find?_spec he).2, hwithin e he⟩⟩

theorem upToTime_find (h : s.Shows c holds bound row) : upToTime (s.find c) = .ok row := by
  obtain ⟨x, hx, rfl, -⟩ := h.find
  rw [hx]
  rfl

private theorem delete_none (h : s.Shows c holds bound none) : s.delete c = .ok (false, s) := by
  obtain ⟨⟨t, hwritable, hrow, -⟩, -⟩ := h
  exact Store.delete_of_absent hwritable (Option.map_eq_none_iff.mp hrow)

private theorem delete_some {e : Entry k} (h : s.Shows c holds bound (some e)) :
    ∃ s', s.delete c = .ok (true, s') ∧ s'.Shows c holds bound none := by
  obtain ⟨⟨t, hwritable, hrow, -⟩, hreferences⟩ := h
  obtain ⟨old, hold, -⟩ := Option.map_eq_some_iff.mp hrow
  refine ⟨_, Store.delete_of_present hwritable hold, ⟨t.erase c, ?_, ?_, ?_⟩, ?_⟩
  · exact Store.writable_afterDelete (Store.writable_withTable hwritable _) c
  · rw [Table.find?_erase_self]
    rfl
  · intro e he
    rw [Table.find?_erase_self] at he
    cases he
  · intro e
    rw [Store.referenceHolds_afterDelete, Store.referenceHolds_withTable, hreferences]

private theorem update_none (h : s.Shows c holds bound none) {e : Entry k} (hcode : e.code = c) :
    s.update e = .ok (false, s) := by
  subst hcode
  obtain ⟨⟨t, hwritable, hrow, -⟩, -⟩ := h
  exact Store.update_of_absent hwritable (Option.map_eq_none_iff.mp hrow)

/-- The row of an entry that is stored shows the making of the old row. -/
private theorem update_some {d e : Entry k} (h : s.Shows c holds bound (some e)) (hcode : d.code = c)
    (a : Audit) {t : Timestamp} {bound' : Nat} (ht : t.Within bound') :
    s.update (d.madeAs a (some t)) = .error danglingReference ∧ holds d = false ∨
      ∃ s', s.update (d.madeAs a (some t)) = .ok (true, s') ∧ holds d = true ∧
        s'.Shows c holds bound' (some ((Entry.withStoredBounds d).madeAs (Entry.audit e) none)) := by
  subst hcode
  obtain ⟨⟨table, hwritable, hrow, -⟩, hreferences⟩ := h
  obtain ⟨old, hold, rfl⟩ := Option.map_eq_some_iff.mp hrow
  have hcode := Entry.code_madeAs d a (some t)
  rw [← hcode] at hold
  have hupdate := Store.update_of_present hwritable hold
  have hholds : s.referenceHolds (d.madeAs a (some t)) = holds d := by
    rw [Entry.madeAs, Store.referenceHolds_withAudit, hreferences]
  rw [hholds] at hupdate
  cases hd : holds d with
  | false =>
    rw [hd] at hupdate
    exact Or.inl ⟨hupdate, rfl⟩
  | true =>
    rw [hd] at hupdate
    have hfound := Table.find?_replace_self hold
    rw [hcode] at hfound
    refine Or.inr ⟨_, hupdate, rfl, ⟨_, Store.writable_withTable hwritable _, ?_, ?_⟩, ?_⟩
    · rw [hfound, Option.map_some, Entry.untimed_replaced_madeAs, Entry.madeAs_untimed]
    · intro new hnew
      rw [hfound] at hnew
      cases hnew
      have hlatest : (Entry.audit (Entry.replaced (d.madeAs a (some t)) old)).latest =
          some t.stored := by
        rw [Entry.replaced, Entry.audit_withAudit, Entry.madeAs, Entry.audit_withAudit]
        rfl
      intro p hp
      rw [hlatest] at hp
      cases hp
      exact ⟨rfl, ht.wall_le⟩
    · intro e
      rw [Store.referenceHolds_withTable, hreferences]

end Store.Shows

namespace Command

/-! ## Commands and their effects -/

/-- A command that changes an entry, or one that ends an entry by its code. -/
inductive Amendment (k : Kind) where
  | update (cmd : Update k)
  | delete (code : String)

/-- The code that a command names. -/
def Amendment.codeText : Amendment k → String
  | .update cmd => cmd.codeText
  | .delete code => code

/-- Carries out a command. The result is the entry that an update made, and nothing after an end. -/
def Amendment.action (repo : Repository k) : Amendment k → Action (Option (Entry k))
  | .update cmd => do
    let e ← Command.update repo cmd
    pure (some e)
  | .delete code => do
    Command.delete repo code
    pure none

/-- A command carried out alone, with a reading of the clock. -/
def Amendment.alone (cmd : Amendment k) (now : Timestamp) (w : World) :
    Except Fault (Option (Entry k)) × World :=
  (cmd.action (Repository.stored k)).perform { w with wall := now }

/-- What a command comes to, once its texts are read: refused, the end of an entry, or a change to a
draft, unless the draft breaks a rule. -/
inductive Course (k : Kind) where
  | refused (f : Fault)
  | delete
  | update (draft : Except Fault (Entry k))

/-- The course that a command takes. -/
inductive Amendment.Takes (c : Code k) : Amendment k → Course k → Prop
  | refused {cmd : Update k} {f : Fault} (h : cmd.edit = .error f) :
    Takes c (.update cmd) (.refused f)
  | update {cmd : Update k} {edit} {draft : Except Fault (Entry k)} (h : cmd.edit = .ok edit)
    (hforgetful : Forgetful c edit draft) : Takes c (.update cmd) (.update draft)
  | delete {code : String} : Takes c (.delete code) .delete

theorem Amendment.exists_takes (c : Code k) (cmd : Amendment k) : ∃ course, cmd.Takes c course := by
  cases cmd with
  | delete code => exact ⟨.delete, .delete⟩
  | update cmd =>
    cases h : cmd.edit with
    | error f => exact ⟨.refused f, .refused h⟩
    | ok edit =>
      obtain ⟨draft, hdraft⟩ := Update.forgetful_edit h c
      exact ⟨.update draft, .update h hdraft⟩

/-- The result of a course taken without any other in between, and the row after it, up to times of
change. A draft is refused before a missing unit is. -/
def Course.effect (holds : Entry k → Bool) :
    Course k → Option (Entry k) → Except Fault (Option (Entry k)) × Option (Entry k)
  | .refused f, row => (.error f, row)
  | _, none => (.error (.ofRule (.notFound k)), none)
  | .delete, some _ => (.ok none, none)
  | .update (.error f), some e => (.error f, some e)
  | .update (.ok d), some e =>
    if holds d then
      (.ok (some (d.madeAs (Entry.audit e) none)),
        some ((Entry.withStoredBounds d).madeAs (Entry.audit e) none))
    else (.error (Store.danglingReference.toFault "update"), some e)

/-- A row after an effect is the one before, or that of the draft with the making of that one. -/
theorem Course.effect_row {course : Course k} {e : Entry k} (h : e ∈ (course.effect holds row).2) :
    ∃ old ∈ row, e = old ∨ ∃ d, course = .update (.ok d) ∧
      e = (Entry.withStoredBounds d).madeAs (Entry.audit old) none := by
  cases row with
  | none => cases course <;> cases h
  | some old =>
    refine ⟨old, rfl, ?_⟩
    cases course with
    | refused f =>
      cases h
      exact Or.inl rfl
    | delete => cases h
    | update draft =>
      cases draft with
      | error f =>
        cases h
        exact Or.inl rfl
      | ok d =>
        by_cases hd : holds d
        · simp only [effect, hd, if_true] at h
          cases h
          exact Or.inr ⟨d, rfl, rfl⟩
        · simp only [effect, hd, Bool.false_eq_true, if_false] at h
          cases h
          exact Or.inl rfl

theorem Course.effect_of_none (course : Course k) : (course.effect holds none).2 = none := by
  cases course <;> rfl

/-- After an end that succeeds there is no row. -/
theorem Course.effect_none {course : Course k} (h : (course.effect holds row).1 = .ok none) :
    (course.effect holds row).2 = none := by
  cases row with
  | none => exact course.effect_of_none
  | some e =>
    cases course with
    | refused f => cases h
    | delete => rfl
    | update draft =>
      cases draft with
      | error f => cases h
      | ok d =>
        by_cases hd : holds d
        · simp only [effect, hd, if_true] at h
          cases h
        · simp only [effect, hd, Bool.false_eq_true, if_false] at h
          cases h

/-- The result of a statement that says whether it found a row. -/
def writeResult (operation : String) (done : Option (Entry k)) :
    Except StoreFailure Bool → Except Fault (Option (Entry k))
  | .ok true => .ok done
  | .ok false => .error (.ofRule (.notFound k))
  | .error f => .error (f.toFault operation)

/-- The statement of an end does all of its effect. -/
theorem answer_delete {w : World} (h : w.store.Shows c holds bound row) :
    writeResult "delete" none (w.answer (.delete k c)).1 = (Course.effect holds .delete row).1 ∧
      (w.answer (.delete k c)).2.wall = w.wall ∧
      (w.answer (.delete k c)).2.store.Shows c holds (bound + 1)
        (Course.effect holds .delete row).2 := by
  cases row with
  | none =>
    simp only [World.answer, h.delete_none, World.onRow]
    exact ⟨rfl, trivial, h.mono (Nat.le_succ bound)⟩
  | some e =>
    obtain ⟨s', hdelete, hshows⟩ := h.delete_some
    simp only [World.answer, hdelete, World.onRow]
    exact ⟨rfl, trivial, hshows.mono (Nat.le_succ bound)⟩

/-- The statement of a change does all of its effect, even if the entry was made of a row that is out
of date, as long as that had the same making. -/
theorem answer_update {w : World} (h : w.store.Shows c holds bound row) {d : Entry k}
    (hcode : d.code = c) {a : Audit} {t : Timestamp} (ht : t.Within (bound + 1))
    (ha : ∀ e ∈ row, d.madeAs a none = d.madeAs (Entry.audit e) none) :
    writeResult "update" (some (d.madeAs a none)) (w.answer (.update k (d.madeAs a (some t)))).1 =
        (Course.effect holds (.update (.ok d)) row).1 ∧
      (w.answer (.update k (d.madeAs a (some t)))).2.wall = w.wall ∧
      (w.answer (.update k (d.madeAs a (some t)))).2.store.Shows c holds (bound + 1)
        (Course.effect holds (.update (.ok d)) row).2 := by
  cases row with
  | none =>
    have hupdate := h.update_none ((Entry.code_madeAs d a (some t)).trans hcode)
    simp only [World.answer, hupdate, World.onRow]
    exact ⟨rfl, trivial, h.mono (Nat.le_succ bound)⟩
  | some e =>
    rcases h.update_some hcode a ht with ⟨hupdate, hd⟩ | ⟨s', hupdate, hd, hshows⟩
    · simp only [World.answer, hupdate, World.onRow, Course.effect, hd, Bool.false_eq_true, if_false]
      exact ⟨rfl, trivial, h.mono (Nat.le_succ bound)⟩
    · simp only [World.answer, hupdate, World.onRow, Course.effect, hd, if_true]
      exact ⟨by rw [ha e rfl]; rfl, trivial, hshows⟩

end Command

end CostCatalog
